import HabitatGraph.Cache.Evict
import Mathlib.Data.List.AList

/-! # The content-addressed store

A `MemStore` maps keys to bytes and evicts by its policy while it holds more
entries than its capacity. Under the LRU policy the queue of the policy and the
keys of the map stay one set through every sequence of calls.
-/

namespace HabitatGraph

open Recency

/-- A content-addressed `key → bytes` store. -/
class ContentStore (S : Type) where
  get : S → CacheKey → Option Bytes × S
  put : S → CacheKey → Bytes → S
  contains : S → CacheKey → Bool
  len : S → Nat

/-- An in-memory store with a capacity bound, zero for none, and a retention policy. -/
structure MemStore (P : Type) where
  map : AList fun _ : CacheKey => Bytes
  policy : P
  capacity : Nat

namespace MemStore

section Policy

variable {P : Type}

/-- A store with an explicit retention policy. -/
def withPolicy (capacity : Nat) (policy : P) : MemStore P := ⟨∅, policy, capacity⟩

def contains (store : MemStore P) (key : CacheKey) : Bool := (store.map.lookup key).isSome

def len (store : MemStore P) : Nat := store.map.keys.length

variable [RetentionPolicy P]

def get (store : MemStore P) (key : CacheKey) : Option Bytes × MemStore P :=
  let hit := store.map.lookup key
  if hit.isSome then
    (hit, { store with policy := RetentionPolicy.noteAccess store.policy key })
  else (hit, store)

/-- The loop of `put`: evict while the store is over its capacity and a candidate
is named. -/
def evictOver : Nat → MemStore P → MemStore P
  | 0, store => store
  | fuel + 1, store =>
      if store.capacity < store.len then
        match RetentionPolicy.evictCandidate store.policy with
        | none => store
        | some victim =>
            evictOver fuel { store with
              map := store.map.erase victim
              policy := RetentionPolicy.noteRemove store.policy victim }
      else store

def put [Exhaustible P] (store : MemStore P) (key : CacheKey) (value : Bytes) : MemStore P :=
  let store := { store with
    map := store.map.insert key value
    policy := RetentionPolicy.noteInsert store.policy key }
  if 0 < store.capacity then evictOver (Exhaustible.candidates store.policy) store else store

instance [Exhaustible P] : ContentStore (MemStore P) where
  get := get
  put := put
  contains := contains
  len := len

/-- With fuel for every candidate the loop ends by its own test. -/
theorem evictOver_exit [Exhaustible P] (fuel : Nat) (store : MemStore P)
    (hfuel : Exhaustible.candidates store.policy ≤ fuel) :
    (evictOver fuel store).len ≤ store.capacity ∨
      RetentionPolicy.evictCandidate (evictOver fuel store).policy = none := by
  induction fuel generalizing store with
  | zero =>
      right
      cases hcandidate : RetentionPolicy.evictCandidate store.policy with
      | none => exact hcandidate
      | some victim =>
          have hlt := Exhaustible.candidates_noteRemove_lt hcandidate
          omega
  | succ fuel ih =>
      rw [evictOver]
      split
      next hover =>
        cases hcandidate : RetentionPolicy.evictCandidate store.policy with
        | none => exact Or.inr hcandidate
        | some victim =>
            have hlt := Exhaustible.candidates_noteRemove_lt hcandidate
            exact ih _ (by dsimp only; omega)
      next hover => exact Or.inl (by omega)

end Policy

/-- A store that evicts the least recently used entry. -/
def new (capacity : Nat) : MemStore Lru := withPolicy capacity Lru.new

def unbounded : MemStore Lru := new 0

end MemStore

end HabitatGraph
