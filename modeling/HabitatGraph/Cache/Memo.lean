import HabitatGraph.Cache.StoreRuns

/-! # Demand-driven memoization

`memoize` answers from the store or computes, stores and answers. A run on one
store is compared with the function it memoizes, and its hits and misses with the
recency of the keys.
-/

namespace HabitatGraph

open Recency

/-- The cached bytes for a key, or else those that `compute` returns, which are
stored. `compute` may read and change its environment. -/
def memoize {S σ : Type} [ContentStore S] (store : S) (key : CacheKey)
    (compute : σ → Bytes × σ) (env : σ) : Bytes × S × σ :=
  match ContentStore.get store key with
  | (some cached, store) => (cached, store, env)
  | (none, store) =>
      let (value, env) := compute env
      (value, ContentStore.put store key value, env)

/-! ## Runs -/

inductive MemoCall where
  | memoize (key : CacheKey)
  | get (key : CacheKey)
  deriving DecidableEq

/-- A call with what it returned; for `memoize` also the keys whose closure ran. -/
inductive MemoEvent where
  | memoize (key : CacheKey) (value : Bytes) (computed : List CacheKey)
  | get (key : CacheKey) (found : Option Bytes)
  deriving DecidableEq

namespace MemoEvent

def call : MemoEvent → MemoCall
  | memoize key _ _ => .memoize key
  | get key _ => .get key

/-- The key a call touches: a `get` that finds nothing touches none. -/
def touched : MemoEvent → Option CacheKey
  | memoize key _ _ => some key
  | get key (some _) => some key
  | get _ none => none

def computed : MemoEvent → List CacheKey
  | memoize _ _ computed => computed
  | get _ _ => []

end MemoEvent

/-- The keys touched, oldest first. -/
def touches (events : List MemoEvent) : List CacheKey := events.filterMap MemoEvent.touched

/-- The keys whose closure ran, oldest first. -/
def computations (events : List MemoEvent) : List CacheKey := events.flatMap MemoEvent.computed

@[simp] theorem touches_concat (events : List MemoEvent) (event : MemoEvent) :
    touches (events ++ [event]) = touches events ++ event.touched.toList := by
  cases htouched : event.touched <;> simp [touches, List.filterMap_append, htouched]

@[simp] theorem computations_concat (events : List MemoEvent) (event : MemoEvent) :
    computations (events ++ [event]) = computations events ++ event.computed := by
  simp [computations]

namespace MemStore

variable (f : CacheKey → Bytes)

/-- Make a call; the closure of `memoize` logs its key. -/
def memoStep (store : MemStore Lru) : MemoCall → MemStore Lru × MemoEvent
  | .memoize key =>
      let (value, store, computed) :=
        HabitatGraph.memoize store key (fun log : List CacheKey => (f key, log ++ [key])) []
      (store, .memoize key value computed)
  | .get key => ((store.get key).2, .get key (store.get key).1)

def memoRun (store : MemStore Lru) : List MemoCall → MemStore Lru × List MemoEvent
  | [] => (store, [])
  | call :: calls =>
      let (next, event) := store.memoStep f call
      let (last, events) := next.memoRun calls
      (last, event :: events)

variable {f}

theorem memoRun_concat (store : MemStore Lru) (calls : List MemoCall) (call : MemoCall) :
    store.memoRun f (calls ++ [call]) =
      (((store.memoRun f calls).1.memoStep f call).1,
        (store.memoRun f calls).2 ++ [((store.memoRun f calls).1.memoStep f call).2]) := by
  induction calls generalizing store with
  | nil => simp [memoRun]
  | cons first rest ih => simp [memoRun, ih]

theorem memoRun_calls (store : MemStore Lru) (calls : List MemoCall) :
    (store.memoRun f calls).2.map MemoEvent.call = calls := by
  induction calls generalizing store with
  | nil => rfl
  | cons call calls ih =>
      have hcall : (store.memoStep f call).2.call = call := by cases call <;> rfl
      simp [memoRun, ih, hcall]

/-! ## Hits and misses -/

variable {store : MemStore Lru} {key : CacheKey} {value : Bytes}

theorem get_of_lookup_none (hlookup : store.map.lookup key = none) :
    store.get key = (none, store) := by
  simp [MemStore.get, hlookup]

theorem get_of_lookup_some (hlookup : store.map.lookup key = some value) :
    store.get key = (some value, { store with policy := store.policy.touch key }) := by
  simp [MemStore.get, hlookup]
  rfl

theorem memoStep_hit (hlookup : store.map.lookup key = some value) :
    store.memoStep f (.memoize key) = ((store.get key).2, .memoize key value []) := by
  simp [memoStep, HabitatGraph.memoize, ContentStore.get, get_of_lookup_some hlookup]

theorem memoStep_miss (hlookup : store.map.lookup key = none) :
    store.memoStep f (.memoize key) = (store.put key (f key), .memoize key (f key) [key]) := by
  simp [memoStep, HabitatGraph.memoize, ContentStore.get, ContentStore.put,
    get_of_lookup_none hlookup]

/-! ## What a memoizing store remembers -/

/-- The store keeps the values of `f` for the keys most recently touched. -/
structure Recalls (f : CacheKey → Bytes) (capacity : Nat) (store : MemStore Lru)
    (events : List MemoEvent) : Prop where
  remembers : ∃ journal : Journal, store.Remembers capacity journal ∧
    journal.uses = touches events ∧
    ∀ event ∈ journal, ∀ k v, event.putValue k = some v → v = f k
  mem_computations : capacity = 0 → ∀ k, k ∈ computations events ↔ k ∈ touches events

namespace Recalls

variable {capacity : Nat} {events : List MemoEvent}

theorem new (f : CacheKey → Bytes) (capacity : Nat) :
    Recalls f capacity (MemStore.new capacity) [] where
  remembers := ⟨[], Remembers.new capacity, rfl, by simp⟩
  mem_computations := by simp [touches, computations]

theorem mem_map_iff (hrecalls : Recalls f capacity store events) :
    key ∈ store.map ↔ key ∈ mostRecent capacity (touches events) := by
  obtain ⟨journal, hremembers, huses, -⟩ := hrecalls.remembers
  rw [← huses, ← hremembers.order_eq, hremembers.mem_order]

theorem eq_of_lookup (hrecalls : Recalls f capacity store events)
    (hlookup : store.map.lookup key = some value) : value = f key := by
  obtain ⟨journal, hremembers, -, hputs⟩ := hrecalls.remembers
  rw [hremembers.lookup_eq key] at hlookup
  split at hlookup
  next => cases hlookup
  next =>
    obtain ⟨event, hevent, hvalue⟩ :=
      List.mem_filterMap.mp (List.mem_of_getLast? hlookup)
    exact hputs event hevent key value hvalue

/-- The store answers with the value of `f` for a key most recently touched, an
empty value like any other. -/
theorem lookup_eq (hrecalls : Recalls f capacity store events) :
    store.map.lookup key =
      if key ∈ mostRecent capacity (touches events) then some (f key) else none := by
  cases hlookup : store.map.lookup key with
  | none =>
      have hkey := AList.lookup_eq_none.mp hlookup
      rw [hrecalls.mem_map_iff] at hkey
      rw [if_neg hkey]
  | some value =>
      have hkey : key ∈ store.map := AList.lookup_isSome.mp (by simp [hlookup])
      rw [hrecalls.mem_map_iff] at hkey
      rw [if_pos hkey, hrecalls.eq_of_lookup hlookup]

theorem mem_touches_of_lookup (hrecalls : Recalls f capacity store events)
    (hlookup : store.map.lookup key = some value) : key ∈ touches events := by
  have hkey : key ∈ store.map := AList.lookup_isSome.mp (by simp [hlookup])
  rw [hrecalls.mem_map_iff] at hkey
  exact mem_of_mem_mostRecent hkey

/-- Reading a held key touches it. -/
theorem get_hit (hrecalls : Recalls f capacity store events)
    (hlookup : store.map.lookup key = some value) {event : MemoEvent}
    (htouched : event.touched = some key) (hcomputed : event.computed = []) :
    Recalls f capacity (store.get key).2 (events ++ [event]) where
  remembers := by
    obtain ⟨journal, hremembers, huses, hputs⟩ := hrecalls.remembers
    refine ⟨_, hremembers.get key, ?_, ?_⟩
    · simp [get_of_lookup_some hlookup, StoreEvent.used, huses, htouched]
    · simp only [List.forall_mem_append, List.forall_mem_singleton]
      exact ⟨hputs, by simp [StoreEvent.putValue]⟩
  mem_computations hcapacity k := by
    have hkey := hrecalls.mem_touches_of_lookup hlookup
    simp only [touches_concat, computations_concat, htouched, hcomputed, Option.toList_some,
      List.append_nil, List.mem_append, List.mem_singleton, hrecalls.mem_computations hcapacity k]
    constructor
    · exact Or.inl
    · rintro (hk | rfl)
      · exact hk
      · exact hkey

theorem get_miss (hrecalls : Recalls f capacity store events) (key : CacheKey) :
    Recalls f capacity store (events ++ [.get key none]) where
  remembers := by
    obtain ⟨journal, hremembers, huses, hputs⟩ := hrecalls.remembers
    exact ⟨journal, hremembers, by simp [MemoEvent.touched, huses], hputs⟩
  mem_computations hcapacity k := by
    simp [MemoEvent.touched, MemoEvent.computed, hrecalls.mem_computations hcapacity k]

theorem memoize_miss (hrecalls : Recalls f capacity store events) (key : CacheKey) :
    Recalls f capacity (store.put key (f key))
      (events ++ [.memoize key (f key) [key]]) where
  remembers := by
    obtain ⟨journal, hremembers, huses, hputs⟩ := hrecalls.remembers
    refine ⟨_, hremembers.put key (f key), ?_, ?_⟩
    · simp [StoreEvent.used, MemoEvent.touched, huses]
    · simp only [List.forall_mem_append, List.forall_mem_singleton]
      refine ⟨hputs, ?_⟩
      intro k v hput
      by_cases heq : key = k
      · subst heq
        simpa [StoreEvent.putValue, eq_comm] using hput
      · simp [StoreEvent.putValue, heq] at hput
  mem_computations hcapacity k := by
    simp [MemoEvent.touched, MemoEvent.computed, hrecalls.mem_computations hcapacity k]

theorem memoStep (hrecalls : Recalls f capacity store events) (call : MemoCall) :
    Recalls f capacity (store.memoStep f call).1 (events ++ [(store.memoStep f call).2]) := by
  cases call with
  | memoize key =>
      cases hlookup : store.map.lookup key with
      | none =>
          rw [memoStep_miss hlookup]
          exact hrecalls.memoize_miss key
      | some value =>
          rw [memoStep_hit hlookup]
          exact hrecalls.get_hit hlookup rfl rfl
  | get key =>
      cases hlookup : store.map.lookup key with
      | none =>
          simp only [MemStore.memoStep, get_of_lookup_none hlookup]
          exact hrecalls.get_miss key
      | some value =>
          have hget : (store.get key).1 = some value := by rw [get_of_lookup_some hlookup]
          simp only [MemStore.memoStep, hget]
          exact hrecalls.get_hit hlookup rfl rfl

theorem memoRun (f : CacheKey → Bytes) (capacity : Nat) (calls : List MemoCall) :
    Recalls f capacity ((MemStore.new capacity).memoRun f calls).1
      ((MemStore.new capacity).memoRun f calls).2 := by
  induction calls using List.reverseRecOn with
  | nil => exact Recalls.new f capacity
  | append_singleton calls call ih =>
      rw [memoRun_concat]
      exact ih.memoStep call

end Recalls

/-! ## Transparency -/

/-- What a call returns and computes, told by the calls before it: the value of
`f`, computed unless the key is among the most recently touched. -/
def Transparent (f : CacheKey → Bytes) (capacity : Nat) (before : List MemoEvent) :
    MemoEvent → Prop
  | .memoize key value computed =>
      value = f key ∧
      computed = (if key ∈ mostRecent capacity (touches before) then [] else [key]) ∧
      (capacity = 0 → (computed = [key] ↔ key ∉ computations before))
  | .get key found =>
      found = if key ∈ mostRecent capacity (touches before) then some (f key) else none

theorem Recalls.transparent {capacity : Nat} {events : List MemoEvent}
    (hrecalls : Recalls f capacity store events) (call : MemoCall) :
    Transparent f capacity events (store.memoStep f call).2 := by
  cases call with
  | memoize key =>
      have hlookup_eq : store.map.lookup key = _ := hrecalls.lookup_eq
      have hcomputations := fun hcapacity => hrecalls.mem_computations hcapacity key
      by_cases hkey : key ∈ mostRecent capacity (touches events)
      · rw [if_pos hkey] at hlookup_eq
        rw [memoStep_hit hlookup_eq]
        refine ⟨rfl, (if_pos hkey).symm, ?_⟩
        intro hcapacity
        simp [hcomputations hcapacity, mem_of_mem_mostRecent hkey]
      · rw [if_neg hkey] at hlookup_eq
        rw [memoStep_miss hlookup_eq]
        refine ⟨rfl, (if_neg hkey).symm, ?_⟩
        rintro rfl
        simpa [hcomputations rfl, mem_mostRecent_zero] using hkey
  | get key =>
      have hfound : (store.get key).1 = store.map.lookup key := by
        cases hlookup : store.map.lookup key with
        | none => rw [get_of_lookup_none hlookup]
        | some value => rw [get_of_lookup_some hlookup]
      change (store.get key).1 = _
      rw [hfound, hrecalls.lookup_eq]

/-- Every call of a run is transparent, after the calls before it. -/
theorem memoRun_transparent (f : CacheKey → Bytes) (capacity : Nat) (calls : List MemoCall)
    {before after : List MemoEvent} {event : MemoEvent}
    (hsplit : ((MemStore.new capacity).memoRun f calls).2 = before ++ event :: after) :
    Transparent f capacity before event := by
  induction calls using List.reverseRecOn generalizing after with
  | nil => simp [MemStore.memoRun] at hsplit
  | append_singleton calls call ih =>
      rw [memoRun_concat] at hsplit
      cases after using List.reverseRecOn with
      | nil =>
          obtain ⟨hbefore, hevent⟩ := List.append_inj' hsplit rfl
          rw [← hbefore, ← (List.cons.inj hevent).1]
          exact (Recalls.memoRun f capacity calls).transparent call
      | append_singleton rest last =>
          rw [← List.cons_append, ← List.append_assoc] at hsplit
          exact ih (List.append_inj' hsplit rfl).1

/-- Memoizing on one store is calling the function, with a computation only for a
key that is not among the `capacity` most recently touched. Lookups may
come in between, and any number of keys. -/
theorem memoize_transparent (f : CacheKey → Bytes) (capacity : Nat) (calls : List MemoCall) :
    ((MemStore.new capacity).memoRun f calls).2.map MemoEvent.call = calls ∧
      (∀ before event after,
        ((MemStore.new capacity).memoRun f calls).2 = before ++ event :: after →
          Transparent f capacity before event) ∧
      ∀ key, ((MemStore.new capacity).memoRun f calls).1.contains key ↔
        key ∈ mostRecent capacity (touches ((MemStore.new capacity).memoRun f calls).2) := by
  refine ⟨memoRun_calls _ calls, ?_, ?_⟩
  · intro before event after hsplit
    exact memoRun_transparent f capacity calls hsplit
  · intro key
    rw [contains_eq_true, (Recalls.memoRun f capacity calls).mem_map_iff]

end MemStore

end HabitatGraph
