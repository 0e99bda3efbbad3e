import HabitatGraph.Foundation.Recency
import HabitatGraph.Cache.Key

/-! # Retention policies

A policy hears of every access, insertion and removal and names the next entry to
evict. Least-recently-used retention keeps the keys in a queue whose front is the
eviction candidate.
-/

namespace HabitatGraph

/-- Decides which cached entry to evict when the store is over capacity. -/
class RetentionPolicy (P : Type) where
  noteAccess : P → CacheKey → P
  noteInsert : P → CacheKey → P
  noteRemove : P → CacheKey → P
  evictCandidate : P → Option CacheKey

/-- A policy that runs out of candidates when each one it names is removed, so
that a loop which evicts them ends. -/
class Exhaustible (P : Type) [RetentionPolicy P] where
  candidates : P → Nat
  candidates_noteRemove_lt {policy : P} {victim : CacheKey} :
    RetentionPolicy.evictCandidate policy = some victim →
      candidates (RetentionPolicy.noteRemove policy victim) < candidates policy

/-- Least-recently-used retention. The front of the queue is the eviction candidate. -/
structure Lru where
  order : List CacheKey
  deriving DecidableEq

namespace Lru

def new : Lru := ⟨[]⟩

/-- Move a key to the back of the queue. -/
def touch (lru : Lru) (key : CacheKey) : Lru := ⟨Recency.touch lru.order key⟩

@[simp] theorem touch_order (lru : Lru) (key : CacheKey) :
    (lru.touch key).order = Recency.touch lru.order key := rfl

instance : RetentionPolicy Lru where
  noteAccess := touch
  noteInsert := touch
  noteRemove lru key := ⟨lru.order.erase key⟩
  evictCandidate lru := lru.order.head?

instance : Exhaustible Lru where
  candidates lru := lru.order.length
  candidates_noteRemove_lt {lru victim} hvictim := by
    have hmem : victim ∈ lru.order := List.mem_of_mem_head? hvictim
    have hpos := List.length_pos_of_mem hmem
    change (lru.order.erase victim).length < lru.order.length
    rw [List.length_erase_of_mem hmem]
    omega

end Lru

end HabitatGraph
