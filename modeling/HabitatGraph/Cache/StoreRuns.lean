import HabitatGraph.Cache.Cas

/-! # Runs of an LRU store

A run applies calls to a new store and journals what each one saw: the value a
`get` found, the keys a `put` drove out. Everything the store holds is a function
of that journal.
-/

namespace HabitatGraph

open Recency

/-- A call of the store's interface. -/
inductive StoreCall where
  | put (key : CacheKey) (value : Bytes)
  | get (key : CacheKey)
  | contains (key : CacheKey)
  deriving DecidableEq

/-- A call with its outcome. -/
inductive StoreEvent where
  | put (key : CacheKey) (value : Bytes) (evicted : List CacheKey)
  | get (key : CacheKey) (found : Option Bytes)
  | contains (key : CacheKey) (present : Bool)
  deriving DecidableEq

namespace StoreEvent

def call : StoreEvent → StoreCall
  | put key value _ => .put key value
  | get key _ => .get key
  | contains key _ => .contains key

/-- The entry a call used: the one it wrote or found. -/
def used : StoreEvent → Option CacheKey
  | put key _ _ => some key
  | get key (some _) => some key
  | get _ none => none
  | contains _ _ => none

/-- The value a call put under a key. -/
def putValue (key : CacheKey) : StoreEvent → Option Bytes
  | put key' value _ => if key' = key then some value else none
  | get _ _ => none
  | contains _ _ => none

def evicted : StoreEvent → List CacheKey
  | put _ _ evicted => evicted
  | get _ _ => []
  | contains _ _ => []

end StoreEvent

/-- The outcomes of the calls made so far, oldest first. -/
abbrev Journal := List StoreEvent

namespace Journal

/-- The keys used, oldest first. -/
def uses (journal : Journal) : List CacheKey := journal.filterMap StoreEvent.used

/-- When a key was last used, counted in uses. -/
def lastUse (journal : Journal) (key : CacheKey) : Nat := lastTouch journal.uses key

/-- The value of the latest put of a key. -/
def latestPut (journal : Journal) (key : CacheKey) : Option Bytes :=
  (journal.filterMap (StoreEvent.putValue key)).getLast?

/-- Whether a key was evicted after its latest put. -/
def evictedSince (journal : Journal) (key : CacheKey) : Bool :=
  journal.foldl (fun gone event =>
    if key ∈ event.evicted then true
    else if (event.putValue key).isSome then false
    else gone) false

@[simp] theorem uses_concat (journal : Journal) (event : StoreEvent) :
    uses (journal ++ [event]) = uses journal ++ event.used.toList := by
  cases hused : event.used <;> simp [uses, List.filterMap_append, hused]

@[simp] theorem latestPut_concat (journal : Journal) (event : StoreEvent) (key : CacheKey) :
    latestPut (journal ++ [event]) key = (event.putValue key).or (latestPut journal key) := by
  cases hput : event.putValue key <;> simp [latestPut, List.filterMap_append, hput]

@[simp] theorem evictedSince_concat (journal : Journal) (event : StoreEvent) (key : CacheKey) :
    evictedSince (journal ++ [event]) key =
      if key ∈ event.evicted then true
      else if (event.putValue key).isSome then false
      else evictedSince journal key := by
  simp [evictedSince]

end Journal

namespace MemStore

variable {P : Type} [RetentionPolicy P] [Exhaustible P]

/-- The keys held once a value is in and gone when `put` returns. -/
def evictedBy (store : MemStore P) (key : CacheKey) (value : Bytes) : List CacheKey :=
  (store.map.insert key value).keys.filter fun k => !(store.put key value).contains k

/-- Make a call and record its outcome. -/
def step (store : MemStore P) : StoreCall → MemStore P × StoreEvent
  | .put key value => (store.put key value, .put key value (store.evictedBy key value))
  | .get key => ((store.get key).2, .get key (store.get key).1)
  | .contains key => (store, .contains key (store.contains key))

/-- Make the calls in order. -/
def run (store : MemStore P) : List StoreCall → MemStore P × Journal
  | [] => (store, [])
  | call :: calls =>
      let (next, event) := store.step call
      let (last, journal) := next.run calls
      (last, event :: journal)

theorem run_concat (store : MemStore P) (calls : List StoreCall) (call : StoreCall) :
    store.run (calls ++ [call]) =
      (((store.run calls).1.step call).1,
        (store.run calls).2 ++ [((store.run calls).1.step call).2]) := by
  induction calls generalizing store with
  | nil => simp [run]
  | cons first rest ih => simp [run, ih]

/-- A journal tells the calls it records. -/
theorem run_calls (store : MemStore P) (calls : List StoreCall) :
    (store.run calls).2.map StoreEvent.call = calls := by
  induction calls generalizing store with
  | nil => rfl
  | cons call calls ih =>
      have hcall : (store.step call).2.call = call := by cases call <;> rfl
      simp [run, ih, hcall]

end MemStore

/-! ## The queue and the map -/

namespace MemStore

variable {store : MemStore Lru}

@[simp] theorem contains_eq_true {P : Type} {store : MemStore P} {key : CacheKey} :
    store.contains key = true ↔ key ∈ store.map := AList.lookup_isSome

/-- The store with a value in, before anything is evicted. -/
def withEntry (store : MemStore Lru) (key : CacheKey) (value : Bytes) : MemStore Lru :=
  { store with map := store.map.insert key value, policy := store.policy.touch key }

/-- The queue enumerates the keys of the map. -/
structure Synced (store : MemStore Lru) : Prop where
  nodup : store.policy.order.Nodup
  mem_order : ∀ key, key ∈ store.policy.order ↔ key ∈ store.map

namespace Synced

theorem length_order (hsynced : store.Synced) : store.policy.order.length = store.len := by
  have hperm : store.policy.order.Perm store.map.keys :=
    (List.perm_ext_iff_of_nodup hsynced.nodup store.map.keys_nodup).mpr hsynced.mem_order
  exact hperm.length_eq

theorem withEntry (hsynced : store.Synced) (key : CacheKey) (value : Bytes) :
    (store.withEntry key value).Synced where
  nodup := nodup_touch hsynced.nodup key
  mem_order k := by
    rw [MemStore.withEntry, Lru.touch_order, mem_touch, AList.mem_insert, hsynced.mem_order,
      or_comm]

theorem touch (hsynced : store.Synced) {key : CacheKey} (hkey : key ∈ store.map) :
    Synced { store with policy := store.policy.touch key } where
  nodup := nodup_touch hsynced.nodup key
  mem_order k := by
    rw [Lru.touch_order, mem_touch, hsynced.mem_order, or_iff_left_iff_imp]
    intro heq
    rw [heq]
    exact hkey

end Synced

/-! ## What a put does -/

theorem put_eq (store : MemStore Lru) (key : CacheKey) (value : Bytes) :
    store.put key value =
      if 0 < store.capacity then
        evictOver (touch store.policy.order key).length (store.withEntry key value)
      else store.withEntry key value := rfl

theorem evictOver_of_le {fuel : Nat} (hlen : store.len ≤ store.capacity) :
    evictOver fuel store = store := by
  cases fuel with
  | zero => rfl
  | succ fuel => rw [evictOver, if_neg (by omega)]

theorem evictOver_of_one_over {fuel : Nat} {victim : CacheKey} {rest : List CacheKey}
    (hsynced : store.Synced) (horder : store.policy.order = victim :: rest)
    (hlen : store.len = store.capacity + 1) :
    evictOver (fuel + 1) store =
      { store with map := store.map.erase victim, policy := ⟨rest⟩ } := by
  have hcandidate : RetentionPolicy.evictCandidate store.policy = some victim := by
    change store.policy.order.head? = some victim
    rw [horder, List.head?_cons]
  have hremove : RetentionPolicy.noteRemove store.policy victim = ⟨rest⟩ := by
    change (⟨store.policy.order.erase victim⟩ : Lru) = ⟨rest⟩
    rw [horder, List.erase_cons_head]
  rw [evictOver, if_pos (by omega), hcandidate]
  dsimp only
  rw [hremove]
  apply evictOver_of_le
  have hmem : victim ∈ store.map.keys := by
    rw [← AList.mem_keys, ← hsynced.mem_order, horder]
    exact List.mem_cons_self
  have hlength := List.length_erase_of_mem hmem
  simp only [len, AList.keys_erase] at hlen ⊢
  omega

/-- Writing a key that is held, or below the capacity, evicts nothing. -/
theorem put_of_room (hsynced : store.Synced) {key : CacheKey} (value : Bytes)
    (hroom : 0 < store.capacity → key ∈ store.policy.order ∧ store.len ≤ store.capacity ∨
      store.len < store.capacity) :
    store.put key value = store.withEntry key value := by
  rw [put_eq]
  split
  next hcapacity =>
    apply evictOver_of_le
    have hlength : (store.withEntry key value).len = (touch store.policy.order key).length :=
      (hsynced.withEntry key value).length_order.symm
    change (store.withEntry key value).len ≤ store.capacity
    have horder := hsynced.length_order
    rw [hlength]
    rcases hroom hcapacity with ⟨hmem, hle⟩ | hlt
    · rw [length_touch_of_mem hmem]
      omega
    · by_cases hmem : key ∈ store.policy.order
      · rw [length_touch_of_mem hmem]
        omega
      · rw [touch_of_notMem hmem, List.length_append, List.length_singleton]
        omega
  next => rfl

/-- Writing a new key at the capacity evicts the front of the queue. -/
theorem put_of_full (hsynced : store.Synced) {key victim : CacheKey} (value : Bytes)
    {rest : List CacheKey} (hkey : key ∉ store.policy.order)
    (horder : store.policy.order = victim :: rest) (hfull : store.len = store.capacity) :
    store.put key value =
      { store with
        map := (store.map.insert key value).erase victim
        policy := ⟨rest ++ [key]⟩ } := by
  have hlength := hsynced.length_order
  have hcapacity : 0 < store.capacity := by
    rw [horder, List.length_cons] at hlength
    omega
  have htouch : touch store.policy.order key = victim :: (rest ++ [key]) := by
    rw [touch_of_notMem hkey, horder, List.cons_append]
  have hlen : (store.withEntry key value).len = store.capacity + 1 := by
    have hentry := (hsynced.withEntry key value).length_order
    change (touch store.policy.order key).length = (store.withEntry key value).len at hentry
    rw [touch_of_notMem hkey, List.length_append, List.length_singleton] at hentry
    omega
  rw [put_eq, if_pos hcapacity, htouch, List.length_cons,
    evictOver_of_one_over (hsynced.withEntry key value) htouch hlen]
  rfl

/-! ## What a store remembers of its journal -/

/-- The queue is the last of the recency list of the journal, and the map holds
the latest puts that were not evicted. -/
structure Remembers (store : MemStore Lru) (capacity : Nat) (journal : Journal) : Prop where
  capacity_eq : store.capacity = capacity
  order_eq : store.policy.order = mostRecent capacity journal.uses
  mem_order : ∀ key, key ∈ store.policy.order ↔ key ∈ store.map
  lookup_eq : ∀ key, store.map.lookup key =
    if journal.evictedSince key then none else journal.latestPut key

namespace Remembers

variable {capacity : Nat} {journal : Journal}

theorem new (capacity : Nat) : (new capacity).Remembers capacity [] where
  capacity_eq := rfl
  order_eq := by simp [MemStore.new, withPolicy, Lru.new, Journal.uses, mostRecent, List.rtake]
  mem_order key := by simp [MemStore.new, withPolicy, Lru.new]
  lookup_eq key := by simp [MemStore.new, withPolicy, Journal.latestPut]

theorem synced (hremembers : store.Remembers capacity journal) : store.Synced where
  nodup := by
    rw [hremembers.order_eq]
    exact nodup_mostRecent capacity journal.uses
  mem_order := hremembers.mem_order

theorem len_le (hremembers : store.Remembers capacity journal) (hcapacity : 0 < capacity) :
    store.len ≤ capacity := by
  rw [← hremembers.synced.length_order, hremembers.order_eq]
  exact length_mostRecent_le hcapacity journal.uses

/-- A read of a held key moves it to the back of the queue. -/
theorem get_hit (hremembers : store.Remembers capacity journal) {key : CacheKey} {value : Bytes}
    (hvalue : store.map.lookup key = some value) :
    MemStore.Remembers { store with policy := store.policy.touch key } capacity
      (journal ++ [.get key (some value)]) := by
  have hmap : key ∈ store.map := AList.lookup_isSome.mp (by simp [hvalue])
  have horder : key ∈ mostRecent capacity journal.uses := by
    rw [← hremembers.order_eq, hremembers.mem_order]
    exact hmap
  constructor
  · exact hremembers.capacity_eq
  · simp [StoreEvent.used, mostRecent_concat_of_mem horder, hremembers.order_eq]
  · exact (hremembers.synced.touch hmap).mem_order
  · intro k
    simp [StoreEvent.putValue, StoreEvent.evicted, hremembers.lookup_eq k]

/-- A call that neither used nor wrote an entry leaves no trace. -/
theorem unused (hremembers : store.Remembers capacity journal) {event : StoreEvent}
    (hused : event.used = none) (hput : ∀ key, event.putValue key = none)
    (hevicted : event.evicted = []) : store.Remembers capacity (journal ++ [event]) where
  capacity_eq := hremembers.capacity_eq
  order_eq := by simp [hused, hremembers.order_eq]
  mem_order := hremembers.mem_order
  lookup_eq key := by simp [hput, hevicted, hremembers.lookup_eq key]

theorem put_room (hremembers : store.Remembers capacity journal) (key : CacheKey)
    (value : Bytes) (hroom : 0 < capacity → key ∈ store.policy.order ∨ store.len < capacity) :
    store.put key value = store.withEntry key value :=
  put_of_room hremembers.synced value fun hcapacity => by
    rw [hremembers.capacity_eq] at hcapacity ⊢
    have hle := hremembers.len_le hcapacity
    exact (hroom hcapacity).imp (fun hmem => ⟨hmem, hle⟩) id

theorem evictedBy_room (hremembers : store.Remembers capacity journal) (key : CacheKey)
    (value : Bytes) (hroom : 0 < capacity → key ∈ store.policy.order ∨ store.len < capacity) :
    store.evictedBy key value = [] := by
  rw [evictedBy, hremembers.put_room key value hroom, List.filter_eq_nil_iff]
  intro k hk
  rw [← AList.mem_keys] at hk
  simpa [withEntry] using hk

theorem put_room_remembers (hremembers : store.Remembers capacity journal) (key : CacheKey)
    (value : Bytes) (hroom : 0 < capacity → key ∈ store.policy.order ∨ store.len < capacity) :
    (store.put key value).Remembers capacity
      (journal ++ [.put key value (store.evictedBy key value)]) := by
  have hsynced := hremembers.synced
  have hlength := hsynced.length_order
  rw [hremembers.put_room key value hroom, hremembers.evictedBy_room key value hroom]
  constructor
  · exact hremembers.capacity_eq
  · rw [Journal.uses_concat]
    change touch store.policy.order key = mostRecent capacity (journal.uses ++ [key])
    rw [hremembers.order_eq] at hroom hlength ⊢
    by_cases hmem : key ∈ mostRecent capacity journal.uses
    · rw [mostRecent_concat_of_mem hmem]
    · rw [touch_of_notMem hmem, mostRecent_concat_of_room hmem]
      intro hcapacity
      have hlt := (hroom hcapacity).resolve_left hmem
      omega
  · exact (hsynced.withEntry key value).mem_order
  · intro k
    by_cases heq : key = k
    · subst heq
      simp [StoreEvent.putValue, StoreEvent.evicted, withEntry]
    · simp [StoreEvent.putValue, StoreEvent.evicted, withEntry, heq,
        AList.lookup_insert_ne (Ne.symm heq), hremembers.lookup_eq k]

/-- At the capacity the front of the queue is another key. -/
theorem exists_victim (hremembers : store.Remembers capacity journal) {key : CacheKey}
    (hcapacity : 0 < capacity) (hkey : key ∉ store.policy.order) (hfull : store.len = capacity) :
    ∃ victim rest, store.policy.order = victim :: rest ∧ victim ≠ key := by
  have hlength := hremembers.synced.length_order
  cases horder : store.policy.order with
  | nil =>
      rw [horder, List.length_nil] at hlength
      omega
  | cons victim rest =>
      refine ⟨victim, rest, rfl, ?_⟩
      rintro rfl
      exact hkey (by simp [horder])

theorem mem_evictedBy_full (hremembers : store.Remembers capacity journal)
    {key victim : CacheKey} (value : Bytes) {rest : List CacheKey}
    (hkey : key ∉ store.policy.order) (horder : store.policy.order = victim :: rest)
    (hfull : store.len = capacity) (k : CacheKey) :
    k ∈ store.evictedBy key value ↔ k = victim := by
  have hvictim : victim ∈ store.map := by
    rw [← hremembers.mem_order, horder]
    exact List.mem_cons_self
  rw [evictedBy, put_of_full hremembers.synced value hkey horder
    (hfull.trans hremembers.capacity_eq.symm), List.mem_filter, ← AList.mem_keys]
  simp only [Bool.not_eq_true', ← Bool.not_eq_true, contains_eq_true, AList.mem_erase,
    AList.mem_insert]
  constructor
  · intro ⟨hheld, hgone⟩
    by_contra hne
    exact hgone ⟨hne, hheld⟩
  · rintro rfl
    exact ⟨Or.inr hvictim, fun h => h.1 rfl⟩

theorem put_full_remembers (hremembers : store.Remembers capacity journal) {key : CacheKey}
    (value : Bytes) (hcapacity : 0 < capacity) (hkey : key ∉ store.policy.order)
    (hfull : store.len = capacity) :
    (store.put key value).Remembers capacity
      (journal ++ [.put key value (store.evictedBy key value)]) := by
  obtain ⟨victim, rest, horder, hne⟩ := hremembers.exists_victim hcapacity hkey hfull
  have hevicted := hremembers.mem_evictedBy_full value hkey horder hfull
  have hnodup := hremembers.synced.nodup
  rw [horder, List.nodup_cons] at hnodup
  rw [put_of_full hremembers.synced value hkey horder (hfull.trans hremembers.capacity_eq.symm)]
  constructor
  · exact hremembers.capacity_eq
  · have hlength : (mostRecent capacity journal.uses).length = capacity := by
      rw [← hremembers.order_eq, hremembers.synced.length_order, hfull]
    rw [hremembers.order_eq] at hkey
    rw [Journal.uses_concat]
    change rest ++ [key] = mostRecent capacity (journal.uses ++ [key])
    rw [mostRecent_concat_of_full hkey hcapacity hlength, ← hremembers.order_eq, horder,
      List.tail_cons]
  · intro k
    have hmem := hremembers.mem_order k
    rw [horder, List.mem_cons] at hmem
    rw [AList.mem_erase, AList.mem_insert, ← hmem, List.mem_append, List.mem_singleton]
    by_cases hk : k = victim
    · subst hk
      simp [hnodup.1, hne]
    · simp [hk, or_comm]
  · intro k
    by_cases hk : k = victim
    · subst hk
      simp [StoreEvent.evicted, hevicted]
    · by_cases heq : key = k
      · subst heq
        simp [StoreEvent.putValue, StoreEvent.evicted, hevicted, hk,
          AList.lookup_erase_ne hk]
      · simp [StoreEvent.putValue, StoreEvent.evicted, hevicted, hk, heq,
          AList.lookup_erase_ne hk, AList.lookup_insert_ne (Ne.symm heq), hremembers.lookup_eq k]

/-- Either a put has room, or it writes a new key at the capacity. -/
theorem room_or_full (hremembers : store.Remembers capacity journal) (key : CacheKey) :
    (0 < capacity → key ∈ store.policy.order ∨ store.len < capacity) ∨
      (0 < capacity ∧ key ∉ store.policy.order ∧ store.len = capacity) := by
  by_cases hcapacity : 0 < capacity
  · have hle := hremembers.len_le hcapacity
    by_cases hkey : key ∈ store.policy.order
    · exact Or.inl fun _ => Or.inl hkey
    · by_cases hlt : store.len < capacity
      · exact Or.inl fun _ => Or.inr hlt
      · exact Or.inr ⟨hcapacity, hkey, by omega⟩
  · exact Or.inl fun h => absurd h hcapacity

theorem put (hremembers : store.Remembers capacity journal) (key : CacheKey) (value : Bytes) :
    (store.put key value).Remembers capacity
      (journal ++ [.put key value (store.evictedBy key value)]) := by
  rcases hremembers.room_or_full key with hroom | ⟨hcapacity, hkey, hfull⟩
  · exact hremembers.put_room_remembers key value hroom
  · exact hremembers.put_full_remembers value hcapacity hkey hfull

theorem get (hremembers : store.Remembers capacity journal) (key : CacheKey) :
    (store.get key).2.Remembers capacity (journal ++ [.get key (store.get key).1]) := by
  cases hvalue : store.map.lookup key with
  | none =>
      simp only [MemStore.get, hvalue, Option.isSome_none, Bool.false_eq_true, if_false]
      exact hremembers.unused rfl (fun _ => rfl) rfl
  | some value =>
      simp only [MemStore.get, hvalue, Option.isSome_some, if_true]
      exact hremembers.get_hit hvalue

/-- Each call keeps the store in step with its journal. -/
theorem step (hremembers : store.Remembers capacity journal) (call : StoreCall) :
    (store.step call).1.Remembers capacity (journal ++ [(store.step call).2]) := by
  cases call with
  | put key value => exact hremembers.put key value
  | get key => exact hremembers.get key
  | contains key => exact hremembers.unused rfl (fun _ => rfl) rfl

theorem run (capacity : Nat) (calls : List StoreCall) :
    ((MemStore.new capacity).run calls).1.Remembers capacity
      ((MemStore.new capacity).run calls).2 := by
  induction calls using List.reverseRecOn with
  | nil => exact Remembers.new capacity
  | append_singleton calls call ih =>
      rw [run_concat]
      exact ih.step call

theorem order_sorted (hremembers : store.Remembers capacity journal) :
    store.policy.order.Pairwise fun a b => journal.lastUse a < journal.lastUse b := by
  rw [hremembers.order_eq]
  exact mostRecent_pairwise_lastTouch capacity journal.uses

/-- What a put evicts is the key that has gone unused for longest. -/
theorem evicted_least_recent (hremembers : store.Remembers capacity journal) {key victim : CacheKey}
    {value : Bytes} (hvictim : victim ∈ store.evictedBy key value) :
    victim ≠ key ∧ victim ∈ store.map ∧
      ∀ other ∈ store.map, other ≠ victim → journal.lastUse victim < journal.lastUse other := by
  rcases hremembers.room_or_full key with hroom | ⟨hcapacity, hkey, hfull⟩
  · simp [hremembers.evictedBy_room key value hroom] at hvictim
  · obtain ⟨front, rest, horder, hne⟩ := hremembers.exists_victim hcapacity hkey hfull
    rw [hremembers.mem_evictedBy_full value hkey horder hfull] at hvictim
    subst hvictim
    have hsorted := hremembers.order_sorted
    rw [horder, List.pairwise_cons] at hsorted
    have hmem := hremembers.mem_order
    simp only [horder, List.mem_cons] at hmem
    refine ⟨hne, (hmem victim).mp (Or.inl rfl), ?_⟩
    intro other hother hother_ne
    exact hsorted.1 other (((hmem other).mpr hother).resolve_left hother_ne)

theorem get_eq (hremembers : store.Remembers capacity journal) (key : CacheKey) :
    (store.get key).1 = if journal.evictedSince key then none else journal.latestPut key := by
  rw [← hremembers.lookup_eq key, MemStore.get]
  cases store.map.lookup key with
  | none => rfl
  | some value => rfl

end Remembers

/-- What holds of an LRU store after any calls, told by their journal. -/
structure LruLaws (capacity : Nat) (store : MemStore Lru) (journal : Journal) : Prop where
  order_nodup : store.policy.order.Nodup
  mem_order : ∀ key, key ∈ store.policy.order ↔ store.contains key
  order_sorted : store.policy.order.Pairwise fun a b => journal.lastUse a < journal.lastUse b
  len_le : 0 < capacity → store.len ≤ capacity
  evicts_least_recent : ∀ key value, ∀ victim ∈ store.evictedBy key value,
    victim ≠ key ∧ store.contains victim ∧ ∀ other, store.contains other → other ≠ victim →
      journal.lastUse victim < journal.lastUse other
  get_eq : ∀ key, (store.get key).1 =
    if journal.evictedSince key then none else journal.latestPut key

/-- Every sequence of calls on a new store keeps the laws of the LRU store, and is what
the journal records. A capacity of zero stands for no bound, and keys may be put again
or asked for in vain. -/
theorem run_lruLaws (capacity : Nat) (calls : List StoreCall) :
    ((MemStore.new capacity).run calls).2.map StoreEvent.call = calls ∧
      LruLaws capacity ((MemStore.new capacity).run calls).1
        ((MemStore.new capacity).run calls).2 := by
  have hremembers := Remembers.run capacity calls
  refine ⟨run_calls _ calls, ?_⟩
  constructor
  · exact hremembers.synced.nodup
  · simpa using hremembers.mem_order
  · exact hremembers.order_sorted
  · exact hremembers.len_le
  · intro key value victim hvictim
    simpa using hremembers.evicted_least_recent hvictim
  · exact hremembers.get_eq

end MemStore

end HabitatGraph
