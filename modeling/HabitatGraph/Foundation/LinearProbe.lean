import Mathlib.Data.Fintype.Card
import Mathlib.Data.List.Nodup
import Mathlib.Logic.Function.Iterate

/-! # Open addressing by linear probing

A key takes its home slot, or the first free slot met by stepping on from it.
`assign` places the keys of a list one after the other. Nothing is assumed of
the home function: different keys may share a home.
-/

namespace LinearProbe

variable {α κ : Type*} [DecidableEq α] (next : α → α)

/-- The first free slot from `slot` on, trying at most `fuel` slots. -/
def probe (used : List α) : Nat → α → Option α
  | 0, _ => none
  | fuel + 1, slot => if slot ∈ used then probe used fuel (next slot) else some slot

/-- Place the keys in order, each in a slot of its own. -/
def assign (fuel : Nat) (home : κ → α) : List α → List κ → Option (List α)
  | _, [] => some []
  | used, k :: ks =>
      (probe next used fuel (home k)).bind fun slot =>
        (assign fuel home (slot :: used) ks).map (slot :: ·)

/-- From every slot, fewer than `fuel` steps reach every slot. -/
def Reaches (fuel : Nat) : Prop := ∀ s t : α, ∃ n < fuel, next^[n] s = t

variable {next}

theorem probe_home {used : List α} {fuel : Nat} {slot : α} (hfuel : 0 < fuel) (h : slot ∉ used) :
    probe next used fuel slot = some slot := by
  cases fuel with
  | zero => cases hfuel
  | succ fuel => exact if_neg h

theorem probe_notMem {used : List α} {fuel : Nat} {slot found : α}
    (h : probe next used fuel slot = some found) : found ∉ used := by
  induction fuel generalizing slot with
  | zero => cases h
  | succ fuel ih =>
      unfold probe at h
      split at h
      next => exact ih h
      next hfree =>
        cases h
        exact hfree

/-- The slot found is the first free one on the way. -/
theorem probe_eq_some_iff {used : List α} {fuel : Nat} {slot found : α} :
    probe next used fuel slot = some found ↔
      ∃ n < fuel, next^[n] slot = found ∧ found ∉ used ∧ ∀ j < n, next^[j] slot ∈ used := by
  induction fuel generalizing slot with
  | zero => simp [probe]
  | succ fuel ih =>
      unfold probe
      split
      next hused =>
        rw [ih]
        constructor
        · intro ⟨n, hn, hfound, hfree, hway⟩
          refine ⟨n + 1, by omega, hfound, hfree, fun j hj => ?_⟩
          cases j with
          | zero => exact hused
          | succ j => exact hway j (by omega)
        · intro ⟨n, hn, hfound, hfree, hway⟩
          cases n with
          | zero =>
              subst hfound
              exact absurd hused hfree
          | succ n =>
              exact ⟨n, by omega, hfound, hfree, fun j hj => hway (j + 1) (by omega)⟩
      next hfree =>
        rw [Option.some.injEq]
        constructor
        · intro heq
          subst heq
          exact ⟨0, by omega, rfl, hfree, fun j hj => absurd hj (Nat.not_lt_zero j)⟩
        · rintro ⟨n, hn, hfound, -, hway⟩
          cases n with
          | zero => exact hfound
          | succ n => exact absurd (hway 0 (by omega)) hfree

theorem probe_eq_none {used : List α} {fuel : Nat} {slot : α}
    (h : probe next used fuel slot = none) : ∀ n < fuel, next^[n] slot ∈ used := by
  induction fuel generalizing slot with
  | zero => intro n hn; omega
  | succ fuel ih =>
      unfold probe at h
      split at h
      next hused =>
        intro n hn
        cases n with
        | zero => exact hused
        | succ n => exact ih h n (by omega)
      next => cases h

theorem probe_eq_none_of_forall_mem {used : List α} (h : ∀ t, t ∈ used) (fuel : Nat) (slot : α) :
    probe next used fuel slot = none := by
  induction fuel generalizing slot with
  | zero => rfl
  | succ fuel ih =>
      unfold probe
      rw [if_pos (h slot)]
      exact ih (next slot)

/-- Probing fails only when every slot is taken. -/
theorem probe_eq_none_iff {used : List α} {fuel : Nat} (hreach : Reaches next fuel) (slot : α) :
    probe next used fuel slot = none ↔ ∀ t, t ∈ used := by
  constructor
  · intro h t
    obtain ⟨n, hn, rfl⟩ := hreach slot t
    exact probe_eq_none h n hn
  · intro h
    exact probe_eq_none_of_forall_mem h fuel slot

theorem assign_cons_eq_some {fuel : Nat} {home : κ → α} {used : List α} {k : κ} {ks : List κ}
    {slots : List α} (h : assign next fuel home used (k :: ks) = some slots) :
    ∃ slot rest, probe next used fuel (home k) = some slot ∧
      assign next fuel home (slot :: used) ks = some rest ∧ slots = slot :: rest := by
  unfold assign at h
  obtain ⟨slot, hslot, htail⟩ := Option.bind_eq_some_iff.mp h
  obtain ⟨rest, hrest, hslots⟩ := Option.map_eq_some_iff.mp htail
  exact ⟨slot, rest, hslot, hrest, hslots.symm⟩

theorem assign_cons_eq_some_iff {fuel : Nat} {home : κ → α} {used : List α} {k : κ} {ks : List κ}
    {slot : α} {slots : List α} :
    assign next fuel home used (k :: ks) = some (slot :: slots) ↔
      probe next used fuel (home k) = some slot ∧
        assign next fuel home (slot :: used) ks = some slots := by
  constructor
  · intro h
    obtain ⟨slot', rest, hslot, hrest, heq⟩ := assign_cons_eq_some h
    obtain ⟨rfl, rfl⟩ := List.cons.inj heq
    exact ⟨hslot, hrest⟩
  · intro ⟨hslot, hrest⟩
    unfold assign
    rw [hslot, Option.bind_some, hrest]
    rfl

theorem assign_map {ι : Type*} {fuel : Nat} {home : κ → α} (f : ι → κ) (used : List α)
    (xs : List ι) :
    assign next fuel home used (xs.map f) = assign next fuel (fun x => home (f x)) used xs := by
  induction xs generalizing used with
  | nil => rfl
  | cons x xs ih =>
      rw [List.map_cons]
      unfold assign
      simp only [ih]

theorem assign_length {fuel : Nat} {home : κ → α} {used : List α} {ks : List κ} {slots : List α}
    (h : assign next fuel home used ks = some slots) : slots.length = ks.length := by
  induction ks generalizing used slots with
  | nil => cases h; rfl
  | cons k ks ih =>
      obtain ⟨slot, rest, -, hrest, rfl⟩ := assign_cons_eq_some h
      simp [ih hrest]

/-- Keys with distinct free homes all get their homes. -/
theorem assign_eq_map_home {fuel : Nat} (hfuel : 0 < fuel) {home : κ → α} {used : List α}
    {ks : List κ} (hnodup : (ks.map home).Nodup) (hfree : ∀ k ∈ ks, home k ∉ used) :
    assign next fuel home used ks = some (ks.map home) := by
  induction ks generalizing used with
  | nil => rfl
  | cons k ks ih =>
      obtain ⟨hk, hks⟩ := List.nodup_cons.mp hnodup
      have hrest : assign next fuel home (home k :: used) ks = some (ks.map home) := by
        refine ih hks fun j hj hmem => ?_
        rcases List.mem_cons.mp hmem with heq | hmem
        · exact hk (heq ▸ List.mem_map_of_mem hj)
        · exact hfree j (List.mem_cons_of_mem k hj) hmem
      unfold assign
      rw [probe_home hfuel (hfree k List.mem_cons_self), Option.bind_some, hrest]
      rfl

/-- Every key finds a slot exactly when there are slots enough. -/
theorem assign_isSome_iff [Fintype α] {fuel : Nat} (hreach : Reaches next fuel) (home : κ → α)
    {used : List α} (hused : used.Nodup) (ks : List κ) :
    (assign next fuel home used ks).isSome ↔
      ks = [] ∨ used.length + ks.length ≤ Fintype.card α := by
  induction ks generalizing used with
  | nil => simp [assign]
  | cons k ks ih =>
      cases hprobe : probe next used fuel (home k) with
      | none =>
          -- a key that finds no slot meets only taken ones, which are all there are
          have hfull : used.toFinset = Finset.univ := Finset.eq_univ_iff_forall.mpr fun t =>
            List.mem_toFinset.mpr ((probe_eq_none_iff hreach (home k)).mp hprobe t)
          have hcard : used.length = Fintype.card α := by
            rw [← List.toFinset_card_of_nodup hused, hfull, Finset.card_univ]
          simp [assign, hprobe, hcard]
      | some slot =>
          have hslot : (slot :: used).Nodup := List.nodup_cons.mpr ⟨probe_notMem hprobe, hused⟩
          have hroom : (slot :: used).length ≤ Fintype.card α := hslot.length_le_card
          simp only [assign, hprobe, Option.bind_some, Option.isSome_map, ih hslot,
            List.length_cons, reduceCtorEq, false_or] at hroom ⊢
          constructor
          · rintro (rfl | h)
            · simpa using hroom
            · omega
          · intro h
            exact Or.inr (by omega)

end LinearProbe
