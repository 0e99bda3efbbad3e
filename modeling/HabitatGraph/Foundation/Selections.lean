import Mathlib.Data.List.Basic

/-! # Selections from a list

Two partial maps select from one list. Where one is part of the other, element by
element, the selections are equal only if the maps are. The first element that one
test accepts is compared with the first that a narrower one does.
-/

namespace Selections

variable {α β : Type*}

theorem filterMap_sublist_of_le {f g : α → Option β} {xs : List α}
    (hle : ∀ x ∈ xs, ∀ y, f x = some y → g x = some y) :
    (xs.filterMap f).Sublist (xs.filterMap g) := by
  induction xs with
  | nil => exact List.Sublist.refl _
  | cons x xs ih =>
      rw [List.forall_mem_cons] at hle
      cases hf : f x with
      | some y =>
          rw [List.filterMap_cons_some hf, List.filterMap_cons_some (hle.1 y hf)]
          exact (ih hle.2).cons_cons y
      | none =>
          rw [List.filterMap_cons_none hf]
          cases hg : g x with
          | none =>
              rw [List.filterMap_cons_none hg]
              exact ih hle.2
          | some y =>
              rw [List.filterMap_cons_some hg]
              exact (ih hle.2).cons y

/-- A selection that is part of another one, element by element, is equal to it only
if it selects the same everywhere. -/
theorem filterMap_eq_filterMap_iff {f g : α → Option β} {xs : List α}
    (hle : ∀ x ∈ xs, ∀ y, f x = some y → g x = some y) :
    xs.filterMap f = xs.filterMap g ↔ ∀ x ∈ xs, f x = g x := by
  induction xs with
  | nil => simp
  | cons x xs ih =>
      rw [List.forall_mem_cons] at hle
      rw [List.forall_mem_cons, ← ih hle.2]
      cases hf : f x with
      | some y =>
          rw [List.filterMap_cons_some hf, List.filterMap_cons_some (hle.1 y hf), hle.1 y hf]
          simp
      | none =>
          rw [List.filterMap_cons_none hf]
          cases hg : g x with
          | none => simp [List.filterMap_cons_none hg]
          | some y =>
              rw [List.filterMap_cons_some hg]
              have hlength := (filterMap_sublist_of_le hle.2).length_le
              simp only [reduceCtorEq, false_and, iff_false]
              intro heq
              rw [heq, List.length_cons] at hlength
              omega

section First

variable {p : α → Bool} {h : α → Option β}

theorem findSome?_of_find?_bind (xs : List α) {y : β} (hy : (xs.find? p).bind h = some y)
    (hp : ∀ x, (h x).isSome → p x) : xs.findSome? h = some y := by
  induction xs with
  | nil => cases hy
  | cons x xs ih =>
      rw [List.findSome?_cons]
      cases hpx : p x with
      | true =>
          rw [List.find?_cons_of_pos hpx] at hy
          rw [show h x = some y from hy]
      | false =>
          rw [List.find?_cons_of_neg (by simp [hpx])] at hy
          cases hx : h x with
          | none => exact ih hy
          | some z => exact absurd (hp x (by rw [hx]; rfl)) (by simp [hpx])

/-- The first element with `p` is the first one that `h` answers for, if `h` answers at
all, exactly when none with `p` comes before that one. -/
theorem find?_bind_eq_findSome?_iff (xs : List α) (hp : ∀ x, (h x).isSome → p x) :
    (xs.find? p).bind h = xs.findSome? h ↔
      ((xs.findSome? h).isSome → ∀ x ∈ xs.takeWhile fun x => (h x).isNone, ¬ p x) := by
  induction xs with
  | nil => simp
  | cons x xs ih =>
      rw [List.findSome?_cons]
      cases hx : h x with
      | some y =>
          rw [List.find?_cons_of_pos (hp x (by rw [hx]; rfl)),
            List.takeWhile_cons_of_neg (by simp [hx])]
          simp [hx]
      | none =>
          rw [List.takeWhile_cons_of_pos (by simp [hx])]
          cases hpx : p x with
          | true =>
              rw [List.find?_cons_of_pos hpx]
              cases xs.findSome? h <;> simp [hx, hpx]
          | false =>
              rw [List.find?_cons_of_neg (by simp [hpx])]
              simpa [hpx] using ih

end First

end Selections
