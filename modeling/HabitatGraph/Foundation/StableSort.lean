import Mathlib.Data.List.Sort
import Mathlib.Order.Basic

/-! # Stable sorting by a key

`sortByKey` puts a list in ascending key order and keeps elements of one key in
their given order. A sorted list is determined by its elements of each key in
order, which makes sorting early or late indifferent.
-/

namespace StableSort

variable {α β κ : Type*} [LinearOrder κ] (key : α → κ)

/-- Ascending key order, ties in input order. -/
def sortByKey (xs : List α) : List α := xs.insertionSort (fun x y => key x ≤ key y)

variable {key}

instance total_key : Std.Total (fun x y : α => key x ≤ key y) :=
  ⟨fun x y => le_total (key x) (key y)⟩

instance isTrans_key : IsTrans α (fun x y : α => key x ≤ key y) := ⟨fun _ _ _ => le_trans⟩

theorem sortByKey_perm (xs : List α) : (sortByKey key xs).Perm xs :=
  List.perm_insertionSort _ xs

@[simp] theorem mem_sortByKey {xs : List α} {x : α} : x ∈ sortByKey key xs ↔ x ∈ xs :=
  (sortByKey_perm xs).mem_iff

theorem pairwise_sortByKey (xs : List α) :
    (sortByKey key xs).Pairwise (fun x y => key x ≤ key y) :=
  List.pairwise_insertionSort _ xs

theorem sortByKey_eq_self {xs : List α} (h : xs.Pairwise (fun x y => key x ≤ key y)) :
    sortByKey key xs = xs := h.insertionSort_eq

theorem sortByKey_map {key' : β → κ} (f : α → β) (hf : ∀ x, key' (f x) = key x) (xs : List α) :
    sortByKey key' (xs.map f) = (sortByKey key xs).map f := by
  refine (List.map_insertionSort _ _ f xs fun x _ y _ => ?_).symm
  rw [hf, hf]

/-- A list whose keys sorting does not move is sorted. -/
theorem pairwise_of_map_sortByKey {xs : List α} (h : (sortByKey key xs).map key = xs.map key) :
    xs.Pairwise (fun x y => key x ≤ key y) := by
  rw [← List.pairwise_map (R := (· ≤ ·)), ← h, List.pairwise_map]
  exact pairwise_sortByKey xs

/-- Stability: a selection of elements of one key comes out in input order. -/
theorem filter_sortByKey {p : α → Bool} (xs : List α)
    (hp : ∀ x ∈ xs, ∀ y ∈ xs, p x → p y → key x = key y) :
    (sortByKey key xs).filter p = xs.filter p := by
  have hsorted : (xs.filter p).Pairwise (fun x y => key x ≤ key y) := by
    refine List.pairwise_of_forall_mem_list fun x hx y hy => ?_
    obtain ⟨hx, hpx⟩ := List.mem_filter.mp hx
    obtain ⟨hy, hpy⟩ := List.mem_filter.mp hy
    exact (hp x hx y hy hpx hpy).le
  have hsub : (xs.filter p).Sublist (sortByKey key xs) :=
    List.sublist_insertionSort hsorted List.filter_sublist
  have hfilter : (xs.filter p).Sublist ((sortByKey key xs).filter p) := by
    have h := hsub.filter p
    rwa [List.filter_filter, funext fun x => Bool.and_self (p x)] at h
  exact (hfilter.eq_of_length ((sortByKey_perm xs).filter p).length_eq.symm).symm

/-- A search that looks at one key finds the same element before and after sorting. -/
theorem find?_sortByKey {p : α → Bool} (xs : List α)
    (hp : ∀ x ∈ xs, ∀ y ∈ xs, p x → p y → key x = key y) :
    (sortByKey key xs).find? p = xs.find? p := by
  rw [← List.head?_filter, filter_sortByKey xs hp, List.head?_filter]

/-- Sorted lists that agree on the elements of each key are equal. -/
theorem eq_of_pairwise_of_filter_eq {xs ys : List α}
    (hxs : xs.Pairwise (fun x y => key x ≤ key y)) (hys : ys.Pairwise (fun x y => key x ≤ key y))
    (h : ∀ k, xs.filter (fun x => key x = k) = ys.filter (fun x => key x = k)) : xs = ys := by
  have hmem : ∀ x, x ∈ xs ↔ x ∈ ys := fun x => by
    have hx := congrArg (x ∈ ·) (h (key x))
    simpa using hx
  induction xs generalizing ys with
  | nil =>
      exact (List.eq_nil_iff_forall_not_mem.mpr fun y hy => by simpa using (hmem y).mpr hy).symm
  | cons x xs ih =>
      cases ys with
      | nil => exact absurd ((hmem x).mp List.mem_cons_self) List.not_mem_nil
      | cons y ys =>
          obtain ⟨hx, hxsTail⟩ := List.pairwise_cons.mp hxs
          obtain ⟨hy, hysTail⟩ := List.pairwise_cons.mp hys
          -- each head occurs in the other list, so neither key is above the other
          have hxy : key x ≤ key y := by
            rcases List.mem_cons.mp ((hmem y).mpr List.mem_cons_self) with rfl | hmem
            · exact le_rfl
            · exact hx y hmem
          have hyx : key y ≤ key x := by
            rcases List.mem_cons.mp ((hmem x).mp List.mem_cons_self) with rfl | hmem
            · exact le_rfl
            · exact hy x hmem
          have hkey : key y = key x := le_antisymm hyx hxy
          have hhead := h (key x)
          simp only [List.filter_cons, hkey, decide_true, ↓reduceIte, List.cons.injEq] at hhead
          obtain ⟨rfl, hhead⟩ := hhead
          have htail : ∀ k, xs.filter (fun z => key z = k) = ys.filter (fun z => key z = k) := by
            intro k
            have hk := h k
            by_cases hxk : key x = k
            · simpa [List.filter_cons, hxk] using hk
            · simpa [List.filter_cons, hxk] using hk
          refine congrArg (x :: ·) (ih hxsTail hysTail htail fun z => ?_)
          have hz := congrArg (z ∈ ·) (htail (key z))
          simpa using hz

theorem filter_key_sortByKey (xs : List α) (k : κ) :
    (sortByKey key xs).filter (fun x => key x = k) = xs.filter (fun x => key x = k) := by
  apply filter_sortByKey
  intro x _ y _ hx hy
  exact (of_decide_eq_true hx).trans (of_decide_eq_true hy).symm

/-- Selecting from the sorted elements is sorting the selected ones. -/
theorem filter_sortByKey_comm (p : α → Bool) (xs : List α) :
    (sortByKey key xs).filter p = sortByKey key (xs.filter p) := by
  apply eq_of_pairwise_of_filter_eq ((pairwise_sortByKey xs).filter p) (pairwise_sortByKey _)
  intro k
  rw [filter_key_sortByKey, List.filter_comm, filter_key_sortByKey, List.filter_comm]

theorem sortByKey_append_sortByKey (xs ys : List α) :
    sortByKey key (sortByKey key xs ++ ys) = sortByKey key (xs ++ ys) := by
  apply eq_of_pairwise_of_filter_eq (pairwise_sortByKey _) (pairwise_sortByKey _)
  intro k
  simp only [List.filter_append, filter_key_sortByKey]

theorem sortByKey_append_sortByKey_right (xs ys : List α) :
    sortByKey key (xs ++ sortByKey key ys) = sortByKey key (xs ++ ys) := by
  apply eq_of_pairwise_of_filter_eq (pairwise_sortByKey _) (pairwise_sortByKey _)
  intro k
  simp only [List.filter_append, filter_key_sortByKey]

omit [LinearOrder κ] in
/-- Ascending order over distinct keys is strict. -/
theorem pairwise_lt_of_nodup [PartialOrder κ] {xs : List α}
    (h : xs.Pairwise (fun x y => key x ≤ key y)) (hnodup : (xs.map key).Nodup) :
    xs.Pairwise (fun x y => key x < key y) := by
  have hne : xs.Pairwise (fun x y => key x ≠ key y) := List.pairwise_map.mp hnodup
  exact (h.and hne).imp fun hxy => lt_of_le_of_ne hxy.1 hxy.2

/-- Strictly sorted lists with the same elements are equal. -/
theorem eq_of_pairwise_lt_of_mem_iff {xs ys : List α}
    (hxs : xs.Pairwise (fun x y => key x < key y)) (hys : ys.Pairwise (fun x y => key x < key y))
    (h : ∀ x, x ∈ xs ↔ x ∈ ys) : xs = ys := by
  have : Std.Irrefl (fun x y : α => key x < key y) := ⟨fun x => lt_irrefl (key x)⟩
  have : Std.Antisymm (fun x y : α => key x < key y) :=
    ⟨fun x y hxy hyx => absurd hxy (lt_asymm hyx)⟩
  exact List.Pairwise.eq_of_mem_iff hxs hys h

/-- A key that tells the elements apart leaves nothing of their order. -/
theorem sortByKey_eq_of_perm {xs ys : List α} (hperm : xs.Perm ys)
    (hkey : ∀ x ∈ xs, ∀ y ∈ xs, key x = key y → x = y) : sortByKey key xs = sortByKey key ys := by
  have hsorted : (sortByKey key xs).Perm (sortByKey key ys) :=
    (sortByKey_perm xs).trans (hperm.trans (sortByKey_perm ys).symm)
  refine hsorted.eq_of_pairwise ?_ (pairwise_sortByKey xs) (pairwise_sortByKey ys)
  intro x y hx hy hxy hyx
  have hy' := hsorted.mem_iff.mpr hy
  rw [mem_sortByKey] at hx hy'
  exact hkey x hx y hy' (le_antisymm hxy hyx)

end StableSort
