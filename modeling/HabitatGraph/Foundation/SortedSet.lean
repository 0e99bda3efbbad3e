import HabitatGraph.Foundation.SortedList

/-! # Sorted sets

A set that is iterated in ascending order: a strictly sorted list. Two sets with the same
elements are the same, and what is left of a set or shared with another is counted by the
lengths of the lists.
-/

/-- A finite set as the strictly sorted list of its elements. -/
structure SortedSet (α : Type*) [LinearOrder α] where
  toList : List α
  sorted : toList.Pairwise (· < ·)

namespace SortedSet

variable {α β : Type*} [LinearOrder α] [LinearOrder β]

instance : Membership α (SortedSet α) := ⟨fun s a => a ∈ s.toList⟩

theorem mem_toList {s : SortedSet α} {a : α} : a ∈ s.toList ↔ a ∈ s := Iff.rfl

def contains (s : SortedSet α) (a : α) : Bool := s.toList.contains a

@[simp] theorem contains_iff {s : SortedSet α} {a : α} : s.contains a = true ↔ a ∈ s :=
  List.contains_iff_mem

@[ext] theorem ext {s t : SortedSet α} (h : ∀ a, a ∈ s ↔ a ∈ t) : s = t := by
  have hlist : s.toList = t.toList := SortedList.eq_of_mem_iff s.sorted t.sorted h
  cases s
  cases t
  cases hlist
  rfl

/-- The elements of a list. -/
def ofList (xs : List α) : SortedSet α :=
  ⟨SortedList.sortDedup xs, SortedList.pairwise_sortDedup xs⟩

@[simp] theorem mem_ofList {xs : List α} {a : α} : a ∈ ofList xs ↔ a ∈ xs :=
  SortedList.mem_sortDedup

/-- The elements with a property. -/
def filter (p : α → Bool) (s : SortedSet α) : SortedSet α := ⟨s.toList.filter p, s.sorted.filter p⟩

@[simp] theorem mem_filter {p : α → Bool} {s : SortedSet α} {a : α} :
    a ∈ s.filter p ↔ a ∈ s ∧ p a = true := List.mem_filter

/-- The elements that another set lacks. -/
def difference (s t : SortedSet α) : SortedSet α := s.filter fun a => !t.contains a

/-- The elements that another set has too. -/
def intersection (s t : SortedSet α) : SortedSet α := s.filter t.contains

@[simp] theorem mem_difference {s t : SortedSet α} {a : α} :
    a ∈ s.difference t ↔ a ∈ s ∧ a ∉ t := by
  rw [difference, mem_filter, Bool.not_eq_true', ← Bool.not_eq_true, contains_iff]

@[simp] theorem mem_intersection {s t : SortedSet α} {a : α} :
    a ∈ s.intersection t ↔ a ∈ s ∧ a ∈ t := by
  rw [intersection, mem_filter, contains_iff]

theorem intersection_comm (s t : SortedSet α) : s.intersection t = t.intersection s := by
  ext a
  rw [mem_intersection, mem_intersection, and_comm]

/-- The image of a set. -/
def map (f : α → β) (s : SortedSet α) : SortedSet β := ofList (s.toList.map f)

@[simp] theorem mem_map {f : α → β} {s : SortedSet α} {b : β} :
    b ∈ s.map f ↔ ∃ a ∈ s, f a = b := by
  rw [map, mem_ofList, List.mem_map]
  rfl

/-- How many elements there are. -/
def card (s : SortedSet α) : ℕ := s.toList.length

/-- Each element of a set is shared with another or is lacking there. -/
theorem card_intersection_add_difference (s t : SortedSet α) :
    (s.intersection t).card + (s.difference t).card = s.card := by
  unfold card intersection difference filter
  exact (List.length_eq_length_filter_add t.contains).symm

theorem card_le_of_subset {s t : SortedSet α} (h : ∀ a, a ∈ s → a ∈ t) : s.card ≤ t.card :=
  (List.subperm_of_subset (s.sorted.imp ne_of_lt) fun a ha => h a ha).length_le

end SortedSet
