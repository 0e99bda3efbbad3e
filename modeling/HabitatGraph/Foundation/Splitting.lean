import Mathlib.Data.List.Basic

/-! # Splitting a list around what occurs in it

The first occurrence of a pattern and the last one of an element, each with what stands
before and after it.
-/

namespace Splitting

variable {α : Type*} [DecidableEq α]

/-- What follows a given start. -/
def dropStart? (start xs : List α) : Option (List α) :=
  if start.isPrefixOf xs then some (xs.drop start.length) else none

/-- What stands before and after the first occurrence of a pattern. -/
def splitOnce? (pattern : List α) : List α → Option (List α × List α)
  | [] => if pattern.isEmpty then some ([], []) else none
  | x :: xs =>
      if pattern.isPrefixOf (x :: xs) then some ([], (x :: xs).drop pattern.length)
      else (splitOnce? pattern xs).map fun parts => (x :: parts.1, parts.2)

/-- What stands before and after the last occurrence of an element. -/
def splitLast? (a : α) : List α → Option (List α × List α)
  | [] => none
  | x :: xs =>
      match splitLast? a xs with
      | some (before, after) => some (x :: before, after)
      | none => if x = a then some ([], xs) else none

variable {a : α} {xs before after : List α}

theorem dropStart?_eq_some_iff {start rest : List α} :
    dropStart? start xs = some rest ↔ xs = start ++ rest := by
  rw [dropStart?, Option.ite_none_right_eq_some, Option.some.injEq, List.isPrefixOf_iff_prefix]
  apply Iff.intro
  · intro ⟨⟨other, hother⟩, hdrop⟩
    rw [← hother, List.drop_left] at hdrop
    rw [← hother, hdrop]
  · intro heq
    rw [heq, List.drop_left]
    exact ⟨List.prefix_append start rest, rfl⟩

theorem append_eq_of_splitOnce? {pattern : List α} {parts : List α × List α}
    (h : splitOnce? pattern xs = some parts) : parts.1 ++ pattern ++ parts.2 = xs := by
  induction xs generalizing parts with
  | nil =>
      rw [splitOnce?] at h
      split at h
      next hempty =>
        cases h
        rw [List.isEmpty_iff.mp hempty]
        rfl
      next => cases h
  | cons x xs ih =>
      rw [splitOnce?] at h
      split at h
      next hpattern =>
        cases h
        obtain ⟨rest, hrest⟩ := List.isPrefixOf_iff_prefix.mp hpattern
        rw [List.nil_append, ← hrest, List.drop_left]
      next =>
        rw [Option.map_eq_some_iff] at h
        obtain ⟨rest, hrest, rfl⟩ := h
        rw [List.cons_append, List.cons_append, ih hrest]

/-- A pattern is found where its first element occurs first. -/
theorem splitOnce?_append {pattern : List α} (hbefore : a ∉ before) :
    splitOnce? (a :: pattern) (before ++ (a :: pattern) ++ after) = some (before, after) := by
  induction before with
  | nil =>
      have hstart : (a :: pattern).isPrefixOf (a :: (pattern ++ after)) = true :=
        List.isPrefixOf_iff_prefix.mpr (List.prefix_append (a :: pattern) after)
      rw [List.nil_append, List.cons_append, splitOnce?, if_pos hstart, ← List.cons_append,
        List.drop_left]
  | cons x before ih =>
      rw [List.mem_cons, not_or] at hbefore
      have hstart : ¬ (a :: pattern).isPrefixOf (x :: (before ++ (a :: pattern) ++ after)) := by
        intro h
        exact hbefore.1 (List.cons_prefix_cons.mp (List.isPrefixOf_iff_prefix.mp h)).1
      rw [List.cons_append, List.cons_append, splitOnce?, if_neg hstart, ih hbefore.2]
      rfl

theorem splitOnce?_singleton_eq_some_iff :
    splitOnce? [a] xs = some (before, after) ↔ xs = before ++ a :: after ∧ a ∉ before := by
  apply Iff.intro
  · intro h
    have heq := append_eq_of_splitOnce? h
    rw [List.append_assoc, List.singleton_append] at heq
    have hmem : a ∈ xs := by
      rw [← heq]
      exact List.mem_append_right _ List.mem_cons_self
    obtain ⟨first, rest, hxs, hfirst⟩ := List.eq_append_cons_of_mem hmem
    have hsplit : splitOnce? [a] (first ++ [a] ++ rest) = some (first, rest) :=
      splitOnce?_append hfirst
    rw [List.append_assoc, List.singleton_append, ← hxs, h] at hsplit
    cases hsplit
    exact ⟨hxs, hfirst⟩
  · intro ⟨hxs, hbefore⟩
    rw [hxs, List.append_cons]
    exact splitOnce?_append hbefore

theorem splitLast?_eq_none_iff : splitLast? a xs = none ↔ a ∉ xs := by
  induction xs with
  | nil => simp [splitLast?]
  | cons x xs ih =>
      rw [splitLast?, List.mem_cons, not_or, ← ih]
      cases splitLast? a xs with
      | none => simp [eq_comm]
      | some parts => simp

theorem splitLast?_eq_some_iff :
    splitLast? a xs = some (before, after) ↔ xs = before ++ a :: after ∧ a ∉ after := by
  induction xs generalizing before with
  | nil => simp [splitLast?]
  | cons x xs ih =>
      rw [splitLast?]
      cases hxs : splitLast? a xs with
      | none =>
          have hnotMem := splitLast?_eq_none_iff.mp hxs
          cases before with
          | nil =>
              simp only [Option.ite_none_right_eq_some, Option.some.injEq, Prod.mk.injEq, true_and,
                List.nil_append, List.cons.injEq, and_assoc]
              refine and_congr_right fun _ => Iff.intro ?_ And.left
              intro hafter
              exact ⟨hafter, hafter ▸ hnotMem⟩
          | cons y before =>
              simp only [Option.ite_none_right_eq_some, Option.some.injEq, Prod.mk.injEq,
                reduceCtorEq, false_and, and_false, List.cons_append, List.cons.injEq, false_iff]
              intro ⟨⟨_, heq⟩, _⟩
              rw [heq] at hnotMem
              exact hnotMem (List.mem_append_right _ List.mem_cons_self)
      | some parts =>
          cases before with
          | nil =>
              simp only [Option.some.injEq, Prod.mk.injEq, reduceCtorEq, false_and, List.nil_append,
                List.cons.injEq, false_iff]
              intro ⟨⟨_, heq⟩, hnotMem⟩
              rw [← heq, ← splitLast?_eq_none_iff, hxs] at hnotMem
              cases hnotMem
          | cons y before =>
              rw [List.cons_append, List.cons.injEq, and_assoc, ← ih, hxs]
              simp only [Option.some.injEq, Prod.ext_iff, List.cons.injEq, and_assoc]

end Splitting
