import Mathlib.Data.List.Infix

/-! # Placeholders in a text

Every occurrence of a pattern is replaced, from the left and without looking again at what
was put in. A text that is clear of the pattern holds no occurrence and starts none that
could go on after it, so that occurrences are looked for in what follows only.
-/

namespace Placeholders

/-- Replace the pattern, after `skip` characters of an occurrence that are still to be
dropped. -/
def replaceFrom (pattern replacement : List Char) : Nat → List Char → List Char
  | _, [] => []
  | skip + 1, _ :: chars => replaceFrom pattern replacement skip chars
  | 0, ch :: chars =>
      if pattern.isPrefixOf (ch :: chars) then
        replacement ++ replaceFrom pattern replacement (pattern.length - 1) chars
      else ch :: replaceFrom pattern replacement 0 chars

def replaceAll (pattern replacement chars : List Char) : List Char :=
  replaceFrom pattern replacement 0 chars

example : replaceAll "aa".toList "aab".toList "caaad".toList = "caabad".toList := by decide

/-- No occurrence starts in the text, neither a whole one nor one that is cut off. -/
def isClear (pattern : List Char) : List Char → Bool
  | [] => true
  | ch :: chars =>
      !pattern.isPrefixOf (ch :: chars) && !(ch :: chars).isPrefixOf pattern &&
        isClear pattern chars

variable {pattern : List Char}

/-! ## Clear texts -/

theorem isClear_cons {ch : Char} {chars : List Char} :
    isClear pattern (ch :: chars) ↔
      (¬ pattern <+: ch :: chars ∧ ¬ ch :: chars <+: pattern) ∧ isClear pattern chars := by
  simp only [isClear, Bool.and_eq_true, Bool.not_eq_true', ← Bool.not_eq_true,
    List.isPrefixOf_iff_prefix]

/-- What follows a clear text completes no occurrence. -/
theorem not_prefix_append {ch : Char} {before : List Char}
    (hbefore : isClear pattern (ch :: before)) (chars : List Char) :
    ¬ pattern <+: ch :: (before ++ chars) := by
  intro hoccurs
  obtain ⟨⟨hwhole, hcut⟩, -⟩ := isClear_cons.mp hbefore
  cases List.prefix_or_prefix_of_prefix hoccurs (List.prefix_append (ch :: before) chars) with
  | inl h => exact hwhole h
  | inr h => exact hcut h

theorem isClear_append {before chars : List Char} (hbefore : isClear pattern before)
    (hchars : isClear pattern chars) : isClear pattern (before ++ chars) := by
  induction before with
  | nil => exact hchars
  | cons ch before ih =>
      obtain ⟨⟨-, hcut⟩, hrest⟩ := isClear_cons.mp hbefore
      refine isClear_cons.mpr ⟨⟨not_prefix_append hbefore chars, ?_⟩, ih hrest⟩
      intro h
      exact hcut ((List.prefix_append (ch :: before) chars).trans h)

/-- A text without the first character of the pattern. -/
theorem isClear_of_notMem {mark : Char} {rest chars : List Char} (h : mark ∉ chars) :
    isClear (mark :: rest) chars := by
  induction chars with
  | nil => rfl
  | cons ch chars ih =>
      rw [List.mem_cons, not_or] at h
      refine isClear_cons.mpr ⟨⟨?_, ?_⟩, ih h.2⟩
      · intro hoccurs
        exact h.1 (List.cons_prefix_cons.mp hoccurs).1
      · intro hcut
        exact h.1 (List.cons_prefix_cons.mp hcut).1.symm

/-- What is clear of the start of a pattern is clear of the pattern. -/
theorem isClear_of_start {start chars : List Char} (hstart : start <+: pattern)
    (h : isClear start chars) : isClear pattern chars := by
  induction chars with
  | nil => rfl
  | cons ch chars ih =>
      obtain ⟨⟨hwhole, hcut⟩, hrest⟩ := isClear_cons.mp h
      refine isClear_cons.mpr ⟨⟨fun hoccurs => hwhole (hstart.trans hoccurs), ?_⟩, ih hrest⟩
      intro hprefix
      cases List.prefix_or_prefix_of_prefix hprefix hstart with
      | inl h => exact hcut h
      | inr h => exact hwhole h

/-- An occurrence after a clear text lies in what follows it. -/
theorem exists_eq_append {before chars left right : List Char} (hbefore : isClear pattern before)
    (h : before ++ chars = left ++ (pattern ++ right)) :
    ∃ left', left = before ++ left' ∧ chars = left' ++ (pattern ++ right) := by
  induction before generalizing left with
  | nil => exact ⟨left, rfl, h⟩
  | cons ch before ih =>
      cases left with
      | nil =>
          have hoccurs : pattern <+: ch :: (before ++ chars) := ⟨right, h.symm⟩
          exact absurd hoccurs (not_prefix_append hbefore chars)
      | cons ch' left =>
          obtain ⟨rfl, htail⟩ := List.cons.inj h
          obtain ⟨left', rfl, hchars⟩ := ih (isClear_cons.mp hbefore).2 htail
          exact ⟨left', rfl, hchars⟩

/-- The one occurrence in a text. -/
theorem eq_of_occurs {mark : Char} {rest before after left right : List Char}
    (hpattern : pattern = mark :: rest) (hrest : mark ∉ rest) (hbefore : isClear pattern before)
    (hafter : isClear pattern after)
    (h : before ++ (pattern ++ after) = left ++ (pattern ++ right)) :
    left = before ∧ right = after := by
  obtain ⟨left', rfl, hchars⟩ := exists_eq_append hbefore h
  subst hpattern
  cases left' with
  | nil =>
      rw [List.nil_append] at hchars
      exact ⟨List.append_nil before, (List.append_cancel_left hchars).symm⟩
  | cons ch left' =>
      -- another occurrence would start within the rest of the first one or after it
      have hclear := isClear_append (isClear_of_notMem hrest) hafter
      have htail : (rest ++ after) ++ [] = left' ++ ((mark :: rest) ++ right) := by
        rw [List.append_nil]
        exact (List.cons.inj hchars).2
      obtain ⟨left'', -, hnil⟩ := exists_eq_append hclear htail
      cases left'' <;> cases hnil

/-! ## Replacing -/

variable (replacement : List Char)

theorem replaceFrom_length (dropped chars : List Char) :
    replaceFrom pattern replacement dropped.length (dropped ++ chars) =
      replaceAll pattern replacement chars := by
  induction dropped with
  | nil => rfl
  | cons ch dropped ih => exact ih

/-- An occurrence at the start is replaced. -/
theorem replaceAll_pattern (hpattern : pattern ≠ []) (chars : List Char) :
    replaceAll pattern replacement (pattern ++ chars) =
      replacement ++ replaceAll pattern replacement chars := by
  obtain ⟨ch, dropped, rfl⟩ := List.exists_cons_of_ne_nil hpattern
  have hoccurs : (ch :: dropped).isPrefixOf (ch :: (dropped ++ chars)) :=
    List.isPrefixOf_iff_prefix.mpr (List.prefix_append (ch :: dropped) chars)
  rw [replaceAll, List.cons_append, replaceFrom, if_pos hoccurs, List.length_cons,
    Nat.add_sub_cancel, replaceFrom_length]

theorem replaceAll_cons {ch : Char} {chars : List Char} (hnot : ¬ pattern <+: ch :: chars) :
    replaceAll pattern replacement (ch :: chars) =
      ch :: replaceAll pattern replacement chars := by
  rw [replaceAll, replaceFrom, if_neg fun h => hnot (List.isPrefixOf_iff_prefix.mp h)]
  rfl

/-- A clear text is kept, whatever comes after it. -/
theorem replaceAll_append {before : List Char} (hbefore : isClear pattern before)
    (chars : List Char) : replaceAll pattern replacement (before ++ chars) =
      before ++ replaceAll pattern replacement chars := by
  induction before with
  | nil => rfl
  | cons ch before ih =>
      rw [List.cons_append, replaceAll_cons replacement (not_prefix_append hbefore chars),
        ih (isClear_cons.mp hbefore).2]
      rfl

theorem replaceAll_eq_self {chars : List Char} (h : isClear pattern chars) :
    replaceAll pattern replacement chars = chars := by
  rw [← List.append_nil chars, replaceAll_append replacement h]
  rfl

/-- Every occurrence of one character is replaced. -/
theorem replaceAll_singleton (ch : Char) (chars : List Char) :
    replaceAll [ch] replacement chars =
      chars.flatMap fun c => if c = ch then replacement else [c] := by
  induction chars with
  | nil => rfl
  | cons c chars ih =>
      rw [List.flatMap_cons, ← ih]
      split
      next h =>
        subst h
        exact replaceAll_pattern replacement (List.cons_ne_nil c []) chars
      next h =>
        have hnot : ¬ [ch] <+: c :: chars := by
          intro hoccurs
          exact h (List.cons_prefix_cons.mp hoccurs).1.symm
        exact replaceAll_cons replacement hnot

end Placeholders
