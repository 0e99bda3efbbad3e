import HabitatGraph.Foundation.Splitting
import Mathlib.Data.List.Forall2

/-! # Links in double brackets

A text read for links of the form `[[target]]`: the target is what stands between the
opening brackets and the first closing ones after them on the line. The reader is a state
machine over characters, so that the links of a text follow from those of its parts.
-/

namespace WikiLinks

open Splitting

def openMark : List Char := ['[', '[']

def closeMark : List Char := [']', ']']

/-- What the reader is inside of: nothing, an opening mark, a target, a closing mark. -/
inductive Mode
  | outside
  | opening
  | inside (target : List Char)
  | closing (target : List Char)
deriving DecidableEq, Repr

/-- Read one character: the target it completes, and what the reader is inside of then. -/
def step : Mode → Char → Option (List Char) × Mode
  | .outside, ch => (none, if ch = '[' then .opening else .outside)
  | .opening, ch => (none, if ch = '[' then .inside [] else .outside)
  | .inside target, ch =>
      (none, if ch = ']' then .closing target
        else if ch = '\n' then .outside else .inside (target ++ [ch]))
  | .closing target, ch =>
      if ch = ']' then (some target, .outside)
      else (none, if ch = '\n' then .outside else .inside (target ++ [']', ch]))

/-- Read a text: the targets it completes, and what the reader is inside of at its end. -/
def run : Mode → List Char → List (List Char) × Mode
  | mode, [] => ([], mode)
  | mode, ch :: chars =>
      ((step mode ch).1.toList ++ (run (step mode ch).2 chars).1, (run (step mode ch).2 chars).2)

/-- The targets of the links of a text. -/
def links (chars : List Char) : List (List Char) := (run .outside chars).1

example : links "a [[b]] [c] [[d e]]".toList = ["b".toList, "d e".toList] := by decide

/-- A link stands in the text, on whatever lines. -/
def HasLink (chars : List Char) : Prop :=
  ∃ before target after, chars = before ++ openMark ++ target ++ closeMark ++ after

theorem run_append (mode : Mode) (chars chars' : List Char) :
    run mode (chars ++ chars') =
      ((run mode chars).1 ++ (run (run mode chars).2 chars').1,
        (run (run mode chars).2 chars').2) := by
  induction chars generalizing mode with
  | nil => rfl
  | cons ch chars ih => rw [List.cons_append, run, ih, run, List.append_assoc]

theorem step_newline (mode : Mode) : step mode '\n' = (none, .outside) := by
  cases mode <;> rfl

/-- Links do not reach over the end of a line. -/
theorem links_line (line chars : List Char) :
    links (line ++ '\n' :: chars) = links line ++ links chars := by
  rw [links, run_append, run, step_newline]
  rfl

theorem links_lines (lines : List (List Char)) :
    links (lines.flatMap fun line => line ++ ['\n']) = lines.flatMap links := by
  induction lines with
  | nil => rfl
  | cons line lines ih =>
      rw [List.flatMap_cons, List.append_assoc, List.singleton_append, links_line, ih,
        List.flatMap_cons]

/-! ## Text around links -/

theorem run_of_notMem_open {chars : List Char} (hopen : '[' ∉ chars) :
    run .outside chars = ([], .outside) := by
  induction chars with
  | nil => rfl
  | cons ch chars ih =>
      rw [List.mem_cons, not_or] at hopen
      obtain ⟨hch, hchars⟩ := hopen
      rw [run, step, if_neg (Ne.symm hch), ih hchars]
      rfl

theorem run_of_notMem_close {chars : List Char} (hclose : ']' ∉ chars) (mode : Mode) :
    (run mode chars).1 = [] := by
  induction chars generalizing mode with
  | nil => rfl
  | cons ch chars ih =>
      rw [List.mem_cons, not_or] at hclose
      obtain ⟨hch, hchars⟩ := hclose
      have hstep : (step mode ch).1 = none := by
        cases mode with
        | closing target => rw [step, if_neg (Ne.symm hch)]
        | outside | opening | inside => rfl
      rw [run, hstep, ih hchars]
      rfl

theorem links_of_notMem_open {chars : List Char} (hopen : '[' ∉ chars) : links chars = [] := by
  rw [links, run_of_notMem_open hopen]

/-- Text without brackets around a text adds no link. -/
theorem links_between {before after : List Char} (hbefore : '[' ∉ before) (hafter : ']' ∉ after)
    (chars : List Char) : links (before ++ chars ++ after) = links chars := by
  rw [links, run_append, run_of_notMem_close hafter, List.append_nil, run_append,
    run_of_notMem_open hbefore, List.nil_append, links]

/-! ## The first link -/

theorem splitOnce?_close (chars : List Char) :
    splitOnce? closeMark (']' :: ']' :: chars) = some ([], chars) := by
  simp [splitOnce?, closeMark]

theorem splitOnce?_cons {ch : Char} {chars : List Char}
    (hnot : ¬ closeMark <+: ch :: chars) :
    splitOnce? closeMark (ch :: chars) =
      (splitOnce? closeMark chars).map fun parts => (ch :: parts.1, parts.2) := by
  rw [splitOnce?]
  exact if_neg fun h => hnot (List.isPrefixOf_iff_prefix.mp h)

/-- Inside of a target, the first closing mark ends it. -/
theorem run_inside (target : List Char) {chars : List Char} (hline : '\n' ∉ chars) :
    (run (.inside target) chars).1 =
      ((splitOnce? closeMark chars).map fun parts =>
        (target ++ parts.1) :: links parts.2).getD [] := by
  induction chars generalizing target with
  | nil => rfl
  | cons ch chars ih =>
      rw [List.mem_cons, not_or] at hline
      obtain ⟨hch, hchars⟩ := hline
      by_cases hclose : ch = ']'
      · subst hclose
        cases chars with
        | nil => rfl
        | cons ch' chars =>
            by_cases hclose' : ch' = ']'
            · subst hclose'
              rw [splitOnce?_close, Option.map_some, Option.getD_some, List.append_nil]
              rfl
            · have hnot : ¬ closeMark <+: ']' :: ch' :: chars := by
                simp [closeMark, Ne.symm hclose']
              -- the bracket read before is the last letter of the target now
              have hstep : run (.inside target) (']' :: ch' :: chars) =
                  run (.inside (target ++ [']'])) (ch' :: chars) := by
                have hch' : '\n' ≠ ch' := fun h => hchars (h ▸ List.mem_cons_self)
                simp [run, step, hclose', Ne.symm hch']
              rw [hstep, ih _ hchars, splitOnce?_cons hnot, Option.map_map]
              simp [Function.comp_def]
      · have hnot : ¬ closeMark <+: ch :: chars := by simp [closeMark, Ne.symm hclose]
        have hstep : run (.inside target) (ch :: chars) =
            run (.inside (target ++ [ch])) chars := by
          simp [run, step, hclose, Ne.symm hch]
        rw [hstep, ih _ hchars, splitOnce?_cons hnot, Option.map_map]
        simp [Function.comp_def]

/-- The text after the first opening mark is a target up to the first closing mark. -/
theorem links_open {before chars : List Char} (hbefore : '[' ∉ before) (hline : '\n' ∉ chars) :
    links (before ++ openMark ++ chars) =
      ((splitOnce? closeMark chars).map fun parts => parts.1 :: links parts.2).getD [] := by
  have hinside : run .outside (before ++ openMark) = ([], .inside []) := by
    rw [run_append, run_of_notMem_open hbefore]
    rfl
  rw [links, run_append, hinside, run_inside [] hline]
  rfl

theorem splitOnce?_isSome {before after : List Char} :
    (splitOnce? closeMark (before ++ closeMark ++ after)).isSome := by
  induction before with
  | nil => rw [List.nil_append]; exact Option.isSome_of_eq_some (splitOnce?_close after)
  | cons ch before ih =>
      rw [List.cons_append, List.cons_append, splitOnce?]
      split
      next => rfl
      next => rw [Option.isSome_map, ih]

theorem run_openMark (mode : Mode) : ∃ target, (run mode openMark).2 = .inside target := by
  cases mode with
  | outside => exact ⟨_, rfl⟩
  | opening => exact ⟨_, rfl⟩
  | inside target => exact ⟨_, rfl⟩
  | closing target => exact ⟨_, rfl⟩

theorem HasLink.cons {ch : Char} {chars : List Char} (h : HasLink chars) :
    HasLink (ch :: chars) := by
  obtain ⟨before, target, after, rfl⟩ := h
  exact ⟨ch :: before, target, after, rfl⟩

/-- What completes a link has its opening mark, read before or in the text. -/
theorem hasLink_of_run {chars : List Char} (hline : '\n' ∉ chars) :
    ((run .outside chars).1 ≠ [] → HasLink chars) ∧
      ((run .opening chars).1 ≠ [] → HasLink ('[' :: chars)) := by
  induction chars with
  | nil => exact ⟨fun h => absurd rfl h, fun h => absurd rfl h⟩
  | cons ch chars ih =>
      rw [List.mem_cons, not_or] at hline
      obtain ⟨houtside, hopening⟩ := ih hline.2
      constructor
      · intro hrun
        by_cases hopen : ch = '['
        · subst hopen
          exact hopening hrun
        · simp only [run, step, if_neg hopen] at hrun
          exact (houtside hrun).cons
      · intro hrun
        by_cases hopen : ch = '['
        · subst hopen
          have hinside : (run (.inside []) chars).1 ≠ [] := hrun
          rw [run_inside [] hline.2] at hinside
          cases hsplit : splitOnce? closeMark chars with
          | none => rw [hsplit] at hinside; exact absurd rfl hinside
          | some parts =>
              refine ⟨[], parts.1, parts.2, ?_⟩
              rw [List.append_assoc, List.append_assoc, ← List.append_assoc parts.1,
                append_eq_of_splitOnce? hsplit]
              rfl
        · simp only [run, step, if_neg hopen] at hrun
          exact (houtside hrun).cons.cons

/-- On one line, links are found exactly where one stands. -/
theorem links_eq_nil_iff {chars : List Char} (hline : '\n' ∉ chars) :
    links chars = [] ↔ ¬ HasLink chars := by
  constructor
  · intro hlinks ⟨before, target, after, hchars⟩
    -- whatever is read before, an opening mark leaves the reader inside of a target
    obtain ⟨target', hmode⟩ := run_openMark (run .outside before).2
    have hrest : '\n' ∉ target ++ closeMark ++ after := by
      intro hmem
      rw [hchars, List.append_assoc, List.append_assoc, ← List.append_assoc target] at hline
      exact hline (List.mem_append_right _ hmem)
    rw [hchars, links, List.append_assoc, List.append_assoc, ← List.append_assoc target,
      run_append, run_append, hmode, run_inside _ hrest] at hlinks
    obtain ⟨parts, hparts⟩ := Option.isSome_iff_exists.mp
      (@splitOnce?_isSome target after)
    rw [hparts] at hlinks
    simp at hlinks
  · intro hnone
    by_contra hlinks
    exact hnone ((hasLink_of_run hline).1 hlinks)

/-! ## Rewritten text -/

def IsBracket (ch : Char) : Prop := ch = '[' ∨ ch = ']'

/-- A rewriting of characters that keeps brackets and makes none. -/
structure Transparent (rewrite : Char → List Char) : Prop where
  keeps : ∀ mark, IsBracket mark → rewrite mark = [mark]
  ne_nil : ∀ ch, rewrite ch ≠ []
  makes_none : ∀ mark ch, IsBracket mark → ch ≠ mark → mark ∉ rewrite ch

theorem Transparent.comp {rewrite rewrite' : Char → List Char} (h : Transparent rewrite)
    (h' : Transparent rewrite') : Transparent fun ch => (rewrite ch).flatMap rewrite' := by
  constructor
  · intro mark hmark
    rw [h.keeps mark hmark, List.flatMap_singleton, h'.keeps mark hmark]
  · intro ch hnil
    obtain ⟨ch', hch'⟩ := List.exists_mem_of_ne_nil _ (h.ne_nil ch)
    exact h'.ne_nil ch' (List.flatMap_eq_nil_iff.mp hnil ch' hch')
  · intro mark ch hmark hne hmem
    obtain ⟨ch', hch', hmem'⟩ := List.mem_flatMap.mp hmem
    by_cases hsame : ch' = mark
    · exact h.makes_none mark ch hmark hne (hsame ▸ hch')
    · exact h'.makes_none mark ch' hmark hsame hmem'

section Rewritten

variable {rewrite : Char → List Char} (hrewrite : Transparent rewrite)
include hrewrite

theorem Transparent.eq_nil {chars : List Char} (h : chars.flatMap rewrite = []) : chars = [] := by
  cases chars with
  | nil => rfl
  | cons ch chars => exact absurd (List.append_eq_nil_iff.mp h).1 (hrewrite.ne_nil ch)

/-- A bracket of the rewritten text is one of the text. -/
theorem Transparent.exists_split {mark : Char} (hmark : IsBracket mark)
    {chars before after : List Char} (h : chars.flatMap rewrite = before ++ mark :: after) :
    ∃ before' after', chars = before' ++ mark :: after' ∧ before'.flatMap rewrite = before ∧
      after'.flatMap rewrite = after := by
  induction chars generalizing before with
  | nil => simp at h
  | cons ch chars ih =>
      rw [List.flatMap_cons] at h
      by_cases hch : ch = mark
      · subst hch
        rw [hrewrite.keeps ch hmark, List.singleton_append] at h
        cases before with
        | nil => exact ⟨[], chars, rfl, rfl, (List.cons.inj h).2⟩
        | cons ch' before =>
            obtain ⟨rfl, hrest⟩ := List.cons.inj h
            obtain ⟨before', after', rfl, rfl, rfl⟩ := ih hrest
            exact ⟨ch :: before', after', rfl, by simp [hrewrite.keeps ch hmark], rfl⟩
      · -- the mark is none of what this character is rewritten to
        have hnot := hrewrite.makes_none mark ch hmark hch
        rcases List.append_eq_append_iff.mp h with ⟨rest, hbefore, hrest⟩ | ⟨rest, hbefore, hrest⟩
        · obtain ⟨before', after', rfl, rfl, rfl⟩ := ih hrest
          exact ⟨ch :: before', after', rfl, by rw [hbefore]; rfl, rfl⟩
        · cases rest with
          | nil =>
              rw [List.append_nil] at hbefore
              obtain ⟨before', after', rfl, hnil, rfl⟩ := @ih [] hrest.symm
              exact ⟨ch :: before', after', rfl, by rw [List.flatMap_cons, hnil, hbefore,
                List.append_nil], rfl⟩
          | cons ch' rest =>
              obtain ⟨rfl, -⟩ := List.cons.inj hrest
              rw [hbefore] at hnot
              exact absurd (List.mem_append_right _ List.mem_cons_self) hnot

theorem Transparent.hasLink_iff {chars : List Char} :
    HasLink (chars.flatMap rewrite) ↔ HasLink chars := by
  have hopen : IsBracket '[' := Or.inl rfl
  have hclose : IsBracket ']' := Or.inr rfl
  constructor
  · intro ⟨before, target, after, h⟩
    have hfirst : chars.flatMap rewrite =
        before ++ '[' :: ([] ++ '[' :: (target ++ ']' :: ([] ++ ']' :: after))) := by
      rw [h]
      simp [openMark, closeMark]
    obtain ⟨before', chars₁, rfl, -, hsecond⟩ := hrewrite.exists_split hopen hfirst
    obtain ⟨gap, chars₂, rfl, hgap, hthird⟩ := hrewrite.exists_split hopen hsecond
    obtain ⟨target', chars₃, rfl, -, hfourth⟩ := hrewrite.exists_split hclose hthird
    obtain ⟨gap', after', rfl, hgap', -⟩ := hrewrite.exists_split hclose hfourth
    refine ⟨before', target', after', ?_⟩
    rw [hrewrite.eq_nil hgap, hrewrite.eq_nil hgap']
    simp [openMark, closeMark]
  · intro ⟨before, target, after, h⟩
    refine ⟨before.flatMap rewrite, target.flatMap rewrite, after.flatMap rewrite, ?_⟩
    have hopenMark : openMark.flatMap rewrite = openMark := by
      simp [openMark, hrewrite.keeps _ hopen]
    have hcloseMark : closeMark.flatMap rewrite = closeMark := by
      simp [closeMark, hrewrite.keeps _ hclose]
    rw [h, List.flatMap_append, List.flatMap_append, List.flatMap_append, List.flatMap_append,
      hopenMark, hcloseMark]

omit hrewrite in
theorem splitOnce?_skip {before : List Char} (hbefore : ']' ∉ before) (chars : List Char) :
    splitOnce? closeMark (before ++ chars) =
      (splitOnce? closeMark chars).map fun parts => (before ++ parts.1, parts.2) := by
  induction before with
  | nil => simp
  | cons ch before ih =>
      rw [List.mem_cons, not_or] at hbefore
      have hnot : ¬ closeMark <+: ch :: (before ++ chars) := by simp [closeMark, hbefore.1]
      rw [List.cons_append, splitOnce?_cons hnot, ih hbefore.2, Option.map_map]
      rfl

/-- A target ends in the rewritten text where it ends in the text. -/
theorem Transparent.splitOnce?_flatMap (chars : List Char) :
    splitOnce? closeMark (chars.flatMap rewrite) =
      (splitOnce? closeMark chars).map fun parts =>
        (parts.1.flatMap rewrite, parts.2.flatMap rewrite) := by
  have hclose : IsBracket ']' := Or.inr rfl
  induction chars with
  | nil => rfl
  | cons ch chars ih =>
      by_cases hch : ch = ']'
      · subst hch
        rw [List.flatMap_cons, hrewrite.keeps _ hclose, List.singleton_append]
        by_cases hmark : closeMark <+: ']' :: chars
        · obtain ⟨rest, hrest⟩ := hmark
          obtain rfl : ']' :: rest = chars := (List.cons.inj hrest).2
          rw [List.flatMap_cons, hrewrite.keeps _ hclose, List.singleton_append,
            splitOnce?_close, splitOnce?_close]
          rfl
        · have hnot : ¬ closeMark <+: ']' :: chars.flatMap rewrite := by
            intro ⟨rest, hrest⟩
            have hsplit : chars.flatMap rewrite = [] ++ ']' :: rest := (List.cons.inj hrest).2.symm
            obtain ⟨gap, after, rfl, hgap, -⟩ := hrewrite.exists_split hclose hsplit
            rw [hrewrite.eq_nil hgap] at hmark
            exact hmark ⟨after, rfl⟩
          rw [splitOnce?_cons hnot, splitOnce?_cons hmark, ih, Option.map_map, Option.map_map]
          simp [Function.comp_def, hrewrite.keeps _ hclose]
      · have hmark : ¬ closeMark <+: ch :: chars := by simp [closeMark, Ne.symm hch]
        rw [List.flatMap_cons, splitOnce?_skip (hrewrite.makes_none _ ch hclose hch),
          splitOnce?_cons hmark, ih, Option.map_map, Option.map_map]
        rfl

end Rewritten

/-! ## Lines in order -/

/-- Lines that each have a link are in order with what they link when they have one link
each and no other text has one. -/
theorem forall₂_flatMap_iff {α β : Type*} {R : β → α → Prop} {lead : List β} {xs : List α}
    {f : α → List β} (hf : ∀ x ∈ xs, f x ≠ []) :
    List.Forall₂ R (lead ++ xs.flatMap f) xs ↔
      lead = [] ∧ ∀ x ∈ xs, ∃ y, f x = [y] ∧ R y x := by
  induction xs generalizing lead with
  | nil => simp
  | cons x xs ih =>
      obtain ⟨hx, hxs⟩ := List.forall_mem_cons.mp hf
      obtain ⟨y, ys, hy⟩ := List.exists_cons_of_ne_nil hx
      rw [List.flatMap_cons, List.forall_mem_cons]
      cases lead with
      | nil =>
          rw [hy, List.nil_append, List.cons_append, List.forall₂_cons, ih hxs]
          constructor
          · intro ⟨hR, hys, hrest⟩
            exact ⟨rfl, ⟨y, by rw [hys], hR⟩, hrest⟩
          · intro ⟨_, ⟨y', hy', hR⟩, hrest⟩
            obtain ⟨rfl, rfl⟩ := List.cons.inj hy'
            exact ⟨hR, rfl, hrest⟩
      | cons z lead =>
          rw [List.cons_append, List.forall₂_cons, ← List.append_assoc, ih hxs, hy]
          simp

end WikiLinks
