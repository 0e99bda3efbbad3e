import Mathlib.Data.List.Basic

/-! # Lines of a stream that arrives in chunks

A stream is cut at each delimiter. When it arrives in chunks, a line is carried from
chunk to chunk until one holds its delimiter; what the line is does not depend on the
chunks, only how much of it was carried does.
-/

namespace DelimitedChunks

variable {α : Type*} [DecidableEq α] (delimiter : α)

/-- The pieces that a delimiter ends, and what is left after the last one. -/
def cut : List α → List (List α) × List α
  | [] => ([], [])
  | x :: xs =>
      if x = delimiter then ([] :: (cut xs).1, (cut xs).2)
      else match (cut xs).1 with
        | [] => ([], x :: (cut xs).2)
        | line :: lines => ((x :: line) :: lines, (cut xs).2)

/-- A line as it arrives: what earlier chunks held of it, and what the chunk with its
delimiter held. -/
structure Line (α : Type*) where
  carried : List α
  arrived : List α
deriving DecidableEq, Repr

def Line.all (line : Line α) : List α := line.carried ++ line.arrived

/-- The lines of a stream of chunks, of which the first is carried in part. -/
def arrivals (carried : List α) : List (List α) → List (Line α) × List α
  | [] => ([], carried)
  | chunk :: chunks =>
      match (cut delimiter chunk).1 with
      | [] => arrivals (carried ++ (cut delimiter chunk).2) chunks
      | first :: lines =>
          (⟨carried, first⟩ :: (lines.map (Line.mk [] ·) ++
              (arrivals (cut delimiter chunk).2 chunks).1),
            (arrivals (cut delimiter chunk).2 chunks).2)

variable {delimiter}

theorem cut_of_notMem {xs : List α} (hxs : delimiter ∉ xs) : cut delimiter xs = ([], xs) := by
  induction xs with
  | nil => rfl
  | cons x xs ih =>
      rw [List.mem_cons, not_or] at hxs
      rw [cut, if_neg (Ne.symm hxs.1), ih hxs.2]

theorem cut_append_cons {xs ys : List α} (hxs : delimiter ∉ xs) :
    cut delimiter (xs ++ delimiter :: ys) = (xs :: (cut delimiter ys).1, (cut delimiter ys).2) := by
  induction xs with
  | nil => rw [List.nil_append, cut, if_pos rfl]
  | cons x xs ih =>
      rw [List.mem_cons, not_or] at hxs
      rw [List.cons_append, cut, if_neg (Ne.symm hxs.1), ih hxs.2]

/-- A stream is cut in two steps: what the first part leaves goes before the second. -/
theorem cut_append (xs ys : List α) :
    cut delimiter (xs ++ ys) =
      ((cut delimiter xs).1 ++ (cut delimiter ((cut delimiter xs).2 ++ ys)).1,
        (cut delimiter ((cut delimiter xs).2 ++ ys)).2) := by
  induction xs with
  | nil => rfl
  | cons x xs ih =>
      rw [List.cons_append, cut, cut, ih]
      split
      next => rfl
      next hx =>
        cases hlines : (cut delimiter xs).1 with
        | nil => simp only [List.nil_append, List.cons_append, cut, if_neg hx]
        | cons line lines => simp only [List.cons_append]

/-- What goes before a stream, without a delimiter, goes before its first line. -/
theorem cut_carried {carried : List α} (hcarried : delimiter ∉ carried) (xs : List α) :
    cut delimiter (carried ++ xs) =
      match (cut delimiter xs).1 with
      | [] => ([], carried ++ (cut delimiter xs).2)
      | line :: lines => ((carried ++ line) :: lines, (cut delimiter xs).2) := by
  induction carried with
  | nil =>
      rw [List.nil_append]
      split
      next hlines => rw [List.nil_append, ← hlines]
      next line lines hlines => rw [List.nil_append, ← hlines]
  | cons x carried ih =>
      rw [List.mem_cons, not_or] at hcarried
      rw [List.cons_append, cut, if_neg (Ne.symm hcarried.1), ih hcarried.2]
      cases (cut delimiter xs).1 <;> rfl

theorem notMem_cut_snd (xs : List α) : delimiter ∉ (cut delimiter xs).2 := by
  induction xs with
  | nil => exact List.not_mem_nil
  | cons x xs ih =>
      rw [cut]
      split
      next => exact ih
      next hx =>
        split
        next => simp only [List.mem_cons, not_or]; exact ⟨Ne.symm hx, ih⟩
        next => exact ih

theorem length_cut_le (delimiter : α) (xs : List α) :
    (cut delimiter xs).1.length + (cut delimiter xs).2.length ≤ xs.length := by
  induction xs with
  | nil => exact Nat.le_refl 0
  | cons x xs ih =>
      rw [cut]
      split
      next =>
        simp only [List.length_cons]
        omega
      next =>
        split
        next hlines =>
          rw [hlines] at ih
          simp only [List.length_cons, List.length_nil] at ih ⊢
          omega
        next line lines hlines =>
          rw [hlines] at ih
          simp only [List.length_cons] at ih ⊢
          omega

/-- The lines are those of the whole stream, however it arrives. -/
theorem arrivals_all {carried : List α} (hcarried : delimiter ∉ carried)
    (chunks : List (List α)) :
    ((arrivals delimiter carried chunks).1.map Line.all,
        (arrivals delimiter carried chunks).2) =
      cut delimiter (carried ++ chunks.flatten) := by
  induction chunks generalizing carried with
  | nil =>
      rw [List.flatten_nil, List.append_nil, cut_of_notMem hcarried]
      rfl
  | cons chunk chunks ih =>
      have hrest : delimiter ∉ (cut delimiter chunk).2 := notMem_cut_snd chunk
      have hcut : cut delimiter (chunk ++ chunks.flatten) = _ := cut_append chunk chunks.flatten
      rw [List.flatten_cons, arrivals, cut_carried hcarried]
      split
      next hlines =>
        have hmoved : delimiter ∉ carried ++ (cut delimiter chunk).2 := by
          rw [List.mem_append, not_or]
          exact ⟨hcarried, hrest⟩
        rw [hlines, List.nil_append] at hcut
        rw [ih hmoved, hcut, List.append_assoc, cut_carried hcarried]
      next first lines hlines =>
        rw [hlines, ← ih hrest] at hcut
        rw [hcut]
        simp [Line.all, Function.comp_def]

/-- A chunk without a delimiter is carried. -/
theorem arrivals_of_notMem {carried chunk : List α} {chunks : List (List α)}
    (hchunk : delimiter ∉ chunk) :
    arrivals delimiter carried (chunk :: chunks) =
      arrivals delimiter (carried ++ chunk) chunks := by
  simp only [arrivals, cut_of_notMem hchunk]

/-- A line ends with its delimiter, and the next one begins after it. -/
theorem arrivals_append_cons {carried line rest : List α} {chunks : List (List α)}
    (hline : delimiter ∉ line) :
    arrivals delimiter carried ((line ++ delimiter :: rest) :: chunks) =
      (⟨carried, line⟩ :: (arrivals delimiter [] (rest :: chunks)).1,
        (arrivals delimiter [] (rest :: chunks)).2) := by
  simp only [arrivals, cut_append_cons hline]
  cases (cut delimiter rest).1 <;> rfl

/-- What is carried only grows until the line ends or the stream does. -/
theorem length_carried_le (delimiter : α) (carried : List α) (chunks : List (List α)) :
    match arrivals delimiter carried chunks with
    | ([], rest) => carried.length ≤ rest.length
    | (line :: _, _) => carried.length ≤ line.carried.length := by
  induction chunks generalizing carried with
  | nil => exact Nat.le_refl _
  | cons chunk chunks ih =>
      rw [arrivals]
      cases (cut delimiter chunk).1 with
      | cons first lines => exact Nat.le_refl _
      | nil =>
          have hgrown := ih (carried ++ (cut delimiter chunk).2)
          rw [List.length_append] at hgrown
          dsimp only
          split
          next hlines =>
            rw [hlines] at hgrown
            exact Nat.le_of_add_right_le hgrown
          next hlines =>
            rw [hlines] at hgrown
            exact Nat.le_of_add_right_le hgrown

/-! ## Frames -/

/-- Lines with the delimiter after each. -/
def frames (delimiter : α) (lines : List (List α)) : List α :=
  lines.flatMap fun line => line ++ [delimiter]

theorem cut_frames {lines : List (List α)} (hlines : ∀ line ∈ lines, delimiter ∉ line) :
    cut delimiter (frames delimiter lines) = (lines, []) := by
  induction lines with
  | nil => rfl
  | cons line lines ih =>
      rw [List.forall_mem_cons] at hlines
      rw [frames, List.flatMap_cons, List.append_assoc, List.singleton_append,
        cut_append_cons hlines.1, ← frames, ih hlines.2]

/-- Frames hold the lines they were made of. -/
theorem frames_inj {lines lines' : List (List α)} (hlines : ∀ line ∈ lines, delimiter ∉ line)
    (hlines' : ∀ line ∈ lines', delimiter ∉ line) :
    frames delimiter lines = frames delimiter lines' ↔ lines = lines' := by
  apply Iff.intro
  · intro heq
    have hcut := congrArg (cut delimiter) heq
    rw [cut_frames hlines, cut_frames hlines'] at hcut
    exact congrArg Prod.fst hcut
  · intro heq
    rw [heq]

end DelimitedChunks
