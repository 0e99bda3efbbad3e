import Mathlib.Data.List.Induction

/-! # Positions in a list

The elements of a list, each with those before it. Where the list holds the pieces of
another one between delimiters, what is before a piece is the pieces before it with
their delimiters.
-/

namespace Positions

variable {α β : Type*}

def positionsFrom (before : List α) : List α → List (List α × α)
  | [] => []
  | x :: rest => (before, x) :: positionsFrom (before ++ [x]) rest

/-- The elements of a list, each with those before it. -/
def positions (xs : List α) : List (List α × α) := positionsFrom [] xs

theorem mem_positionsFrom_iff {before xs : List α} {p : List α × α} :
    p ∈ positionsFrom before xs ↔
      ∃ front back, xs = front ++ p.2 :: back ∧ p.1 = before ++ front := by
  induction xs generalizing before with
  | nil => simp [positionsFrom]
  | cons x rest ih =>
      rw [positionsFrom, List.mem_cons, ih]
      constructor
      · rintro (rfl | ⟨front, back, rfl, hbefore⟩)
        · exact ⟨[], rest, rfl, (List.append_nil before).symm⟩
        · exact ⟨x :: front, back, rfl, by rw [hbefore, List.append_assoc]; rfl⟩
      · rintro ⟨front, back, hxs, hbefore⟩
        cases front with
        | nil =>
            obtain ⟨hx, -⟩ := List.cons.inj hxs
            exact .inl (Prod.ext (by rw [hbefore, List.append_nil]) hx.symm)
        | cons first front =>
            obtain ⟨rfl, hrest⟩ := List.cons.inj hxs
            exact .inr ⟨front, back, hrest, by rw [hbefore, List.append_assoc]; rfl⟩

theorem mem_positions_iff {xs : List α} {p : List α × α} :
    p ∈ positions xs ↔ ∃ back, xs = p.1 ++ p.2 :: back := by
  rw [positions, mem_positionsFrom_iff]
  constructor
  · rintro ⟨front, back, rfl, hfront⟩
    exact ⟨back, by rw [hfront, List.nil_append]⟩
  · rintro ⟨back, hxs⟩
    exact ⟨p.1, back, hxs, (List.nil_append _).symm⟩

theorem positionsFrom_append (before front back : List α) :
    positionsFrom before (front ++ back) =
      positionsFrom before front ++ positionsFrom (before ++ front) back := by
  induction front generalizing before with
  | nil => rw [List.append_nil]; rfl
  | cons x front ih =>
      rw [List.cons_append, positionsFrom, positionsFrom, ih, List.append_assoc]
      rfl

theorem positions_concat (xs : List α) (x : α) :
    positions (xs ++ [x]) = positions xs ++ [(xs, x)] :=
  positionsFrom_append [] xs [x]

theorem positions_map (f : α → β) (xs : List α) :
    positions (xs.map f) = (positions xs).map fun p => (p.1.map f, f p.2) := by
  induction xs using List.reverseRecOn with
  | nil => rfl
  | append_singleton xs x ih =>
      rw [List.map_append, List.map_singleton, positions_concat, ih, positions_concat,
        List.map_append, List.map_singleton]

/-! ## Pieces between delimiters -/

section Pieces

/-- Pieces, each with a delimiter after it. -/
def ended (a : α) (pieces : List (List α)) : List α := pieces.flatMap fun piece => piece ++ [a]

theorem ended_concat (a : α) (pieces : List (List α)) (piece : List α) :
    ended a (pieces ++ [piece]) = ended a pieces ++ (piece ++ [a]) := by
  rw [ended, List.flatMap_append, List.flatMap_singleton]
  rfl

theorem getLast?_ended (a : α) {pieces : List (List α)} (hne : pieces ≠ []) :
    (ended a pieces).getLast? = some a := by
  obtain ⟨front, piece, rfl⟩ := List.eq_nil_or_concat pieces |>.resolve_left hne
  rw [List.concat_eq_append, ended_concat, ← List.append_assoc, List.getLast?_concat]

/-- Pieces with a delimiter between them, around one of them. -/
theorem intercalate_append_cons (a : α) (before : List (List α)) (piece : List α)
    (back : List (List α)) :
    ∃ rest, [a].intercalate (before ++ piece :: back) = ended a before ++ (piece ++ rest) ∧
      ∀ x ∈ rest.head?, x = a := by
  induction before with
  | nil =>
      cases back with
      | nil => exact ⟨[], by simp [ended], by simp⟩
      | cons next back =>
          exact ⟨a :: [a].intercalate (next :: back), by simp [ended], by simp⟩
  | cons first before ih =>
      obtain ⟨rest, heq, hrest⟩ := ih
      refine ⟨rest, ?_, hrest⟩
      rw [List.cons_append, List.intercalate_cons_of_ne_nil (by simp), heq, ended, ended,
        List.flatMap_cons, List.append_assoc, List.append_assoc, List.append_assoc]

variable [DecidableEq α] {a : α} {xs : List α}

theorem notMem_of_mem_splitOn {piece : List α} (hpiece : piece ∈ xs.splitOn a) : a ∉ piece := by
  induction xs generalizing piece with
  | nil =>
      rw [List.splitOn_nil, List.mem_singleton] at hpiece
      rw [hpiece]
      exact List.not_mem_nil
  | cons x xs ih =>
      rw [List.splitOn_cons_eq_if_modifyHead] at hpiece
      split at hpiece
      next =>
        rcases List.mem_cons.mp hpiece with rfl | hrest
        · exact List.not_mem_nil
        · exact ih hrest
      next hx =>
        obtain ⟨first, rest, hsplit⟩ := List.exists_cons_of_ne_nil (List.splitOn_ne_nil a xs)
        rw [hsplit] at ih
        rw [hsplit, List.modifyHead_cons] at hpiece
        rcases List.mem_cons.mp hpiece with rfl | hrest
        · simp [ih List.mem_cons_self, Ne.symm (by simpa using hx)]
        · exact ih (List.mem_cons_of_mem _ hrest)

theorem count_ended {pieces : List (List α)} (hpieces : ∀ piece ∈ pieces, a ∉ piece) :
    (ended a pieces).count a = pieces.length := by
  induction pieces with
  | nil => rfl
  | cons piece pieces ih =>
      rw [List.forall_mem_cons] at hpieces
      have hrest := ih hpieces.2
      rw [ended] at hrest ⊢
      rw [List.flatMap_cons, List.count_append, List.count_append,
        List.count_eq_zero_of_not_mem hpieces.1, List.count_singleton_self, hrest,
        List.length_cons]
      omega

/-- What a piece stands between, and how many delimiters are before it. -/
theorem eq_of_mem_positions_splitOn {p : List (List α) × List α}
    (hp : p ∈ positions (xs.splitOn a)) :
    a ∉ p.2 ∧ (ended a p.1).count a = p.1.length ∧
      ∃ rest, xs = ended a p.1 ++ (p.2 ++ rest) ∧ ∀ x ∈ rest.head?, x = a := by
  obtain ⟨back, hsplit⟩ := mem_positions_iff.mp hp
  have hpieces : ∀ piece ∈ xs.splitOn a, a ∉ piece := fun _ => notMem_of_mem_splitOn
  rw [hsplit, List.forall_mem_append, List.forall_mem_cons] at hpieces
  obtain ⟨rest, heq, hrest⟩ := intercalate_append_cons a p.1 p.2 back
  rw [← hsplit, List.intercalate_splitOn] at heq
  exact ⟨hpieces.2.1, count_ended hpieces.1, rest, heq, hrest⟩

/-- After as many delimiters as a front has, right after the last of them, is the end of
the front. -/
theorem eq_length_of_count_take {front back : List α} {start : Nat} (hle : front.length ≤ start)
    (hstart : start = 0 ∨ (front ++ back)[start - 1]? = some a)
    (hcount : ((front ++ back).take start).count a = front.count a) : start = front.length := by
  by_contra hne
  have hlt : front.length < start := Nat.lt_of_le_of_ne hle (Ne.symm hne)
  have hlast : (front ++ back)[start - 1]? = some a := hstart.resolve_left (by omega)
  rw [List.getElem?_append_right (by omega)] at hlast
  have hmem : a ∈ back.take (start - front.length) := by
    refine List.mem_of_getElem? (i := start - 1 - front.length) ?_
    rw [List.getElem?_take_of_lt (by omega), hlast]
  rw [List.take_append, List.count_append, List.take_of_length_le hle] at hcount
  have hpos := List.count_pos_iff.mpr hmem
  omega

omit [DecidableEq α] in
/-- A piece goes up to the next delimiter and not over it. -/
theorem eq_length_of_notMem_take {piece rest : List α} {n : Nat}
    (hrest : ∀ x ∈ rest.head?, x = a) (hle : piece.length ≤ n)
    (hn : n ≤ (piece ++ rest).length) (hmem : a ∉ (piece ++ rest).take n) :
    n = piece.length := by
  by_contra hne
  rw [List.length_append] at hn
  cases rest with
  | nil => exact hne (Nat.le_antisymm hn hle)
  | cons x rest =>
      obtain ⟨k, hk⟩ : ∃ k, n = piece.length + (k + 1) := ⟨n - piece.length - 1, by omega⟩
      apply hmem
      rw [hk, List.take_length_add_append, List.take_succ_cons, hrest x rfl]
      exact List.mem_append_right _ List.mem_cons_self

end Pieces

end Positions
