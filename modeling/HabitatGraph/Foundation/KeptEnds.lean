import Mathlib.Data.List.Basic

/-! # The ends of what is kept

Of a list only some elements are kept, and of these at most `cap`. An element that was
inside the list comes to an end of it when everything before it goes, when everything
after it goes, or when it is the last one the cap lets through.
-/

namespace KeptEnds

variable {α : Type*} (keep blank : α → Bool) (cap : Nat)

def kept (xs : List α) : List α := (xs.filter keep).take cap

/-- A blank stands where it comes to an end. -/
def Exposes (xs : List α) : Prop :=
  ∃ before x after, xs = before ++ x :: after ∧ keep x ∧ blank x ∧
    (before.filter keep).length < cap ∧
    (before.filter keep = [] ∨ after.filter keep = [] ∨ (before.filter keep).length + 1 = cap)

/-- No blank stands at the beginning or the end. -/
def Padded (xs : List α) : Prop :=
  (∃ x, xs.head? = some x ∧ blank x) ∨ ∃ x, xs.getLast? = some x ∧ blank x

variable {keep blank cap}

theorem kept_append_cons {before after : List α} {x : α} (hx : keep x)
    (hlt : (before.filter keep).length < cap) :
    kept keep cap (before ++ x :: after) =
      before.filter keep ++
        x :: (after.filter keep).take (cap - (before.filter keep).length - 1) := by
  obtain ⟨room, hroom⟩ := Nat.exists_eq_add_of_lt hlt
  rw [kept, List.filter_append, List.filter_cons_of_pos hx, List.take_append,
    List.take_of_length_le (Nat.le_of_lt hlt)]
  congr 1
  rw [hroom]
  have hsub : (before.filter keep).length + room + 1 - (before.filter keep).length = room + 1 := by
    omega
  rw [hsub, List.take_succ_cons, Nat.add_sub_cancel]

/-- Where a kept list is split, the list is split too. -/
theorem exists_split_of_kept {xs front rest : List α} {x : α}
    (h : xs.filter keep = front ++ x :: rest) :
    ∃ before after, xs = before ++ x :: after ∧ keep x ∧ before.filter keep = front ∧
      after.filter keep = rest := by
  obtain ⟨left, right, rfl, hleft, hright⟩ := List.filter_eq_append_iff.mp h
  obtain ⟨gone, after, rfl, hgone, hx, hafter⟩ := List.filter_eq_cons_iff.mp hright
  refine ⟨left ++ gone, after, by simp, hx, ?_, hafter⟩
  rw [List.filter_append, hleft, List.filter_eq_nil_iff.mpr hgone, List.append_nil]

/-- What is kept has a blank at an end exactly when the list exposes one. -/
theorem padded_kept_iff {xs : List α} (hcap : 0 < cap) :
    Padded blank (kept keep cap xs) ↔ Exposes keep blank cap xs := by
  constructor
  · intro hpadded
    cases hpadded with
    | inl hhead =>
        obtain ⟨x, hx, hblank⟩ := hhead
        rw [kept, List.head?_take, if_neg (Nat.ne_of_gt hcap)] at hx
        obtain ⟨rest, hrest⟩ := List.head?_eq_some_iff.mp hx
        -- everything before the first element kept goes
        have hsplit : xs.filter keep = [] ++ x :: rest := hrest
        obtain ⟨before, after, rfl, hkeep, hbefore, -⟩ := exists_split_of_kept hsplit
        exact ⟨before, x, after, rfl, hkeep, hblank, by simpa [hbefore] using hcap,
          Or.inl hbefore⟩
    | inr hlast =>
        obtain ⟨x, hx, hblank⟩ := hlast
        obtain ⟨front, hfront⟩ := List.getLast?_eq_some_iff.mp hx
        -- after the last element kept, everything goes or is over the cap
        have hsplit : xs.filter keep = front ++ x :: (xs.filter keep).drop cap := by
          rw [← List.singleton_append, ← List.append_assoc, ← hfront, kept,
            List.take_append_drop]
        have hlength : front.length + 1 ≤ cap := by
          have htake := List.length_take_le cap (xs.filter keep)
          rw [kept] at hfront
          rw [hfront, List.length_append, List.length_singleton] at htake
          exact htake
        obtain ⟨before, after, hxs, hkeep, hbefore, hafter⟩ := exists_split_of_kept hsplit
        refine ⟨before, x, after, hxs, hkeep, hblank, by rw [hbefore]; exact hlength,
          Or.inr ?_⟩
        by_cases hfull : front.length + 1 = cap
        · exact Or.inr (hbefore ▸ hfull)
        · left
          rw [hafter, List.drop_eq_nil_iff]
          have htake := congrArg List.length hfront
          rw [kept, List.length_take, List.length_append, List.length_singleton] at htake
          omega
  · intro ⟨before, x, after, hxs, hkeep, hblank, hlt, hend⟩
    rw [hxs, kept_append_cons hkeep hlt]
    rcases hend with hbefore | hafter | hfull
    · left
      exact ⟨x, by rw [hbefore]; rfl, hblank⟩
    · right
      exact ⟨x, by rw [hafter, List.take_nil, List.getLast?_concat], hblank⟩
    · right
      refine ⟨x, ?_, hblank⟩
      rw [← hfull, Nat.add_sub_cancel_left, Nat.sub_self, List.take_zero, List.getLast?_concat]

end KeptEnds
