import HabitatGraph.Foundation.Escaping

/-! # Texts with provenance

A formatted text is kept as the pieces it was written from, so that what the
template says can be told from what its arguments say. A text is clean when the
arguments hold no dangerous character and the template none but line feeds.
-/

namespace Template

open Escaping

/-- A piece of a text: part of the template, or an argument of it. -/
inductive Piece
  | literal (s : String)
  | argument (s : String)
deriving DecidableEq, Repr

/-- The characters of a piece. -/
def Piece.chars : Piece → List Char
  | .literal s => s.toList
  | .argument s => s.toList

/-- A text as the pieces it was written from. -/
abbrev Text := List Piece

/-- The text itself. -/
def render (text : Text) : String := String.ofList (text.flatMap Piece.chars)

/-- The texts with `separator` between them. -/
def join (separator : String) : List Text → Text
  | [] => []
  | [text] => text
  | text :: next :: texts => text ++ .literal separator :: join separator (next :: texts)

variable (dangerous : Char → Bool)

/-- A template shows nothing dangerous but line feeds. -/
def CleanLiteral (s : String) : Prop := ∀ ch ∈ s.toList, dangerous ch → ch = '\n'

instance (s : String) : Decidable (CleanLiteral dangerous s) :=
  decidable_of_iff (s.toList.all fun ch => !dangerous ch || ch == '\n') (by
    simp only [List.all_eq_true, Bool.or_eq_true, Bool.not_eq_true', beq_iff_eq, CleanLiteral,
      or_iff_not_imp_left, Bool.not_eq_false])

def CleanPiece : Piece → Prop
  | .literal s => CleanLiteral dangerous s
  | .argument s => Safe dangerous s.toList

/-- Nothing in a text is dangerous but line feeds of its template. -/
def Clean (text : Text) : Prop := ∀ piece ∈ text, CleanPiece dangerous piece

variable {dangerous}

@[simp] theorem clean_nil : Clean dangerous [] := by simp [Clean]

@[simp] theorem clean_literal_cons {s : String} {text : Text} :
    Clean dangerous (.literal s :: text) ↔ CleanLiteral dangerous s ∧ Clean dangerous text := by
  simp [Clean, CleanPiece]

theorem clean_argument_cons {s : String} {text : Text} :
    Clean dangerous (.argument s :: text) ↔ Safe dangerous s.toList ∧ Clean dangerous text := by
  simp [Clean, CleanPiece]

@[simp] theorem clean_append {text text' : Text} :
    Clean dangerous (text ++ text') ↔ Clean dangerous text ∧ Clean dangerous text' := by
  simp [Clean, or_imp, forall_and]

@[simp] theorem clean_flatten {texts : List Text} :
    Clean dangerous texts.flatten ↔ ∀ text ∈ texts, Clean dangerous text := by
  induction texts with
  | nil => simp
  | cons text texts ih => simp [ih]

theorem clean_flatten_iff_getElem? {texts : List Text} :
    Clean dangerous texts.flatten ↔
      ∀ (k : Nat) text, texts[k]? = some text → Clean dangerous text := by
  simp only [clean_flatten, List.mem_iff_getElem?]
  exact ⟨fun h k text hk => h text ⟨k, hk⟩, fun h text ⟨k, hk⟩ => h k text hk⟩

theorem clean_flatten_take_iff {texts : List Text} {n : Nat} :
    Clean dangerous (texts.take n).flatten ↔
      ∀ k text, texts[k]? = some text → k < n → Clean dangerous text := by
  simp only [clean_flatten_iff_getElem?, List.getElem?_take]
  apply forall_congr'
  intro k
  by_cases hlt : k < n <;> simp [hlt]

@[simp] theorem clean_ite {p : Prop} [Decidable p] {text text' : Text} :
    Clean dangerous (if p then text else text') ↔
      (p → Clean dangerous text) ∧ (¬ p → Clean dangerous text') := by
  split <;> simp_all

theorem clean_join {separator : String} (hseparator : CleanLiteral dangerous separator)
    {texts : List Text} (htexts : ∀ text ∈ texts, Clean dangerous text) :
    Clean dangerous (join separator texts) := by
  induction texts with
  | nil => exact clean_nil
  | cons text texts ih =>
      rw [List.forall_mem_cons] at htexts
      cases texts with
      | nil => exact htexts.1
      | cons text' texts =>
          rw [join, clean_append, clean_literal_cons]
          exact ⟨htexts.1, hseparator, ih htexts.2⟩

/-- A clean text shows nothing dangerous but line feeds. -/
theorem Clean.eq_newline {text : Text} (h : Clean dangerous text) {ch : Char}
    (hch : ch ∈ (render text).toList) (hdangerous : dangerous ch) : ch = '\n' := by
  rw [render, String.toList_ofList, List.mem_flatMap] at hch
  obtain ⟨piece, hpiece, hch⟩ := hch
  have hclean := h piece hpiece
  cases piece with
  | literal s => exact hclean ch hch hdangerous
  | argument s => exact absurd hdangerous (Bool.eq_false_iff.mp (hclean ch hch))

end Template
