import Mathlib.Data.List.Basic

/-! # The tokens of Cypher

Words, symbols, single-quoted literals with backslash escapes, and comments that `//`
opens and the end of the line closes. The lexer is a state machine over characters, so
that the tokens of a text follow from those of its parts.
-/

namespace Cypher

/-- A token, a literal by the text it decodes to. -/
inductive Token
  | comment (text : List Char)
  | literal (value : List Char)
  | word (text : List Char)
  | symbol (ch : Char)
deriving DecidableEq, Repr

/-- What the lexer is inside of. -/
inductive Mode
  | plain
  | word (text : List Char)
  | slash
  | comment (text : List Char)
  | literal (value : List Char)
  | escape (value : List Char)
  | unicode (value : List Char) (digits : List Nat)
deriving DecidableEq, Repr

def isWordChar (ch : Char) : Bool := ch.isAlphanum || ch == '_'

def isBlank (ch : Char) : Bool := ch == ' ' || ch == '\n' || ch == '\t' || ch == '\r'

/-- A character between tokens. -/
def plainStep (ch : Char) : List Token × Mode :=
  if ch == '\'' then ([], .literal [])
  else if ch == '/' then ([], .slash)
  else if isBlank ch then ([], .plain)
  else if isWordChar ch then ([], .word [ch])
  else ([.symbol ch], .plain)

/-- The character a backslash and a character stand for. -/
def escaped : Char → Option Char
  | '\\' => some '\\'
  | '\'' => some '\''
  | '"' => some '"'
  | 'n' => some '\n'
  | 'r' => some '\r'
  | 't' => some '\t'
  | 'b' => some '\x08'
  | 'f' => some '\x0C'
  | _ => none

def hexDigit (ch : Char) : Option Nat :=
  if ch.isDigit then some (ch.toNat - 48)
  else if 'a' ≤ ch ∧ ch ≤ 'f' then some (ch.toNat - 87)
  else if 'A' ≤ ch ∧ ch ≤ 'F' then some (ch.toNat - 55)
  else none

/-- Read one character: the tokens it completes, and what the lexer is inside of then. -/
def step : Mode → Char → Option (List Token × Mode)
  | .plain, ch => some (plainStep ch)
  | .word text, ch =>
      if isWordChar ch then some ([], .word (text ++ [ch]))
      else some (.word text :: (plainStep ch).1, (plainStep ch).2)
  | .slash, ch =>
      if ch == '/' then some ([], .comment [])
      else some (.symbol '/' :: (plainStep ch).1, (plainStep ch).2)
  | .comment text, ch =>
      if ch == '\n' then some ([.comment text], .plain) else some ([], .comment (text ++ [ch]))
  | .literal value, ch =>
      if ch == '\'' then some ([.literal value], .plain)
      else if ch == '\\' then some ([], .escape value)
      else some ([], .literal (value ++ [ch]))
  | .escape value, ch =>
      if ch == 'u' then some ([], .unicode value [])
      else (escaped ch).map fun c => ([], .literal (value ++ [c]))
  | .unicode value digits, ch =>
      (hexDigit ch).map fun d =>
        if digits.length < 3 then ([], .unicode value (digits ++ [d]))
        else ([], .literal (value ++ [Char.ofNat ((digits ++ [d]).foldl (16 * · + ·) 0)]))

/-- Read a text: the tokens it completes, and what the lexer is inside of at its end. -/
def run : Mode → List Char → Option (List Token × Mode)
  | mode, [] => some ([], mode)
  | mode, ch :: chars =>
      (step mode ch).bind fun next =>
        (run next.2 chars).map fun last => (next.1 ++ last.1, last.2)

/-- The tokens completed by the end of the text. -/
def finish : Mode → Option (List Token)
  | .plain => some []
  | .word text => some [.word text]
  | .slash => some [.symbol '/']
  | .comment text => some [.comment text]
  | .literal _ | .escape _ | .unicode _ _ => none

/-- The tokens of a text, none when a literal does not end. -/
def lex (chars : List Char) : Option (List Token) :=
  (run .plain chars).bind fun last => (finish last.2).map (last.1 ++ ·)

/-- From one mode a text leads to some tokens and another mode. -/
def Lexes (mode : Mode) (chars : List Char) (tokens : List Token) (mode' : Mode) : Prop :=
  run mode chars = some (tokens, mode')

instance (mode : Mode) (chars : List Char) (tokens : List Token) (mode' : Mode) :
    Decidable (Lexes mode chars tokens mode') :=
  inferInstanceAs (Decidable (run mode chars = some (tokens, mode')))

theorem Lexes.nil (mode : Mode) : Lexes mode [] [] mode := rfl

theorem Lexes.cons {mode mode' mode'' : Mode} {ch : Char} {chars : List Char}
    {tokens tokens' : List Token} (hstep : step mode ch = some (tokens, mode'))
    (hrest : Lexes mode' chars tokens' mode'') :
    Lexes mode (ch :: chars) (tokens ++ tokens') mode'' := by
  rw [Lexes, run, hstep, Option.bind_some, hrest]
  rfl

theorem Lexes.append {mode mode' mode'' : Mode} {chars chars' : List Char}
    {tokens tokens' : List Token} (hfirst : Lexes mode chars tokens mode')
    (hsecond : Lexes mode' chars' tokens' mode'') :
    Lexes mode (chars ++ chars') (tokens ++ tokens') mode'' := by
  induction chars generalizing mode tokens with
  | nil =>
      cases hfirst
      exact hsecond
  | cons ch chars ih =>
      rw [Lexes, run, Option.bind_eq_some_iff] at hfirst
      obtain ⟨next, hstep, hlast⟩ := hfirst
      rw [Option.map_eq_some_iff] at hlast
      obtain ⟨last, hlast, heq⟩ := hlast
      cases heq
      rw [List.append_assoc]
      exact Lexes.cons hstep (ih hlast)

/-- A word goes on as long as there are letters. -/
theorem lexes_word {chars : List Char} (hchars : ∀ ch ∈ chars, isWordChar ch) (text : List Char) :
    Lexes (.word text) chars [] (.word (text ++ chars)) := by
  induction chars generalizing text with
  | nil =>
      rw [List.append_nil]
      exact Lexes.nil _
  | cons ch chars ih =>
      rw [List.forall_mem_cons] at hchars
      have hstep : step (.word text) ch = some ([], .word (text ++ [ch])) := if_pos hchars.1
      rw [List.append_cons]
      exact Lexes.cons hstep (ih hchars.2 _)

/-- A comment goes on to the end of the line. -/
theorem lexes_comment {chars : List Char} (hchars : '\n' ∉ chars) (text : List Char) :
    Lexes (.comment text) chars [] (.comment (text ++ chars)) := by
  induction chars generalizing text with
  | nil =>
      rw [List.append_nil]
      exact Lexes.nil _
  | cons ch chars ih =>
      rw [List.mem_cons, not_or] at hchars
      have hstep : step (.comment text) ch = some ([], .comment (text ++ [ch])) :=
        if_neg (by simpa using Ne.symm hchars.1)
      rw [List.append_cons]
      exact Lexes.cons hstep (ih hchars.2 _)

/-- Texts that each lead from between tokens to between tokens. -/
theorem lexes_flatten {ι : Type*} {text : ι → List Char} {tokens : ι → List Token}
    (hlexes : ∀ x, Lexes .plain (text x) (tokens x) .plain) (xs : List ι) :
    Lexes .plain (xs.flatMap text) (xs.flatMap tokens) .plain := by
  induction xs with
  | nil => exact Lexes.nil _
  | cons x xs ih =>
      rw [List.flatMap_cons, List.flatMap_cons]
      exact (hlexes x).append ih

theorem Lexes.lex_eq {chars : List Char} {tokens : List Token}
    (h : Lexes .plain chars tokens .plain) : lex chars = some tokens := by
  rw [lex, h]
  simp [finish]

end Cypher
