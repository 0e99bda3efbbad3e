import HabitatGraph.Foundation.Scanner

/-! # The tokens of XML

Tags with attributes in double quotes, and character data with the predefined entities.
What the lexer accepts is well-formed, not the other way round: it refuses comments,
sections, instructions, blanks around an equals sign, character references and a bare `>`
in character data. Line ends of character data become line feeds.
-/

namespace Xml

/-- A name with its value. -/
abbrev Attr := List Char × List Char

inductive Token
  | text (chars : List Char)
  | opening (name : List Char) (attrs : List Attr)
  | closing (name : List Char)
deriving DecidableEq, Repr

/-- What the lexer is inside of. After a carriage return a line feed adds nothing. -/
inductive Mode
  | text (chars : List Char) (afterReturn : Bool)
  | entity (chars name : List Char)
  | tagStart
  | openName (name : List Char)
  | blanks (name : List Char) (attrs : List Attr)
  | attrName (name : List Char) (attrs : List Attr) (attr : List Char)
  | attrEquals (name : List Char) (attrs : List Attr) (attr : List Char)
  | attrValue (name : List Char) (attrs : List Attr) (attr value : List Char)
  | attrEntity (name : List Char) (attrs : List Attr) (attr value entity : List Char)
  | attrEnd (name : List Char) (attrs : List Attr)
  | selfClosing (name : List Char) (attrs : List Attr)
  | closeName (name : List Char)
deriving DecidableEq, Repr

/-- A character that may stand in a document. -/
def isXmlChar (ch : Char) : Bool :=
  (0x20 ≤ ch.toNat || ch = '\t' || ch = '\n' || ch = '\r') &&
    ch.toNat ≠ 0xFFFE && ch.toNat ≠ 0xFFFF

def isBlank (ch : Char) : Bool := ch = ' ' || ch = '\n' || ch = '\t'

def isNameStart (ch : Char) : Bool := ch.isAlpha || ch = '_' || ch = ':'

def isNameChar (ch : Char) : Bool := isNameStart ch || ch.isDigit || ch = '-' || ch = '.'

/-- What a predefined entity stands for. -/
def predefined (name : List Char) : Option Char :=
  if name = ['a', 'm', 'p'] then some '&'
  else if name = ['l', 't'] then some '<'
  else if name = ['g', 't'] then some '>'
  else if name = ['q', 'u', 'o', 't'] then some '"'
  else if name = ['a', 'p', 'o', 's'] then some '\''
  else none

/-- Character data, unless there is none. -/
def textTokens (chars : List Char) : List Token := if chars = [] then [] else [.text chars]

/-- A character that ends a name or a value in an opening tag. -/
def tagEnd (name : List Char) (attrs : List Attr) (ch : Char) : Option (List Token × Mode) :=
  if ch = '>' then some ([.opening name attrs], .text [] false)
  else if ch = '/' then some ([], .selfClosing name attrs)
  else none

/-- Read one character. -/
def lexer : Scanner Mode Token
  | .text chars afterReturn, ch =>
      if ch = '<' then some (textTokens chars, .tagStart)
      else if ch = '&' then some ([], .entity chars [])
      else if ch = '>' || !isXmlChar ch then none
      else if ch = '\r' then some ([], .text (chars ++ ['\n']) true)
      else if ch = '\n' && afterReturn then some ([], .text chars false)
      else some ([], .text (chars ++ [ch]) false)
  | .entity chars name, ch =>
      if ch = ';' then (predefined name).map fun c => ([], .text (chars ++ [c]) false)
      else if isNameChar ch then some ([], .entity chars (name ++ [ch]))
      else none
  | .tagStart, ch =>
      if ch = '/' then some ([], .closeName [])
      else if isNameStart ch then some ([], .openName [ch])
      else none
  | .openName name, ch =>
      if isNameChar ch then some ([], .openName (name ++ [ch]))
      else if isBlank ch then some ([], .blanks name [])
      else tagEnd name [] ch
  | .blanks name attrs, ch =>
      if isBlank ch then some ([], .blanks name attrs)
      else if isNameStart ch then some ([], .attrName name attrs [ch])
      else tagEnd name attrs ch
  | .attrName name attrs attr, ch =>
      if isNameChar ch then some ([], .attrName name attrs (attr ++ [ch]))
      else if ch = '=' then some ([], .attrEquals name attrs attr)
      else none
  | .attrEquals name attrs attr, ch =>
      if ch = '"' then some ([], .attrValue name attrs attr []) else none
  | .attrValue name attrs attr value, ch =>
      if ch = '"' then
        if attr ∈ attrs.map Prod.fst then none
        else some ([], .attrEnd name (attrs ++ [(attr, value)]))
      else if ch = '&' then some ([], .attrEntity name attrs attr value [])
      else if ch = '<' || ch = '\r' || !isXmlChar ch then none
      else some ([], .attrValue name attrs attr (value ++ [if isBlank ch then ' ' else ch]))
  | .attrEntity name attrs attr value entity, ch =>
      if ch = ';' then
        (predefined entity).map fun c => ([], .attrValue name attrs attr (value ++ [c]))
      else if isNameChar ch then some ([], .attrEntity name attrs attr value (entity ++ [ch]))
      else none
  | .attrEnd name attrs, ch =>
      if isBlank ch then some ([], .blanks name attrs) else tagEnd name attrs ch
  | .selfClosing name attrs, ch =>
      if ch = '>' then some ([.opening name attrs, .closing name], .text [] false) else none
  | .closeName name, ch =>
      if ch = '>' then some ([.closing name], .text [] false)
      else if isNameChar ch then some ([], .closeName (name ++ [ch]))
      else none

/-- The tokens of a text. Only blanks may follow the last tag. -/
def lex (chars : List Char) : Option (List Token) :=
  match lexer.run (.text [] false) chars with
  | some (tokens, .text rest _) => if rest.all isBlank then some tokens else none
  | _ => none

example : lex "<a b=\"1\" c=\"x y\"><d/>p &amp; q</a>\n".toList =
    some [.opening ['a'] [(['b'], ['1']), (['c'], ['x', ' ', 'y'])], .opening ['d'] [],
      .closing ['d'], .text "p & q".toList, .closing ['a']] := by decide

example : lex "<a b=\"1\" b=\"2\"/>".toList = none := by decide

open Scanner

/-! ## Attributes -/

/-- A character that stands for itself in a value. -/
def IsPlain (ch : Char) : Prop :=
  ch ≠ '"' ∧ ch ≠ '&' ∧ ch ≠ '<' ∧ ch ≠ '\r' ∧ isXmlChar ch ∧ (isBlank ch = false ∨ ch = ' ')

instance : DecidablePred IsPlain := fun _ => inferInstanceAs (Decidable (_ ∧ _))

theorem reads_attrValue {chars : List Char} (hchars : ∀ ch ∈ chars, IsPlain ch)
    (name : List Char) (attrs : List Attr) (attr value : List Char) :
    Reads lexer (.attrValue name attrs attr value) chars []
      (.attrValue name attrs attr (value ++ chars)) := by
  have hstep : ∀ ch ∈ chars, ∀ acc, lexer (.attrValue name attrs attr acc) ch =
      some ([], .attrValue name attrs attr (acc ++ [ch])) := by
    intro ch hch acc
    obtain ⟨hquote, hamp, hlt, hreturn, hlegal, hblank⟩ := hchars ch hch
    have hkept : (if isBlank ch then ' ' else ch) = ch := by
      rcases hblank with hblank | rfl
      · rw [hblank]
        rfl
      · rfl
    rw [lexer, if_neg hquote, if_neg hamp, hkept]
    simp [hlt, hreturn, hlegal]
  have hcollect := @reads_collect _ _ lexer _ _ (fun ch => [ch]) (fun ch => [ch])
    (fun acc => Mode.attrValue name attrs attr acc) chars
    (fun ch hch acc => Reads.single (hstep ch hch acc)) value
  rwa [List.flatMap_singleton'] at hcollect

/-! ## Escaped text -/

/-- Line ends as line feeds: a carriage return with the line feed after it, or alone. -/
def lineEnds : Bool → List Char → List Char
  | _, [] => []
  | afterReturn, ch :: chars =>
      if ch = '\r' then '\n' :: lineEnds true chars
      else if ch = '\n' && afterReturn then lineEnds false chars
      else ch :: lineEnds false chars

example : lineEnds false "a\r\nb\rc\n\n".toList = "a\nb\nc\n\n".toList := by decide

/-- A character is dropped when no document may have it, else written as it is or as an
entity that stands for it. -/
def EscapesText (rewrite : Char → List Char) : Prop :=
  ∀ ch, (isXmlChar ch = false ∧ rewrite ch = []) ∨
    (isXmlChar ch ∧ ch ≠ '<' ∧ ch ≠ '&' ∧ ch ≠ '>' ∧ rewrite ch = [ch]) ∨
    ∃ name, predefined name = some ch ∧ rewrite ch = '&' :: (name ++ [';'])

theorem predefined_spec {name : List Char} {ch : Char} (h : predefined name = some ch) :
    (∀ c ∈ name, isNameChar c ∧ c ≠ ';') ∧ isXmlChar ch ∧ ch ≠ '\r' ∧ ch ≠ '\n' := by
  unfold predefined at h
  split_ifs at h with hamp hlt hgt hquot hapos <;>
    · obtain rfl := Option.some.inj h
      subst name
      exact ⟨List.all_iff_forall_prop.mp (by decide), by decide⟩

theorem reads_entity {name : List Char} {ch : Char} (h : predefined name = some ch)
    (chars : List Char) (afterReturn : Bool) :
    Reads lexer (.text chars afterReturn) ('&' :: (name ++ [';'])) []
      (.text (chars ++ [ch]) false) := by
  obtain ⟨hname, -⟩ := predefined_spec h
  have hstep : ∀ c ∈ name, ∀ acc, lexer (.entity chars acc) c =
      some ([], .entity chars (acc ++ [c])) := by
    intro c hc acc
    obtain ⟨hnameChar, hend⟩ := hname c hc
    rw [lexer, if_neg hend, if_pos hnameChar]
  have hcollect := @reads_collect _ _ lexer _ _ (fun c => [c]) (fun c => [c])
    (fun acc => Mode.entity chars acc) name (fun c hc acc => Reads.single (hstep c hc acc)) []
  rw [List.flatMap_singleton', List.nil_append] at hcollect
  have hend : lexer (.entity chars name) ';' = some ([], .text (chars ++ [ch]) false) := by
    rw [lexer, if_pos rfl, h]
    rfl
  exact Reads.skip rfl (hcollect.skip_append (Reads.single hend))

/-- Escaped text is read as the text, without what no document may have. -/
theorem EscapesText.reads {rewrite : Char → List Char} (hrewrite : EscapesText rewrite)
    (text chars : List Char) (afterReturn : Bool) :
    ∃ last, Reads lexer (.text chars afterReturn) (text.flatMap rewrite) []
      (.text (chars ++ lineEnds afterReturn (text.filter isXmlChar)) last) := by
  induction text generalizing chars afterReturn with
  | nil => exact ⟨afterReturn, by simpa [lineEnds] using Reads.nil _⟩
  | cons ch text ih =>
      rw [List.flatMap_cons]
      rcases hrewrite ch with ⟨hillegal, hnone⟩ | ⟨hlegal, hlt, hamp, hgt, hsame⟩ |
        ⟨name, hname, hentity⟩
      · rw [hnone, List.filter_cons_of_neg (by simp [hillegal])]
        exact ih chars afterReturn
      · rw [hsame, List.filter_cons_of_pos hlegal, lineEnds]
        by_cases hreturn : ch = '\r'
        · have hstep : lexer (.text chars afterReturn) ch =
              some ([], .text (chars ++ ['\n']) true) := by
            simp [lexer, hreturn, isXmlChar]
          obtain ⟨last, hrest⟩ := ih (chars ++ ['\n']) true
          rw [List.append_assoc] at hrest
          rw [if_pos hreturn]
          exact ⟨last, Reads.skip hstep hrest⟩
        · rw [if_neg hreturn]
          -- the line feed of a line end that is written as two characters is dropped
          by_cases hfeed : ch = '\n' && afterReturn
          · have hstep : lexer (.text chars afterReturn) ch = some ([], .text chars false) := by
              simp [lexer, hlt, hamp, hgt, hlegal, hreturn, hfeed]
            obtain ⟨last, hrest⟩ := ih chars false
            rw [if_pos hfeed]
            exact ⟨last, Reads.skip hstep hrest⟩
          · have hstep : lexer (.text chars afterReturn) ch =
                some ([], .text (chars ++ [ch]) false) := by
              simp [lexer, hlt, hamp, hgt, hlegal, hreturn, hfeed]
            obtain ⟨last, hrest⟩ := ih (chars ++ [ch]) false
            rw [List.append_assoc] at hrest
            rw [if_neg hfeed]
            exact ⟨last, Reads.skip hstep hrest⟩
      · obtain ⟨-, hlegal, hreturn, hfeed⟩ := predefined_spec hname
        obtain ⟨last, hrest⟩ := ih (chars ++ [ch]) false
        rw [List.append_assoc] at hrest
        rw [hentity, List.filter_cons_of_pos hlegal, lineEnds, if_neg hreturn,
          if_neg (by simp [hfeed])]
        exact ⟨last, (reads_entity hname chars afterReturn).skip_append hrest⟩

end Xml
