import HabitatGraph.Foundation.Utf8Lines
import Mathlib.Data.List.TakeWhile

/-! # Text of the standard library

Blanks are those of Unicode for a string and those of ASCII for a byte. Bytes that are
not UTF-8 are read with a replacement character for every sequence that is cut short.
-/

namespace HabitatGraph

open DelimitedChunks Utf8Lines

/-- A character with the `White_Space` property. -/
def isWhitespace (ch : Char) : Bool :=
  let n := ch.toNat
  (0x09 ≤ n && n ≤ 0x0D) || n == 0x20 || n == 0x85 || n == 0xA0 || n == 0x1680 ||
    (0x2000 ≤ n && n ≤ 0x200A) || n == 0x2028 || n == 0x2029 || n == 0x202F || n == 0x205F ||
    n == 0x3000

/-- The blanks of ASCII, without the vertical tab. -/
def isAsciiWhitespace (byte : UInt8) : Bool :=
  byte == 0x20 || byte == 0x09 || byte == 0x0A || byte == 0x0C || byte == 0x0D

/-- The text without the blanks at its ends. -/
def trim (s : String) : String :=
  String.ofList (((s.toList.dropWhile isWhitespace).reverse.dropWhile isWhitespace).reverse)

/-- Nothing is left of a text exactly when all of it is blank. -/
theorem trim_isEmpty_iff {s : String} : (trim s).isEmpty ↔ s.toList.all isWhitespace := by
  rw [trim, String.isEmpty_iff, ← String.toList_eq_nil_iff, String.toList_ofList,
    List.reverse_eq_nil_iff, List.dropWhile_eq_nil_iff]
  simp only [List.mem_reverse, List.all_eq_true]
  apply Iff.intro
  · intro h ch hch
    rw [← List.takeWhile_append_dropWhile (p := isWhitespace) (l := s.toList),
      List.mem_append] at hch
    cases hch with
    | inl htake => exact List.mem_takeWhile_imp htake
    | inr hdrop => exact h ch hdrop
  · intro h ch hch
    exact h ch ((List.dropWhile_sublist _).subset hch)

/-- The lines of a text, without the carriage return before a line feed, and the rest
after the last line feed if there is one. -/
def textLines (chars : List Char) : List (List Char) :=
  (cut '\n' chars).1.map (stripLast '\r') ++
    if (cut '\n' chars).2.isEmpty then [] else [(cut '\n' chars).2]

/-- Lines of text, each with its line feed. -/
def unlines (lines : List String) : String :=
  String.ofList (lines.flatMap fun line => line.toList ++ ['\n'])

/-- A byte that continues a sequence. -/
def isContinuation (byte : UInt8) : Bool := 0x80 ≤ byte && byte ≤ 0xBF

/-- The second byte may follow the first of a sequence of three or four. -/
def secondFits (first second : UInt8) : Bool :=
  if first == 0xE0 then 0xA0 ≤ second && second ≤ 0xBF
  else if first == 0xED then 0x80 ≤ second && second ≤ 0x9F
  else if first == 0xF0 then 0x90 ≤ second && second ≤ 0xBF
  else if first == 0xF4 then 0x80 ≤ second && second ≤ 0x8F
  else isContinuation second

/-- The length of the sequence that is cut short at the front of some bytes. -/
def invalidLength (bytes : List UInt8) : Nat :=
  let first := bytes.getD 0 0
  let second := bytes.getD 1 0
  let third := bytes.getD 2 0
  if 0xE0 ≤ first && first ≤ 0xEF then
    if secondFits first second then 2 else 1
  else if 0xF0 ≤ first && first ≤ 0xF4 then
    if secondFits first second then if isContinuation third then 3 else 2 else 1
  else 1

/-- Decode character by character, with a replacement for what is no character. -/
def decodeLossy : Nat → List UInt8 → List Char
  | 0, _ => []
  | _ + 1, [] => []
  | fuel + 1, byte :: bytes =>
      match (byte :: bytes).toByteArray.utf8DecodeChar? 0 with
      | some ch => ch :: decodeLossy fuel ((byte :: bytes).drop ch.utf8Size)
      | none => '\uFFFD' :: decodeLossy fuel ((byte :: bytes).drop (invalidLength (byte :: bytes)))

/-- The text of some bytes, with replacements where they are not UTF-8. -/
def fromUtf8Lossy (bytes : List UInt8) : String :=
  match decode? bytes with
  | some s => s
  | none => String.ofList (decodeLossy bytes.length bytes)

theorem fromUtf8Lossy_encode (chars : List Char) :
    fromUtf8Lossy (encode chars) = String.ofList chars := by
  rw [fromUtf8Lossy, decode?_encode]

end HabitatGraph
