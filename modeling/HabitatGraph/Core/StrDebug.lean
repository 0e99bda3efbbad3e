import HabitatGraph.Core.Sanitize

/-! # The debug form of a string

`{:?}` quotes a string and escapes what is not printable. What counts as
printable is read off the Unicode tables of the standard library, of which only
this is assumed: control and format characters are not printable.
-/

namespace HabitatGraph

open Escaping

/-- What the standard library's tables say of a character. -/
structure UnicodeTables where
  isPrintable : Char → Bool
  isGraphemeExtended : Char → Bool

/-- The ranges of format characters (general category Cf). -/
def formatRanges : List (Nat × Nat) :=
  [(0xAD, 0xAD), (0x600, 0x605), (0x61C, 0x61C), (0x6DD, 0x6DD), (0x70F, 0x70F), (0x890, 0x891),
    (0x8E2, 0x8E2), (0x180E, 0x180E), (0x200B, 0x200F), (0x202A, 0x202E), (0x2060, 0x2064),
    (0x2066, 0x206F), (0xFEFF, 0xFEFF), (0xFFF9, 0xFFFB), (0x110BD, 0x110BD), (0x110CD, 0x110CD),
    (0x13430, 0x1343F), (0x1BCA0, 0x1BCA3), (0x1D173, 0x1D17A), (0xE0001, 0xE0001),
    (0xE0020, 0xE007F)]

/-- Control and format characters. -/
def isControlOrFormat (ch : Char) : Bool :=
  isControl ch || formatRanges.any fun range => range.1 ≤ ch.toNat && ch.toNat ≤ range.2

/-- No control or format character is printable. -/
def UnicodeTables.HidesFormat (tables : UnicodeTables) : Prop :=
  ∀ ch, isControlOrFormat ch → tables.isPrintable ch = false

variable (tables : UnicodeTables)

/-- The escape by code point, in lower case and without padding. -/
def escapeUnicode (ch : Char) : List Char :=
  ['\\', 'u', '\x7b'] ++ Nat.toDigits 16 ch.toNat ++ ['\x7d']

/-- A character as it stands in the debug form of a string. -/
def debugChar (ch : Char) : List Char :=
  match ch with
  | '\x00' => ['\\', '0']
  | '\t' => ['\\', 't']
  | '\r' => ['\\', 'r']
  | '\n' => ['\\', 'n']
  | '\\' => ['\\', '\\']
  | '"' => ['\\', '"']
  | ch =>
      if tables.isGraphemeExtended ch then escapeUnicode ch
      else if tables.isPrintable ch then [ch]
      else escapeUnicode ch

/-- The debug form of a string. -/
def strDebug (s : String) : String :=
  String.ofList ('"' :: s.toList.flatMap (debugChar tables) ++ ['"'])

variable {tables}

theorem isControlOrFormat_of_isRenderDangerous {ch : Char} (h : isRenderDangerous ch) :
    isControlOrFormat ch := by
  cases hcontrol : isControl ch with
  | true => simp [isControlOrFormat, hcontrol]
  | false =>
      simp only [isRenderDangerous, hcontrol, Bool.or_eq_true, Bool.and_eq_true,
        decide_eq_true_eq, Bool.false_eq_true, or_false] at h
      simp only [isControlOrFormat, hcontrol, formatRanges, List.any_cons, List.any_nil,
        Bool.or_eq_true, Bool.and_eq_true, decide_eq_true_eq]
      omega

theorem safe_escapeUnicode (ch : Char) : Safe isRenderDangerous (escapeUnicode ch) := by
  simp only [escapeUnicode, safe_append]
  exact ⟨⟨by decide, safe_toDigits (by decide) (by decide) ch.toNat⟩, by decide⟩

theorem safe_debugChar (htables : tables.HidesFormat) (ch : Char) :
    Safe isRenderDangerous (debugChar tables ch) := by
  unfold debugChar
  split
  all_goals try decide
  split
  next => exact safe_escapeUnicode _
  next =>
    split
    next hprintable =>
      -- a printable character is neither a control nor a format character
      rw [safe_cons]
      refine ⟨Bool.eq_false_iff.mpr fun hdangerous => ?_, safe_nil⟩
      have hhidden := htables _ (isControlOrFormat_of_isRenderDangerous hdangerous)
      rw [hprintable] at hhidden
      cases hhidden
    next => exact safe_escapeUnicode _

/-- The debug form of a string shows nothing that can spoof a rendering. -/
theorem renderSafe_strDebug (htables : tables.HidesFormat) (s : String) :
    RenderSafe (strDebug tables s) := by
  simp only [RenderSafe, strDebug, String.toList_ofList, safe_cons, safe_append, safe_flatMap]
  exact ⟨⟨by decide, fun ch _ => safe_debugChar htables ch⟩, by decide⟩

/-- Tables that know ASCII only. -/
def asciiTables : UnicodeTables where
  isPrintable ch := 0x20 ≤ ch.toNat && ch.toNat ≤ 0x7E
  isGraphemeExtended _ := false

theorem hidesFormat_asciiTables : asciiTables.HidesFormat := by
  intro ch hch
  simp only [isControlOrFormat, isControl, formatRanges, List.any_cons, List.any_nil,
    Bool.or_eq_true, Bool.and_eq_true, decide_eq_true_eq, Bool.false_eq_true, or_false] at hch
  simp only [asciiTables, Bool.and_eq_false_iff, decide_eq_false_iff_not]
  omega

example : strDebug asciiTables "say \"hi\"\n" = "\"say \\\"hi\\\"\\n\"" := by decide

end HabitatGraph
