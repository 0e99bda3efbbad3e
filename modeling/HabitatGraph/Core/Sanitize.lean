import HabitatGraph.Foundation.Escaping
import HabitatGraph.Foundation.Template
import Mathlib.Data.String.Basic

/-! # Label sanitization and render safety

Labels are stripped of control characters and capped when stored, and every
text is escaped where it is rendered, so that no code point that can spoof a
rendering leaves the program raw.
-/

namespace HabitatGraph

open Escaping

/-- Maximum stored label length, in characters. -/
def maxLabelLen : Nat := 256

/-- A control character: U+0000 to U+001F and U+007F to U+009F. -/
def isControl (ch : Char) : Bool := ch.toNat ≤ 0x1F || (0x7F ≤ ch.toNat && ch.toNat ≤ 0x9F)

/-- Bidi overrides, embeddings, isolates and marks, zero-width characters, the
byte order mark, and control characters. -/
def isRenderDangerous (ch : Char) : Bool :=
  (0x202A ≤ ch.toNat && ch.toNat ≤ 0x202E) || (0x2066 ≤ ch.toNat && ch.toNat ≤ 0x2069) ||
    ch.toNat = 0x200E || ch.toNat = 0x200F || (0x200B ≤ ch.toNat && ch.toNat ≤ 0x200D) ||
    ch.toNat = 0xFEFF || isControl ch

/-- Hexadecimal digits in upper case, at least four of them. -/
def hex4 (n : Nat) : List Char :=
  let digits := (Nat.toDigits 16 n).map Char.toUpper
  List.replicate (4 - digits.length) '0' ++ digits

/-- The escape written for a dangerous code point. -/
def escapeChar (ch : Char) : List Char := ['\\', 'u', '\x7b'] ++ hex4 ch.toNat ++ ['\x7d']

/-- Escape every dangerous code point and leave other text untouched. -/
def displaySafe (input : String) : String :=
  String.ofList
    (input.toList.flatMap fun ch => if isRenderDangerous ch then escapeChar ch else [ch])

/-- Strip control characters and cap the length. -/
def sanitizeLabel (input : String) : String :=
  String.ofList ((input.toList.filter fun ch => !isControl ch).take maxLabelLen)

example : displaySafe (String.ofList ['a', Char.ofNat 0x202E]) = "a\\u\x7b202E\x7d" := by decide

/-! ## Safe text -/

/-- No code point of the text can spoof a rendering. -/
def RenderSafe (s : String) : Prop := Safe isRenderDangerous s.toList

instance (s : String) : Decidable (RenderSafe s) :=
  inferInstanceAs (Decidable (Safe isRenderDangerous s.toList))

@[simp] theorem renderSafe_append {s t : String} :
    RenderSafe (s ++ t) ↔ RenderSafe s ∧ RenderSafe t := by
  simp [RenderSafe]

theorem isRenderDangerous_of_isControl {ch : Char} (h : isControl ch) : isRenderDangerous ch := by
  simp [isRenderDangerous, h]

/-- The digits of a number in a base up to 16. -/
theorem exists_digitChar_of_mem_toDigits {base n : Nat} (hbase : 1 < base) {ch : Char}
    (h : ch ∈ Nat.toDigits base n) : ∃ d < base, ch = d.digitChar := by
  induction n using Nat.strong_induction_on with
  | _ n ih =>
      rw [Nat.toDigits_eq_if hbase] at h
      split at h
      next hlt => exact ⟨n, hlt, by simpa using h⟩
      next hle =>
        rcases List.mem_append.mp h with h | h
        · exact ih (n / base) (Nat.div_lt_self (by omega) hbase) h
        · exact ⟨n % base, Nat.mod_lt n (by omega), by simpa using h⟩

theorem renderSafe_digitChar : ∀ d < 16, isRenderDangerous d.digitChar = false ∧
    isRenderDangerous d.digitChar.toUpper = false := by decide

theorem safe_toDigits {base : Nat} (hbase : 1 < base) (hle : base ≤ 16) (n : Nat) :
    Safe isRenderDangerous (Nat.toDigits base n) := by
  intro ch hch
  obtain ⟨d, hd, rfl⟩ := exists_digitChar_of_mem_toDigits hbase hch
  exact (renderSafe_digitChar d (by omega)).1

theorem renderSafe_toString (n : Nat) : RenderSafe (toString n) := by
  simpa [RenderSafe, Nat.toString_eq_ofList_toDigits] using safe_toDigits (by decide) (by decide) n

theorem safe_hex4 (n : Nat) : Safe isRenderDangerous (hex4 n) := by
  simp only [hex4, safe_append]
  constructor
  · intro ch hch
    rw [List.eq_of_mem_replicate hch]
    decide
  · intro ch hch
    obtain ⟨digit, hdigit, rfl⟩ := List.mem_map.mp hch
    obtain ⟨d, hd, rfl⟩ := exists_digitChar_of_mem_toDigits (by decide) hdigit
    exact (renderSafe_digitChar d hd).2

/-- No escape holds a dangerous code point. -/
theorem safe_escapeChar (ch : Char) : Safe isRenderDangerous (escapeChar ch) := by
  simp only [escapeChar, safe_append]
  exact ⟨⟨by decide, safe_hex4 ch.toNat⟩, by decide⟩

theorem toList_displaySafe (input : String) :
    (displaySafe input).toList = escapeAll isRenderDangerous escapeChar input.toList := by
  simp [displaySafe, escapeAll]

theorem toList_sanitizeLabel (input : String) :
    (sanitizeLabel input).toList =
      (input.toList.filter fun ch => !isControl ch).take maxLabelLen := by
  simp [sanitizeLabel]

@[simp] theorem renderSafe_displaySafe (input : String) : RenderSafe (displaySafe input) := by
  rw [RenderSafe, toList_displaySafe]
  exact safe_escapeAll safe_escapeChar input.toList

/-- Safe text is shown as it is. -/
theorem displaySafe_eq_self {input : String} (h : RenderSafe input) :
    displaySafe input = input := by
  apply String.toList_inj.mp
  rw [toList_displaySafe, escapeAll_eq_self h]

theorem displaySafe_displaySafe (input : String) :
    displaySafe (displaySafe input) = displaySafe input :=
  displaySafe_eq_self (renderSafe_displaySafe input)

/-- Of safe text, sanitizing only cuts off what is too long. -/
theorem toList_sanitizeLabel_of_renderSafe {input : String} (h : RenderSafe input) :
    (sanitizeLabel input).toList = input.toList.take maxLabelLen := by
  rw [toList_sanitizeLabel, filter_eq_self_of_safe (fun _ => isRenderDangerous_of_isControl) h]

theorem renderSafe_sanitizeLabel {input : String} (h : RenderSafe input) :
    RenderSafe (sanitizeLabel input) := by
  rw [RenderSafe, toList_sanitizeLabel_of_renderSafe h]
  exact Safe.sublist h (List.take_sublist _ _)

@[simp] theorem clean_argument_iff {s : String} {text : Template.Text} :
    Template.Clean isRenderDangerous (.argument s :: text) ↔
      RenderSafe s ∧ Template.Clean isRenderDangerous text := Template.clean_argument_cons

/-! ## Characters as they are shown -/

def displayChar (ch : Char) : List Char := if isRenderDangerous ch then escapeChar ch else [ch]

theorem toList_displaySafe_flatMap (s : String) :
    (displaySafe s).toList = s.toList.flatMap displayChar := by
  rw [displaySafe, String.toList_ofList]
  rfl

theorem exists_digit_of_mem_hex4 {n : Nat} {ch : Char} (hch : ch ∈ hex4 n) :
    ∃ d < 16, ch = d.digitChar.toUpper := by
  rw [hex4, List.mem_append] at hch
  cases hch with
  | inl hzero => exact ⟨0, by decide, List.eq_of_mem_replicate hzero⟩
  | inr hdigit =>
      obtain ⟨digit, hmem, rfl⟩ := List.mem_map.mp hdigit
      obtain ⟨d, hd, rfl⟩ := exists_digitChar_of_mem_toDigits (by decide) hmem
      exact ⟨d, hd, rfl⟩

theorem notMem_hex4 (n : Nat) {ch : Char} (hch : ∀ d < 16, ch ≠ d.digitChar.toUpper) :
    ch ∉ hex4 n := by
  intro hmem
  obtain ⟨d, hd, heq⟩ := exists_digit_of_mem_hex4 hmem
  exact hch d hd heq

theorem notMem_displaySafe {ch : Char} (hch : isRenderDangerous ch) (s : String) :
    ch ∉ (displaySafe s).toList := by
  intro hmem
  have hsafe := renderSafe_displaySafe s ch hmem
  rw [hch] at hsafe
  cases hsafe

theorem notMem_flatMap_displayChar {ch : Char} (hch : isRenderDangerous ch) (chars : List Char) :
    ch ∉ chars.flatMap displayChar := by
  have hnot := notMem_displaySafe hch (String.ofList chars)
  rwa [toList_displaySafe_flatMap, String.toList_ofList] at hnot

/-! ## Exported text -/

/-- A label or a relation as the exporter writes it. -/
def exportedLabel (label : String) : String := displaySafe (sanitizeLabel label)

theorem renderSafe_exportedLabel (label : String) : RenderSafe (exportedLabel label) :=
  renderSafe_displaySafe _

theorem toList_exportedLabel_of_renderSafe {label : String} (h : RenderSafe label) :
    (exportedLabel label).toList = label.toList.take maxLabelLen := by
  rw [exportedLabel, displaySafe_eq_self (renderSafe_sanitizeLabel h),
    toList_sanitizeLabel_of_renderSafe h]

/-- Safe text is exported as it is exactly when it is short enough. -/
theorem exportedLabel_eq_self_iff {label : String} (h : RenderSafe label) :
    exportedLabel label = label ↔ label.length ≤ maxLabelLen := by
  rw [← String.toList_inj, toList_exportedLabel_of_renderSafe h, ← String.length_toList]
  constructor
  · intro heq
    simpa using congrArg List.length heq
  · exact List.take_of_length_le

/-- Exporting an exported text cuts off its escapes where they made it too long. -/
theorem exportedLabel_exportedLabel_iff (label : String) :
    exportedLabel (exportedLabel label) = exportedLabel label ↔
      (exportedLabel label).length ≤ maxLabelLen :=
  exportedLabel_eq_self_iff (renderSafe_exportedLabel label)

theorem length_exportedLabel_exportedLabel (label : String) :
    (exportedLabel (exportedLabel label)).length =
      min maxLabelLen (exportedLabel label).length := by
  have htake := toList_exportedLabel_of_renderSafe (renderSafe_exportedLabel label)
  have hlength := congrArg List.length htake
  rwa [List.length_take, String.length_toList, String.length_toList] at hlength

end HabitatGraph
