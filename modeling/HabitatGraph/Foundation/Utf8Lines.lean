import HabitatGraph.Foundation.DelimitedChunks
import Mathlib.Data.List.Induction

/-! # UTF-8 and ASCII delimiters

The bytes of an ASCII character occur in an encoded text only where the character
does. Cutting an encoded text at such a byte is cutting the text at the character.
-/

namespace Utf8Lines

open DelimitedChunks

/-- The bytes of a text. -/
def encode (chars : List Char) : List UInt8 := chars.flatMap String.utf8EncodeChar

/-- The byte of an ASCII character. -/
def asciiByte (ch : Char) : UInt8 := UInt8.ofNat ch.toNat

@[simp] theorem encode_nil : encode [] = [] := rfl

@[simp] theorem encode_cons (ch : Char) (chars : List Char) :
    encode (ch :: chars) = String.utf8EncodeChar ch ++ encode chars := rfl

@[simp] theorem encode_append (chars chars' : List Char) :
    encode (chars ++ chars') = encode chars ++ encode chars' := List.flatMap_append

theorem encodeChar_ascii {ch : Char} (hch : ch.toNat < 128) :
    String.utf8EncodeChar ch = [asciiByte ch] := by
  have hle : ch.val.toNat ≤ 0x7f := Nat.le_of_lt_succ hch
  rw [String.utf8EncodeChar, if_pos hle]
  rfl

theorem length_le_encode (chars : List Char) : chars.length ≤ (encode chars).length := by
  induction chars with
  | nil => exact Nat.le_refl 0
  | cons ch chars ih =>
      have hpos := List.length_pos_of_ne_nil (String.utf8EncodeChar_ne_nil (c := ch))
      rw [encode_cons, List.length_append, List.length_cons]
      omega

/-- Every byte of another character has its high bit set. -/
theorem le_of_mem_encodeChar {ch : Char} (hch : 128 ≤ ch.toNat) {byte : UInt8}
    (hbyte : byte ∈ String.utf8EncodeChar ch) : 128 ≤ byte.toNat := by
  have hlt : ¬ ch.val.toNat ≤ 0x7f := Nat.not_le.mpr hch
  rw [String.utf8EncodeChar, if_neg hlt] at hbyte
  split at hbyte
  next =>
    simp only [List.mem_cons, List.not_mem_nil, or_false] at hbyte
    rcases hbyte with rfl | rfl <;> simp only [UInt8.toNat_ofNat'] <;> omega
  next =>
    split at hbyte
    next =>
      simp only [List.mem_cons, List.not_mem_nil, or_false] at hbyte
      rcases hbyte with rfl | rfl | rfl <;> simp only [UInt8.toNat_ofNat'] <;> omega
    next =>
      simp only [List.mem_cons, List.not_mem_nil, or_false] at hbyte
      rcases hbyte with rfl | rfl | rfl | rfl <;> simp only [UInt8.toNat_ofNat'] <;> omega

theorem toNat_asciiByte {ch : Char} (hch : ch.toNat < 128) : (asciiByte ch).toNat = ch.toNat := by
  rw [asciiByte, UInt8.toNat_ofNat']
  omega

theorem asciiByte_inj {ch ch' : Char} (hch : ch.toNat < 128) (hch' : ch'.toNat < 128)
    (heq : asciiByte ch = asciiByte ch') : ch = ch' := by
  have hnat := congrArg UInt8.toNat heq
  rw [toNat_asciiByte hch, toNat_asciiByte hch'] at hnat
  exact Char.toNat_inj.mp hnat

/-- Drop one `x` at the end. -/
def stripLast {α : Type*} [DecidableEq α] (x : α) (xs : List α) : List α :=
  if xs.getLast? = some x then xs.dropLast else xs

section Delimiter

variable {d : Char} (hd : d.toNat < 128)

include hd

theorem mem_encodeChar_iff {ch : Char} : asciiByte d ∈ String.utf8EncodeChar ch ↔ ch = d := by
  by_cases hch : ch.toNat < 128
  · rw [encodeChar_ascii hch, List.mem_singleton]
    exact ⟨fun heq => (asciiByte_inj hd hch heq).symm, fun heq => by rw [heq]⟩
  · apply Iff.intro
    · intro hmem
      have hle := le_of_mem_encodeChar (Nat.not_lt.mp hch) hmem
      rw [toNat_asciiByte hd] at hle
      omega
    · intro heq
      exact absurd (heq ▸ hd) hch

/-- The lines of an encoded text are the encoded lines. -/
theorem cut_encode (chars : List Char) :
    cut (asciiByte d) (encode chars) =
      ((cut d chars).1.map encode, encode (cut d chars).2) := by
  induction chars with
  | nil => rfl
  | cons ch chars ih =>
      rw [encode_cons, cut]
      split
      next heq =>
        rw [heq, encodeChar_ascii hd, List.singleton_append, cut, if_pos rfl, ih]
        rfl
      next hne =>
        rw [cut_carried (by rwa [mem_encodeChar_iff hd]), ih]
        cases (cut d chars).1 <;> rfl

theorem getLast?_encode_iff {chars : List Char} :
    (encode chars).getLast? = some (asciiByte d) ↔ chars.getLast? = some d := by
  cases chars using List.reverseRecOn with
  | nil => simp
  | append_singleton chars ch =>
      have hne : String.utf8EncodeChar ch ≠ [] := String.utf8EncodeChar_ne_nil
      rw [encode_append, encode_cons, encode_nil, List.append_nil,
        List.getLast?_append_of_ne_nil _ hne, List.getLast?_concat, Option.some.injEq]
      apply Iff.intro
      · intro hlast
        exact (mem_encodeChar_iff hd).mp (List.mem_of_getLast? hlast)
      · intro heq
        rw [heq, encodeChar_ascii hd]
        rfl

theorem stripLast_encode (chars : List Char) :
    stripLast (asciiByte d) (encode chars) = encode (stripLast d chars) := by
  rw [stripLast, stripLast]
  split
  next hlast =>
    rw [getLast?_encode_iff hd] at hlast
    rw [if_pos hlast]
    obtain ⟨front, rfl⟩ := List.getLast?_eq_some_iff.mp hlast
    simp [encodeChar_ascii hd]
  next hlast =>
    rw [getLast?_encode_iff hd] at hlast
    rw [if_neg hlast]

omit hd in
/-- Bytes that are all ASCII are those of ASCII characters. -/
theorem all_encode {p : UInt8 → Bool} (hp : ∀ byte, p byte → byte.toNat < 128)
    (chars : List Char) :
    (encode chars).all p = chars.all fun ch => decide (ch.toNat < 128) && p (asciiByte ch) := by
  induction chars with
  | nil => rfl
  | cons ch chars ih =>
      rw [encode_cons, List.all_append, List.all_cons, ih]
      congr 1
      by_cases hch : ch.toNat < 128
      · simp [encodeChar_ascii hch, hch]
      · simp only [hch, decide_false, Bool.false_and]
        rw [List.all_eq_false]
        obtain ⟨byte, hbyte⟩ := List.exists_mem_of_ne_nil _ (String.utf8EncodeChar_ne_nil (c := ch))
        refine ⟨byte, hbyte, fun hpass => ?_⟩
        have hle := le_of_mem_encodeChar (Nat.not_lt.mp hch) hbyte
        exact absurd (hp byte hpass) (Nat.not_lt.mpr hle)

end Delimiter

/-! ## Decoding -/

/-- The text of some bytes, if they are the bytes of one. -/
def decode? (bytes : List UInt8) : Option String := String.fromUTF8? bytes.toByteArray

theorem decode?_encode (chars : List Char) :
    decode? (encode chars) = some (String.ofList chars) := by
  have hbytes : (encode chars).toByteArray = (String.ofList chars).toByteArray := by
    rw [String.toByteArray_ofList]
    rfl
  rw [decode?, hbytes, String.fromUTF8?, dif_pos (String.ofList chars).isValidUTF8]
  rfl

/-- Bytes decode to a text exactly when they are its bytes. -/
theorem decode?_eq_some_iff {bytes : List UInt8} {s : String} :
    decode? bytes = some s ↔ bytes = encode s.toList := by
  apply Iff.intro
  · intro hdecode
    rw [decode?, String.fromUTF8?] at hdecode
    split at hdecode
    next hvalid =>
      have hbytes : s.toByteArray = (encode s.toList).toByteArray := by
        conv_lhs => rw [← String.ofList_toList (s := s), String.toByteArray_ofList]
        rfl
      rw [← Option.some.inj hdecode] at hbytes ⊢
      exact List.toByteArray_inj.mp hbytes
    next => cases hdecode
  · rintro rfl
    rw [decode?_encode, String.ofList_toList]

end Utf8Lines
