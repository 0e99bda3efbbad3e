import HabitatGraph.Core.Text

/-! # Lossy decoding

Bytes are decoded one character at a time, with a replacement for every sequence that is
cut short. A line feed is never part of such a sequence, so decoding goes line by line.
A replacement is three bytes long, and what it replaces is one to three.
-/

namespace HabitatGraph

open Utf8Lines

/-- The byte of a line feed. -/
def lineFeed : UInt8 := 0x0A

/-- A character is decoded where its bytes are. -/
theorem utf8DecodeChar?_eq_some_iff {bytes : List UInt8} {ch : Char} :
    bytes.toByteArray.utf8DecodeChar? 0 = some ch ↔
      ∃ rest, bytes = String.utf8EncodeChar ch ++ rest := by
  constructor
  · intro hdecode
    obtain ⟨rest, hrest⟩ := ByteArray.exists_of_utf8DecodeChar?_eq_some hdecode
    refine ⟨rest.data.toList, List.toByteArray_inj.mp ?_⟩
    rw [hrest, List.toByteArray_append]
    congr 1
    apply ByteArray.ext
    rw [List.data_toByteArray]
  · rintro ⟨rest, rfl⟩
    rw [List.toByteArray_append]
    exact ByteArray.utf8DecodeChar?_utf8EncodeChar_append

/-- The first character of some bytes, or its replacement, and how many bytes it takes. -/
def firstChar (bytes : List UInt8) : Char × Nat :=
  match bytes.toByteArray.utf8DecodeChar? 0 with
  | some ch => (ch, ch.utf8Size)
  | none => ('\uFFFD', invalidLength bytes)

theorem invalidLength_pos (bytes : List UInt8) : 0 < invalidLength bytes := by
  unfold invalidLength
  dsimp only
  repeat' split
  all_goals omega

theorem firstChar_snd_pos (bytes : List UInt8) : 0 < (firstChar bytes).2 := by
  unfold firstChar
  split
  next ch _ => exact ch.utf8Size_pos
  next => exact invalidLength_pos bytes

theorem decodeLossy_succ (fuel : Nat) (byte : UInt8) (bytes : List UInt8) :
    decodeLossy (fuel + 1) (byte :: bytes) =
      (firstChar (byte :: bytes)).1 ::
        decodeLossy fuel ((byte :: bytes).drop (firstChar (byte :: bytes)).2) := by
  rw [decodeLossy, firstChar]
  split <;> simp [*]

/-- Fuel for every byte is enough. -/
theorem decodeLossy_eq {fuel fuel' : Nat} {bytes : List UInt8} (hfuel : bytes.length ≤ fuel)
    (hfuel' : bytes.length ≤ fuel') : decodeLossy fuel bytes = decodeLossy fuel' bytes := by
  induction fuel generalizing fuel' bytes with
  | zero =>
      rw [List.length_eq_zero_iff.mp (Nat.le_zero.mp hfuel)]
      cases fuel' <;> rfl
  | succ fuel ih =>
      cases bytes with
      | nil => cases fuel' <;> rfl
      | cons byte bytes =>
          obtain ⟨fuel', rfl⟩ : ∃ n, fuel' = n + 1 :=
            Nat.exists_eq_add_one.mpr (Nat.lt_of_lt_of_le (Nat.succ_pos _) hfuel')
          have hpos := firstChar_snd_pos (byte :: bytes)
          rw [decodeLossy_succ, decodeLossy_succ]
          congr 1
          rw [List.length_cons] at hfuel hfuel'
          apply ih <;> rw [List.length_drop, List.length_cons] <;> omega

/-- The characters of some bytes, with replacements. -/
def lossyChars (bytes : List UInt8) : List Char := decodeLossy bytes.length bytes

@[simp] theorem lossyChars_nil : lossyChars [] = [] := rfl

theorem lossyChars_cons (byte : UInt8) (bytes : List UInt8) :
    lossyChars (byte :: bytes) =
      (firstChar (byte :: bytes)).1 ::
        lossyChars ((byte :: bytes).drop (firstChar (byte :: bytes)).2) := by
  have hpos := firstChar_snd_pos (byte :: bytes)
  rw [lossyChars, List.length_cons, decodeLossy_succ, lossyChars]
  congr 1
  apply decodeLossy_eq
  · rw [List.length_drop, List.length_cons]
    omega
  · exact Nat.le_refl _

/-- Decoding takes the first character off, and goes on with the rest. -/
@[elab_as_elim]
theorem decodeInduction {motive : List UInt8 → Prop} (nil : motive [])
    (cons : ∀ byte bytes, motive ((byte :: bytes).drop (firstChar (byte :: bytes)).2) →
      motive (byte :: bytes)) (bytes : List UInt8) : motive bytes := by
  induction hlength : bytes.length using Nat.strong_induction_on generalizing bytes with
  | _ n ih =>
      cases bytes with
      | nil => exact nil
      | cons byte bytes =>
          have hpos := firstChar_snd_pos (byte :: bytes)
          apply cons
          apply ih _ _ _ rfl
          rw [← hlength, List.length_drop, List.length_cons]
          omega

/-! ## Valid bytes -/

theorem firstChar_encodeChar (ch : Char) (rest : List UInt8) :
    firstChar (String.utf8EncodeChar ch ++ rest) = (ch, ch.utf8Size) := by
  rw [firstChar, utf8DecodeChar?_eq_some_iff.mpr ⟨rest, rfl⟩]

theorem lossyChars_encodeChar (ch : Char) (rest : List UInt8) :
    lossyChars (String.utf8EncodeChar ch ++ rest) = ch :: lossyChars rest := by
  obtain ⟨byte, bytes, hbytes⟩ := List.exists_cons_of_ne_nil
    (List.append_ne_nil_of_left_ne_nil (String.utf8EncodeChar_ne_nil (c := ch)) rest)
  rw [hbytes, lossyChars_cons, ← hbytes, firstChar_encodeChar]
  dsimp only
  rw [← String.length_utf8EncodeChar, List.drop_left]

theorem lossyChars_encode (chars : List Char) : lossyChars (encode chars) = chars := by
  induction chars with
  | nil => rfl
  | cons ch chars ih => rw [encode_cons, lossyChars_encodeChar, ih]

theorem toList_fromUtf8Lossy (bytes : List UInt8) :
    (fromUtf8Lossy bytes).toList = lossyChars bytes := by
  unfold fromUtf8Lossy
  split
  next s hdecode => rw [decode?_eq_some_iff.mp hdecode, lossyChars_encode]
  next => exact String.toList_ofList

/-! ## Lines -/

theorem encodeChar_lineFeed : String.utf8EncodeChar '\n' = [lineFeed] := by decide

/-- A line feed in the bytes of a character is all of them. -/
theorem eq_of_lineFeed_mem_encodeChar {ch : Char}
    (hmem : lineFeed ∈ String.utf8EncodeChar ch) : ch = '\n' :=
  (mem_encodeChar_iff (d := '\n') (by decide)).mp hmem

theorem utf8DecodeChar?_append_lineFeed {bytes : List UInt8} (hne : bytes ≠ [])
    (rest : List UInt8) :
    (bytes ++ lineFeed :: rest).toByteArray.utf8DecodeChar? 0 =
      bytes.toByteArray.utf8DecodeChar? 0 := by
  ext ch
  rw [utf8DecodeChar?_eq_some_iff, utf8DecodeChar?_eq_some_iff]
  constructor
  · intro ⟨rest', hrest⟩
    rcases List.append_eq_append_iff.mp hrest with ⟨more, hencode, hafter⟩ | ⟨more, hbytes, -⟩
    · cases more with
      | nil => exact ⟨[], by rw [hencode]; simp⟩
      | cons byte more =>
          -- the character would go on after the line feed
          obtain ⟨rfl, -⟩ := List.cons.inj hafter
          have hch : ch = '\n' :=
            eq_of_lineFeed_mem_encodeChar (hencode ▸ List.mem_append_right _ List.mem_cons_self)
          have hlength := congrArg List.length hencode
          rw [hch, encodeChar_lineFeed, List.length_append] at hlength
          have hpos := List.length_pos_of_ne_nil hne
          simp only [List.length_cons, List.length_nil] at hlength
          omega
    · exact ⟨more, hbytes⟩
  · rintro ⟨rest', rfl⟩
    exact ⟨rest' ++ lineFeed :: rest, List.append_assoc _ _ _⟩

/-- Neither a line feed nor the end of the bytes goes on with a sequence. -/
theorem secondFits_eq_false {first second : UInt8} (hsecond : second < 0x80) :
    secondFits first second = false := by
  have hlow (bound : UInt8) (hbound : 0x80 ≤ bound) : decide (bound ≤ second) = false := by
    rw [decide_eq_false_iff_not, UInt8.not_le]
    exact UInt8.lt_of_lt_of_le hsecond hbound
  unfold secondFits isContinuation
  repeat' split
  all_goals simp [hlow]

/-- A sequence that is cut short by a line feed is cut short as by the end. -/
theorem invalidLength_append_lineFeed {bytes : List UInt8} (hne : bytes ≠ [])
    (rest : List UInt8) : invalidLength (bytes ++ lineFeed :: rest) = invalidLength bytes := by
  match bytes, hne with
  | [first], _ =>
      have hlineFeed : secondFits first lineFeed = false := secondFits_eq_false (by decide)
      have hzero : secondFits first 0 = false := secondFits_eq_false (by decide)
      unfold invalidLength
      simp [hlineFeed, hzero]
  | [first, second], _ =>
      have hlineFeed : isContinuation lineFeed = false := by decide
      have hzero : isContinuation 0 = false := by decide
      unfold invalidLength
      simp [hlineFeed, hzero]
  | first :: second :: third :: bytes, _ => rfl

theorem invalidLength_le {bytes : List UInt8} (hne : bytes ≠ []) :
    invalidLength bytes ≤ bytes.length := by
  match bytes, hne with
  | [first], _ =>
      have hzero : secondFits first 0 = false := secondFits_eq_false (by decide)
      unfold invalidLength
      simp [hzero]
  | [first, second], _ =>
      have hzero : isContinuation 0 = false := by decide
      unfold invalidLength
      dsimp only
      repeat' split
      all_goals simp_all
  | first :: second :: third :: bytes, _ =>
      unfold invalidLength
      dsimp only
      repeat' split
      all_goals simp

theorem invalidLength_le_three (bytes : List UInt8) : invalidLength bytes ≤ 3 := by
  unfold invalidLength
  dsimp only
  repeat' split
  all_goals omega

theorem firstChar_append_lineFeed {bytes : List UInt8} (hne : bytes ≠ []) (rest : List UInt8) :
    firstChar (bytes ++ lineFeed :: rest) = firstChar bytes := by
  unfold firstChar
  rw [utf8DecodeChar?_append_lineFeed hne, invalidLength_append_lineFeed hne]

theorem firstChar_snd_le {bytes : List UInt8} (hne : bytes ≠ []) :
    (firstChar bytes).2 ≤ bytes.length := by
  unfold firstChar
  split
  next ch hdecode =>
    obtain ⟨rest, rfl⟩ := utf8DecodeChar?_eq_some_iff.mp hdecode
    rw [List.length_append, String.length_utf8EncodeChar]
    exact Nat.le_add_right _ _
  next => exact invalidLength_le hne

/-- Decoding does not look past a line feed. -/
theorem lossyChars_append_lineFeed (bytes rest : List UInt8) :
    lossyChars (bytes ++ lineFeed :: rest) = lossyChars bytes ++ '\n' :: lossyChars rest := by
  induction bytes using decodeInduction with
  | nil =>
      have hencode : lineFeed :: rest = String.utf8EncodeChar '\n' ++ rest := by
        rw [encodeChar_lineFeed, List.singleton_append]
      rw [List.nil_append, hencode, lossyChars_encodeChar]
      rfl
  | cons byte bytes ih =>
      have hne : byte :: bytes ≠ [] := List.cons_ne_nil _ _
      have hfirst := firstChar_append_lineFeed hne rest
      rw [List.cons_append] at hfirst ⊢
      rw [lossyChars_cons, lossyChars_cons, hfirst, ← List.cons_append,
        List.drop_append_of_le_length (firstChar_snd_le hne), ih, List.cons_append]

theorem lineFeed_mem_of_mem_lossyChars {bytes : List UInt8} (hmem : '\n' ∈ lossyChars bytes) :
    lineFeed ∈ bytes := by
  induction bytes using decodeInduction with
  | nil => cases hmem
  | cons byte bytes ih =>
      rw [lossyChars_cons] at hmem
      rcases List.mem_cons.mp hmem with hfirst | hrest
      · unfold firstChar at hfirst
        split at hfirst
        next ch hdecode =>
          obtain ⟨rest, hbytes⟩ := utf8DecodeChar?_eq_some_iff.mp hdecode
          rw [hbytes, show ch = '\n' from hfirst.symm, encodeChar_lineFeed]
          exact List.mem_cons_self
        next =>
          have hne : '\n' ≠ '\uFFFD' := by decide
          exact absurd hfirst hne
      · exact List.mem_of_mem_drop (ih hrest)

/-- The lines of decoded bytes are the decoded lines. -/
theorem splitOn_lossyChars (bytes : List UInt8) :
    (lossyChars bytes).splitOn '\n' = (bytes.splitOn lineFeed).map lossyChars := by
  induction hlength : bytes.length using Nat.strong_induction_on generalizing bytes with
  | _ n ih =>
      by_cases hmem : lineFeed ∈ bytes
      · obtain ⟨before, after, rfl, -⟩ := List.eq_append_cons_of_mem hmem
        rw [List.length_append, List.length_cons] at hlength
        rw [lossyChars_append_lineFeed, List.splitOn_append_cons_self,
          List.splitOn_append_cons_self, List.map_append, ih before.length (by omega) before rfl,
          ih after.length (by omega) after rfl]
      · have hchars : '\n' ∉ lossyChars bytes :=
          fun hchar => hmem (lineFeed_mem_of_mem_lossyChars hchar)
        rw [List.splitOn_eq_singleton hmem, List.splitOn_eq_singleton hchars, List.map_singleton]

/-! ## Lengths -/

/-- How many bytes the text of some bytes takes. -/
def decodedLength (bytes : List UInt8) : Nat := (encode (lossyChars bytes)).length

/-- Replacements are never shorter than what they replace. -/
theorem length_le_decodedLength (bytes : List UInt8) : bytes.length ≤ decodedLength bytes := by
  induction bytes using decodeInduction with
  | nil => exact Nat.zero_le _
  | cons byte bytes ih =>
      have hle := firstChar_snd_le (List.cons_ne_nil byte bytes)
      have hfirst : (firstChar (byte :: bytes)).2 ≤
          (String.utf8EncodeChar (firstChar (byte :: bytes)).1).length := by
        unfold firstChar
        split
        next ch _ => exact (String.length_utf8EncodeChar ch).ge
        next => exact invalidLength_le_three _
      rw [decodedLength, lossyChars_cons, encode_cons, List.length_append, ← decodedLength]
      rw [List.length_drop] at ih
      omega

theorem decodedLength_append_lineFeed (bytes rest : List UInt8) :
    decodedLength (bytes ++ lineFeed :: rest) = decodedLength bytes + 1 + decodedLength rest := by
  simp only [decodedLength, lossyChars_append_lineFeed, encode_append, encode_cons,
    encodeChar_lineFeed, List.length_append, List.length_singleton]
  omega

/-- Valid bytes are as long as their text. -/
theorem decodedLength_encode (chars : List Char) :
    decodedLength (encode chars) = (encode chars).length := by
  rw [decodedLength, lossyChars_encode]

end HabitatGraph
