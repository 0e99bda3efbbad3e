import HabitatGraph.Foundation.Utf8Lines

/-! # Bounded lines

The daemon reads a line at a time from what the buffer of the socket holds, and gives
up a line that is too long before its end has arrived. The bytes that arrive with the
line feed are not counted, and a carriage return before it is counted when it arrives
earlier, so that what counts as too long depends on the chunks.
-/

namespace HabitatGraph

open DelimitedChunks Utf8Lines

/-- The line feed and the carriage return. -/
def newline : UInt8 := 10

def carriageReturn : UInt8 := 13

inductive ErrorKind
  | invalidData
deriving DecidableEq, Repr

structure IoError where
  kind : ErrorKind
  message : String
deriving DecidableEq, Repr

/-- What one read of the socket delivers. A read that delivers nothing is the end. -/
abbrev Chunk := {bytes : List UInt8 // bytes ≠ []}

/-- The chunks that are still to be consumed, the buffered one first. -/
abbrev Reader := List Chunk

/-- Drop bytes of the buffered chunk, and the chunk once it is used up. -/
def consume : Reader → Nat → Reader
  | [], _ => []
  | chunk :: chunks, count =>
      if hrest : chunk.1.drop count = [] then chunks else ⟨chunk.1.drop count, hrest⟩ :: chunks

abbrev ReadResult := Except IoError (Option (List UInt8))

def lineTooLong (maxBytes : Nat) : IoError :=
  ⟨.invalidData, "incoming line exceeded " ++ toString maxBytes ++ "-byte limit"⟩

/-- Drop one carriage return at the end. -/
def stripCarriageReturn (buf : List UInt8) : List UInt8 := stripLast carriageReturn buf

/-- Fill the buffer chunk by chunk until a line feed, the end or the limit. The lengths
of two slices do not add up to more than a word holds. -/
def readLoop (maxBytes : Nat) : Reader → List UInt8 → ReadResult × Reader
  | [], buf => (.ok (if buf.isEmpty then none else some buf), [])
  | avail :: chunks, buf =>
      match avail.1.findIdx? (· == newline) with
      | some nlPos =>
          (.ok (some (stripCarriageReturn (buf ++ avail.1.take nlPos))),
            consume (avail :: chunks) (nlPos + 1))
      | none =>
          if buf.length + avail.1.length > maxBytes then
            (.error (lineTooLong maxBytes), avail :: chunks)
          else readLoop maxBytes chunks (buf ++ avail.1)

/-- Read one line of at most `maxBytes` bytes. -/
def readBoundedLine (reader : Reader) (maxBytes : Nat) : ReadResult × Reader :=
  readLoop maxBytes reader []

/-- What repeated calls return, up to the end or the first error. -/
def readResults (maxBytes : Nat) : Nat → Reader → List ReadResult
  | 0, _ => []
  | calls + 1, reader =>
      match readBoundedLine reader maxBytes with
      | (.ok (some line), reader') => .ok (some line) :: readResults maxBytes calls reader'
      | (last, _) => [last]

/-- The content of a line. -/
def lineContent (line : Line UInt8) : List UInt8 := stripCarriageReturn line.all

/-! ## The lines of the whole stream -/

section Reference

variable {ι : Type*} (maxBytes : Nat) (content : ι → List UInt8)

/-- The results for some lines and the bytes after the last of them, when those that do
not fit are errors. -/
def boundedResults (fits : ι → Prop) [DecidablePred fits] : List ι → List UInt8 → List ReadResult
  | [], rest =>
      if rest.isEmpty then [.ok none]
      else if rest.length > maxBytes then [.error (lineTooLong maxBytes)]
      else [.ok (some rest), .ok none]
  | line :: lines, rest =>
      if fits line then .ok (some (content line)) :: boundedResults fits lines rest
      else [.error (lineTooLong maxBytes)]

/-- The lines of a stream, up to the first one whose content is too long. -/
def referenceResults (bytes : List UInt8) : List ReadResult :=
  boundedResults maxBytes stripCarriageReturn
    (fun line => (stripCarriageReturn line).length ≤ maxBytes)
    (cut newline bytes).1 (cut newline bytes).2

variable {maxBytes content}

theorem boundedResults_map {κ : Type*} (f : κ → ι) (fits : ι → Prop) [DecidablePred fits]
    (lines : List κ) (rest : List UInt8) :
    boundedResults maxBytes content fits (lines.map f) rest =
      boundedResults maxBytes (fun line => content (f line)) (fun line => fits (f line))
        lines rest := by
  induction lines with
  | nil => rfl
  | cons line lines ih => simp only [List.map_cons, boundedResults, ih]

theorem length_boundedResults_le (maxBytes : Nat) (content : ι → List UInt8) (fits : ι → Prop)
    [DecidablePred fits] (lines : List ι) (rest : List UInt8) :
    (boundedResults maxBytes content fits lines rest).length ≤
      lines.length + rest.length + 1 := by
  induction lines with
  | nil =>
      cases rest with
      | nil => exact Nat.le_refl 1
      | cons byte rest =>
          rw [boundedResults, if_neg (by simp)]
          split <;> simp
  | cons line lines ih =>
      rw [boundedResults]
      split
      next =>
        simp only [List.length_cons]
        omega
      next => simp

/-- Two limits give the same results when they agree on every line up to the first one
that does not fit. -/
theorem boundedResults_eq_iff {fits fits' : ι → Prop} [DecidablePred fits] [DecidablePred fits']
    {lines : List ι} {rest : List UInt8} :
    boundedResults maxBytes content fits lines rest =
        boundedResults maxBytes content fits' lines rest ↔
      ∀ before line after, lines = before ++ line :: after →
        (∀ earlier ∈ before, fits' earlier) → (fits line ↔ fits' line) := by
  induction lines with
  | nil => simp [boundedResults]
  | cons first lines ih =>
      have hsplit : (∀ before line after, first :: lines = before ++ line :: after →
            (∀ earlier ∈ before, fits' earlier) → (fits line ↔ fits' line)) ↔
          (fits first ↔ fits' first) ∧ (fits' first →
            ∀ before line after, lines = before ++ line :: after →
              (∀ earlier ∈ before, fits' earlier) → (fits line ↔ fits' line)) := by
        apply Iff.intro
        · intro h
          refine ⟨h [] first lines rfl (fun _ hmem => nomatch hmem), ?_⟩
          intro hfirst before line after hlines hbefore
          apply h (first :: before) line after (by rw [hlines, List.cons_append])
          exact List.forall_mem_cons.mpr ⟨hfirst, hbefore⟩
        · intro ⟨hfirst, htail⟩ before line after hlines hbefore
          cases before with
          | nil =>
              rw [List.nil_append, List.cons.injEq] at hlines
              rwa [← hlines.1]
          | cons head before =>
              rw [List.cons_append, List.cons.injEq] at hlines
              rw [← hlines.1, List.forall_mem_cons] at hbefore
              exact htail hbefore.1 before line after hlines.2 hbefore.2
      rw [hsplit, ← ih, boundedResults, boundedResults]
      by_cases hfits : fits first <;> by_cases hfits' : fits' first <;> simp [hfits, hfits']

end Reference

/-! ## What the calls return -/

/-- The bytes of the chunks. -/
def Reader.chunks (reader : Reader) : List (List UInt8) := reader.map Subtype.val

/-- The lines as the chunks carry them, and what is left after the last. -/
def Reader.lines (reader : Reader) (buf : List UInt8) : List (Line UInt8) × List UInt8 :=
  arrivals newline buf reader.chunks

/-- A line is read, and the reader is left at the next one. -/
theorem lines_consume {chunk : Chunk} {chunks : Reader} {buf line rest : List UInt8}
    (hline : newline ∉ line) (hchunk : chunk.1 = line ++ newline :: rest) :
    Reader.lines (chunk :: chunks) buf =
      (⟨buf, line⟩ :: (Reader.lines (consume (chunk :: chunks) (line.length + 1)) []).1,
        (Reader.lines (consume (chunk :: chunks) (line.length + 1)) []).2) := by
  have hdrop : chunk.1.drop (line.length + 1) = rest := by
    rw [hchunk, List.drop_append]
    simp
  have hlines : Reader.lines (consume (chunk :: chunks) (line.length + 1)) [] =
      arrivals newline [] (rest :: Reader.chunks chunks) := by
    rw [consume]
    split
    next hempty =>
      rw [← hdrop, hempty]
      rfl
    next hrest =>
      rw [← hdrop]
      rfl
  rw [hlines, Reader.lines, Reader.chunks, List.map_cons, hchunk, arrivals_append_cons hline]
  rfl

theorem findIdx?_of_notMem {bytes : List UInt8} (hbytes : newline ∉ bytes) :
    bytes.findIdx? (· == newline) = none := by
  rw [List.findIdx?_eq_none_iff]
  intro byte hbyte
  rw [beq_eq_false_iff_ne]
  exact fun heq => hbytes (heq ▸ hbyte)

theorem findIdx?_of_line {line rest : List UInt8} (hline : newline ∉ line) :
    (line ++ newline :: rest).findIdx? (· == newline) = some line.length := by
  rw [List.findIdx?_append, findIdx?_of_notMem hline]
  simp [List.findIdx?_cons]

/-- What a call returns when these lines and this rest are ahead. -/
def Returns (maxBytes : Nat) (result : ReadResult × Reader) :
    List (Line UInt8) × List UInt8 → Prop
  | ([], rest) =>
      if rest.length > maxBytes then result.1 = .error (lineTooLong maxBytes)
      else result = (.ok (if rest.isEmpty then none else some rest), [])
  | (line :: lines, rest) =>
      if line.carried.length ≤ maxBytes then
        result.1 = .ok (some (lineContent line)) ∧ result.2.lines [] = (lines, rest)
      else result.1 = .error (lineTooLong maxBytes)

/-- What is carried beyond the limit stays beyond it. -/
theorem returns_of_over {maxBytes : Nat} {reader reader' : Reader} {buf : List UInt8}
    (hover : buf.length > maxBytes) :
    Returns maxBytes (.error (lineTooLong maxBytes), reader') (reader.lines buf) := by
  have hcarried := length_carried_le newline buf reader.chunks
  unfold Reader.lines
  split at hcarried
  next rest hlines =>
    rw [hlines, Returns, if_pos (by omega)]
  next line lines rest hlines =>
    rw [hlines, Returns, if_neg (by omega)]

theorem readLoop_returns (maxBytes : Nat) (reader : Reader) {buf : List UInt8}
    (hbuf : newline ∉ buf) (hlength : buf.length ≤ maxBytes) :
    Returns maxBytes (readLoop maxBytes reader buf) (reader.lines buf) := by
  induction reader generalizing buf with
  | nil =>
      show Returns maxBytes _ ([], buf)
      rw [Returns, if_neg (by omega), readLoop]
  | cons chunk chunks ih =>
      by_cases hmem : newline ∈ chunk.1
      · obtain ⟨line, rest, hchunk, hline⟩ := List.eq_append_cons_of_mem hmem
        rw [lines_consume hline hchunk, Returns, if_pos hlength, readLoop, hchunk,
          findIdx?_of_line hline]
        exact ⟨by simp [lineContent, Line.all], rfl⟩
      · have hlines : Reader.lines (chunk :: chunks) buf =
            Reader.lines chunks (buf ++ chunk.1) := arrivals_of_notMem hmem
        rw [hlines, readLoop, findIdx?_of_notMem hmem]
        dsimp only
        split
        next hover =>
          apply returns_of_over
          rwa [List.length_append]
        next hfits =>
          apply ih
          · rw [List.mem_append, not_or]
            exact ⟨hbuf, hmem⟩
          · rw [List.length_append]
            omega

/-- What repeated calls return is what the lines are, each within the limit when what
is carried of it is. -/
theorem readResults_eq (maxBytes calls : Nat) (reader : Reader) :
    readResults maxBytes calls reader =
      (boundedResults maxBytes lineContent (fun line => line.carried.length ≤ maxBytes)
        (reader.lines []).1 (reader.lines []).2).take calls := by
  induction calls generalizing reader with
  | zero => rfl
  | succ calls ih =>
      have hreturns := readLoop_returns maxBytes reader
        (List.not_mem_nil (a := newline)) (Nat.zero_le _)
      rw [readResults, readBoundedLine]
      generalize readLoop maxBytes reader [] = result at hreturns ⊢
      generalize reader.lines [] = stream at hreturns ⊢
      match stream, hreturns with
      | ([], rest), hreturns =>
          rw [Returns] at hreturns
          rw [boundedResults]
          split at hreturns
          next hover =>
            have hrest : rest.isEmpty = false := by
              cases rest with
              | nil => simp at hover
              | cons => rfl
            rw [if_neg (by simp [hrest]), if_pos hover, ← Prod.eta result, hreturns,
              List.take_succ_cons, List.take_nil]
          next hfits =>
            rw [hreturns]
            by_cases hrest : rest.isEmpty
            · rw [if_pos hrest, if_pos hrest, List.take_succ_cons, List.take_nil]
            · rw [if_neg hrest, if_neg hrest, if_neg hfits]
              cases calls <;> simp [readResults, readBoundedLine, readLoop]
      | (line :: lines, rest), hreturns =>
          rw [Returns] at hreturns
          rw [boundedResults]
          split at hreturns
          next hfits =>
            have hnext := ih result.2
            rw [hreturns.2] at hnext
            rw [if_pos hfits, ← Prod.eta result, hreturns.1, List.take_succ_cons, ← hnext]
          next hover =>
            rw [if_neg hover, ← Prod.eta result, hreturns, List.take_succ_cons, List.take_nil]

/-! ## The limit and the content -/

/-- The whole stream. -/
def Reader.bytes (reader : Reader) : List UInt8 := reader.chunks.flatten

theorem lines_cut (reader : Reader) :
    ((reader.lines []).1.map Line.all, (reader.lines []).2) = cut newline reader.bytes :=
  arrivals_all (List.not_mem_nil (a := newline)) reader.chunks

/-- The reference counts the content of the lines that arrive. -/
theorem referenceResults_bytes (maxBytes : Nat) (reader : Reader) :
    referenceResults maxBytes reader.bytes =
      boundedResults maxBytes lineContent (fun line => (lineContent line).length ≤ maxBytes)
        (reader.lines []).1 (reader.lines []).2 := by
  rw [referenceResults, ← lines_cut, boundedResults_map]
  rfl

theorem length_lines_le (reader : Reader) :
    (reader.lines []).1.length + (reader.lines []).2.length ≤ reader.bytes.length := by
  have hcut := length_cut_le newline reader.bytes
  rwa [← lines_cut, List.length_map] at hcut

/-- The contents of the lines, the rest included. -/
def Reader.contents (reader : Reader) : List (List UInt8) :=
  (reader.lines []).1.map lineContent ++
    if (reader.lines []).2.isEmpty then [] else [(reader.lines []).2]

/-- Up to the first line whose content is too long, as much of a line is carried past
the limit as of its content. -/
def CapMeetsContent (maxBytes : Nat) (reader : Reader) : Prop :=
  ∀ before line after, (reader.lines []).1 = before ++ line :: after →
    (∀ earlier ∈ before, (lineContent earlier).length ≤ maxBytes) →
      (line.carried.length ≤ maxBytes ↔ (lineContent line).length ≤ maxBytes)

theorem eq_take_iff {α : Type*} {xs ys : List α} :
    (∀ n, xs.take n = ys.take n) ↔ xs = ys := by
  apply Iff.intro
  · intro h
    have htake := h (xs.length + ys.length)
    rwa [List.take_of_length_le (by omega), List.take_of_length_le (by omega)] at htake
  · intro heq n
    rw [heq]

/-- Repeated calls return the lines of the whole stream, up to the first one that is too
long, exactly when what is carried of a line meets the limit as its content does. The
bytes may come in any chunks, and the last line may lack its end. -/
theorem readResults_faithful_iff (maxBytes : Nat) (reader : Reader) :
    (∀ calls, readResults maxBytes calls reader =
        (referenceResults maxBytes reader.bytes).take calls) ↔
      CapMeetsContent maxBytes reader := by
  simp only [readResults_eq, eq_take_iff, referenceResults_bytes, boundedResults_eq_iff]
  rfl

/-- A line of five bytes passes a limit of four when it arrives with its line feed, and
does not when the line feed comes later. A line of four bytes does not pass when its
carriage return comes before its line feed. -/
theorem readResults_dependOnChunks :
    readResults 4 3 [⟨[97, 97, 97, 97, 97, 10], by decide⟩] =
      [.ok (some [97, 97, 97, 97, 97]), .ok none] ∧
    readResults 4 3 [⟨[97, 97, 97, 97, 97], by decide⟩, ⟨[10], by decide⟩] =
      [.error (lineTooLong 4)] ∧
    readResults 4 3 [⟨[97, 97, 97, 97, 13], by decide⟩, ⟨[10], by decide⟩] =
      [.error (lineTooLong 4)] ∧
    referenceResults 4 [97, 97, 97, 97, 13, 10] = [.ok (some [97, 97, 97, 97]), .ok none] ∧
    ¬ ∀ maxBytes reader calls, readResults maxBytes calls reader =
        (referenceResults maxBytes reader.bytes).take calls := by
  refine ⟨rfl, rfl, rfl, rfl, fun h => ?_⟩
  have hresults := h 4 [⟨[97, 97, 97, 97, 97, 10], by decide⟩] 1
  have hread : readResults 4 1 [⟨[97, 97, 97, 97, 97, 10], by decide⟩] =
      [.ok (some [97, 97, 97, 97, 97])] := rfl
  have hreference : (referenceResults 4
      (Reader.bytes [⟨[97, 97, 97, 97, 97, 10], by decide⟩])).take 1 =
      [.error (lineTooLong 4)] := rfl
  rw [hread, hreference] at hresults
  cases hresults

end HabitatGraph
