import HabitatGraph.Extract.MarkdownFences

/-! # Spans of Markdown headings

The spans are meant to point into the file, and they are counted in its text. A
replacement can be longer than the bytes it stands for, and from there on the spans
point behind what they should. Before that, and in any file that is UTF-8, they are the
bytes of their heading.
-/

namespace HabitatGraph

namespace TextExtractor

open Positions Utf8Lines

/-! ## What a span should be -/

/-- The bytes of a span. -/
def spanBytes (source : List UInt8) (span : Span) : List UInt8 :=
  (source.drop span.startByte.toNat).take (span.endByte.toNat - span.startByte.toNat)

/-- The span of a node is a line of the file, and the line is the heading of the node. -/
structure PointsToHeading (tables : CaseTables) (b : String) (source : List UInt8)
    (node : RawNode) : Prop where
  ordered : node.span.startByte.toNat ≤ node.span.endByte.toNat
  inside : node.span.endByte.toNat ≤ source.length
  begins : node.span.startByte.toNat = 0 ∨
    source[node.span.startByte.toNat - 1]? = some lineFeed
  ends : node.span.endByte.toNat = source.length ∨
    source[node.span.endByte.toNat]? = some lineFeed
  oneLine : lineFeed ∉ spanBytes source node.span
  heading : headingLabel tables b (stripCr (lossyChars (spanBytes source node.span))) =
    some node.label
  line : node.span.startLine.toNat =
    (source.take node.span.startByte.toNat).count lineFeed + 1

/-- The heading nodes of a file, which come after its own node. -/
def headingNodes (tables : CaseTables) (path : String) (source : List UInt8) : List RawNode :=
  (extract tables path source).nodes.tail

/-- The name of the file's own node. -/
def fileLabel (tables : CaseTables) (path : String) : String :=
  String.ofList (stemLower tables path.toList)

/-- Every heading has the span of its line. -/
def SpansPointIntoFile (tables : CaseTables) (path : String) (source : List UInt8) : Prop :=
  ∀ node ∈ headingNodes tables path source,
    PointsToHeading tables (fileLabel tables path) source node

/-! ## Offsets in the file and in its text -/

theorem decodedLength_ended_append (before : List (List UInt8)) (rest : List UInt8) :
    decodedLength (ended lineFeed before ++ rest) =
      offsetAfter (before.map lossyChars) + decodedLength rest := by
  induction before with
  | nil => exact (Nat.zero_add _).symm
  | cons line before ih =>
      have hended : ended lineFeed (line :: before) ++ rest =
          line ++ lineFeed :: (ended lineFeed before ++ rest) := by
        simp [ended]
      rw [hended, decodedLength_append_lineFeed, ih, List.map_cons, offsetAfter, offsetAfter,
        List.map_cons, List.sum_cons, decodedLength]
      omega

theorem decodedLength_ended (before : List (List UInt8)) :
    decodedLength (ended lineFeed before) = offsetAfter (before.map lossyChars) := by
  have happend := decodedLength_ended_append before []
  rwa [List.append_nil] at happend

/-- Decoding leaves a line where it is: what is before it is as long as its text, and so
is the line, up to the largest offset. -/
def OffsetsKept (before : List (List UInt8)) (line : List UInt8) : Prop :=
  decodedLength (ended lineFeed before) = (ended lineFeed before).length ∧
    min (decodedLength (ended lineFeed before ++ line)) (2 ^ 32 - 1) =
      (ended lineFeed before ++ line).length

theorem toNat_lineSpan (before : List (List UInt8)) (line : List UInt8) :
    (lineSpan (before.map lossyChars) (lossyChars line)).startByte.toNat =
        min (decodedLength (ended lineFeed before)) (2 ^ 32 - 1) ∧
      (lineSpan (before.map lossyChars) (lossyChars line)).endByte.toNat =
        min (decodedLength (ended lineFeed before ++ line)) (2 ^ 32 - 1) ∧
      (lineSpan (before.map lossyChars) (lossyChars line)).startLine.toNat =
        min (before.length + 1) (2 ^ 32 - 1) := by
  rw [decodedLength_ended, decodedLength_ended_append, lineSpan, toNat_u32OrMax, toNat_u32OrMax,
    toNat_u32OrMax, List.length_map]
  exact ⟨rfl, rfl, rfl⟩

section Line

variable (tables : CaseTables) (b sourceFile : String)
variable {before : List (List UInt8)} {line rest : List UInt8} {span : Span} {label : String}

theorem ne_nil_of_headingLabel
    (hlabel : headingLabel tables b (stripCr (lossyChars line)) = some label) : line ≠ [] := by
  rintro rfl
  cases hlabel

/-- A span that begins and ends no earlier than a line, and has its number, is the line. -/
theorem span_eq_of_pointsToHeading (hrest : ∀ x ∈ rest.head?, x = lineFeed)
    (hcount : (ended lineFeed before).count lineFeed = before.length)
    (hstart : (ended lineFeed before).length ≤ span.startByte.toNat)
    (hend : (ended lineFeed before).length + line.length ≤ span.endByte.toNat)
    (hnumber : span.startLine.toNat = before.length + 1)
    (hpoints : PointsToHeading tables b (ended lineFeed before ++ (line ++ rest))
      ⟨label, sourceFile, span⟩) :
    span.startByte.toNat = (ended lineFeed before).length ∧
      span.endByte.toNat = (ended lineFeed before).length + line.length := by
  obtain ⟨_, hinside, hbegins, _, hone, _, hline⟩ := hpoints
  dsimp only at hinside hbegins hone hline
  have hfirst : span.startByte.toNat = (ended lineFeed before).length := by
    apply eq_length_of_count_take (a := lineFeed) hstart hbegins
    rw [hcount]
    omega
  rw [spanBytes, hfirst, List.drop_left] at hone
  rw [List.length_append] at hinside
  have hlast := eq_length_of_notMem_take hrest (by omega) (by omega) hone
  exact ⟨hfirst, by omega⟩

/-- The span of a line points to the heading that the line is. -/
theorem pointsToHeading_of_span_eq (hpiece : lineFeed ∉ line)
    (hrest : ∀ x ∈ rest.head?, x = lineFeed)
    (hcount : (ended lineFeed before).count lineFeed = before.length)
    (hlabel : headingLabel tables b (stripCr (lossyChars line)) = some label)
    (hfirst : span.startByte.toNat = (ended lineFeed before).length)
    (hlast : span.endByte.toNat = (ended lineFeed before).length + line.length)
    (hnumber : span.startLine.toNat = before.length + 1) :
    PointsToHeading tables b (ended lineFeed before ++ (line ++ rest))
      ⟨label, sourceFile, span⟩ := by
  have hbytes : spanBytes (ended lineFeed before ++ (line ++ rest)) span = line := by
    rw [spanBytes, hfirst, hlast, List.drop_left, Nat.add_sub_cancel_left, List.take_left]
  refine ⟨?_, ?_, ?_, ?_, ?_, ?_, ?_⟩ <;> dsimp only
  · omega
  · rw [hlast, List.length_append, List.length_append]
    omega
  · rw [hfirst]
    by_cases hnil : before = []
    · left
      rw [hnil]
      rfl
    · right
      have hended := getLast?_ended lineFeed hnil
      have hpos := List.length_pos_of_ne_nil (List.ne_nil_of_mem (List.mem_of_getLast? hended))
      rw [List.getElem?_append_left (by omega), ← List.getLast?_eq_getElem?, hended]
  · rw [hlast]
    cases rest with
    | nil =>
        left
        rw [List.append_nil, List.length_append]
    | cons x back =>
        right
        rw [List.getElem?_append_right (Nat.le_add_right _ _), Nat.add_sub_cancel_left,
          List.getElem?_append_right (Nat.le_refl _), Nat.sub_self, List.getElem?_cons_zero,
          hrest x rfl]
  · rwa [hbytes]
  · rwa [hbytes]
  · rw [hfirst, List.take_left, hcount, hnumber]

/-- A heading has the span of its line exactly when decoding leaves the line where it
is. -/
theorem pointsToHeading_iff {source : List UInt8} {p : List (List UInt8) × List UInt8}
    (hlength : source.length < 2 ^ 32) (hp : p ∈ positions (source.splitOn lineFeed))
    (hlabel : headingLabel tables b (stripCr (lossyChars p.2)) = some label) :
    PointsToHeading tables b source
        ⟨label, sourceFile, lineSpan (p.1.map lossyChars) (lossyChars p.2)⟩ ↔
      OffsetsKept p.1 p.2 := by
  obtain ⟨hpiece, hcount, rest, hsource, hrest⟩ := eq_of_mem_positions_splitOn hp
  obtain ⟨hstart, hend, hline⟩ := toNat_lineSpan p.1 p.2
  have hpos := List.length_pos_of_ne_nil (ne_nil_of_headingLabel tables b hlabel)
  have hfront := length_le_decodedLength (ended lineFeed p.1)
  have hthrough := length_le_decodedLength (ended lineFeed p.1 ++ p.2)
  have hlines : p.1.length ≤ (ended lineFeed p.1).length := hcount ▸ List.count_le_length
  have hmax : source.length ≤ 2 ^ 32 - 1 := Nat.le_sub_one_of_lt hlength
  rw [hsource, List.length_append, List.length_append] at hmax
  rw [List.length_append] at hthrough
  rw [OffsetsKept, List.length_append, hsource]
  -- only that the file is no longer than the largest offset matters
  generalize 2 ^ 32 - 1 = largest at hstart hend hline hmax ⊢
  constructor
  · intro hpoints
    have hspan := span_eq_of_pointsToHeading tables b sourceFile hrest hcount
      (by omega) (by omega) (by omega) hpoints
    omega
  · intro hkept
    exact pointsToHeading_of_span_eq tables b sourceFile hpiece hrest hcount hlabel
      (by omega) (by omega) (by omega)

end Line

/-! ## When the spans are right -/

variable (tables : CaseTables) (path : String) (source : List UInt8)

theorem decodedLines_eq : decodedLines source = (source.splitOn lineFeed).map lossyChars := by
  rw [decodedLines, toList_fromUtf8Lossy, splitOn_lossyChars]

theorem headingNodes_eq
    (hmarkdown : isMarkdownExt (tables.toLowercase ((fileExtension path.toList).getD []))) :
    headingNodes tables path source = (positions (source.splitOn lineFeed)).filterMap fun p =>
      if openMark (p.1.map lossyChars) = none then
        headingNode tables (fileLabel tables path) path (p.1.map lossyChars, lossyChars p.2)
      else none := by
  rw [headingNodes, extract, if_pos hmarkdown, parseMarkdown, scan_nodes, ← decodedLines,
    decodedLines_eq, positions_map, List.filterMap_map]
  rfl

variable {path source}

theorem spansPointIntoFile_of_kept
    (hmarkdown : isMarkdownExt (tables.toLowercase ((fileExtension path.toList).getD [])))
    (hlength : source.length < 2 ^ 32)
    (hkept : ∀ p ∈ positions (source.splitOn lineFeed), openMark (p.1.map lossyChars) = none →
      (headingLabel tables (fileLabel tables path) (stripCr (lossyChars p.2))).isSome →
        OffsetsKept p.1 p.2) :
    SpansPointIntoFile tables path source := by
  intro node hnode
  rw [headingNodes_eq tables path source hmarkdown] at hnode
  obtain ⟨p, hp, hheading⟩ := List.mem_filterMap.mp hnode
  split at hheading
  next hmark =>
    obtain ⟨label, hlabel, rfl⟩ := Option.map_eq_some_iff.mp hheading
    rw [pointsToHeading_iff tables _ path hlength hp hlabel]
    exact hkept p hp hmark (by rw [hlabel]; rfl)
  next => cases hheading

variable (path source)

/-- The spans of the headings are right exactly when decoding leaves every line that is
reported as a heading where it is. The bytes of the file are arbitrary, and fewer than
2^32. -/
theorem spansPointIntoFile_iff
    (hmarkdown : isMarkdownExt (tables.toLowercase ((fileExtension path.toList).getD [])))
    (hlength : source.length < 2 ^ 32) :
    SpansPointIntoFile tables path source ↔
      ∀ p ∈ positions (source.splitOn lineFeed), openMark (p.1.map lossyChars) = none →
        (headingLabel tables (fileLabel tables path) (stripCr (lossyChars p.2))).isSome →
          OffsetsKept p.1 p.2 := by
  refine ⟨fun hspans p hp hmark hheading => ?_,
    spansPointIntoFile_of_kept tables hmarkdown hlength⟩
  obtain ⟨label, hlabel⟩ := Option.isSome_iff_exists.mp hheading
  rw [← pointsToHeading_iff tables _ path hlength hp hlabel]
  apply hspans
  rw [headingNodes_eq tables path source hmarkdown, List.mem_filterMap]
  exact ⟨p, hp, by rw [if_pos hmark, headingNode, hlabel, Option.map_some]⟩

/-- A heading at the start of a file, and a byte after it that is no text. -/
theorem spansPointIntoFile_iff_invalid :
    SpansPointIntoFile asciiTables "a.md" [0x23, 0x20, 0x41, 0x0A, 0xFF] ↔
      ∀ p ∈ positions (List.splitOn lineFeed [0x23, 0x20, 0x41, 0x0A, 0xFF]),
        openMark (p.1.map lossyChars) = none →
          (headingLabel asciiTables (fileLabel asciiTables "a.md")
            (stripCr (lossyChars p.2))).isSome → OffsetsKept p.1 p.2 :=
  spansPointIntoFile_iff asciiTables "a.md" [0x23, 0x20, 0x41, 0x0A, 0xFF] (by decide) (by decide)

theorem offsetsKept_of_decodedLength_eq (hlength : source.length < 2 ^ 32)
    (hdecoded : decodedLength source = source.length) {p : List (List UInt8) × List UInt8}
    (hp : p ∈ positions (source.splitOn lineFeed)) : OffsetsKept p.1 p.2 := by
  obtain ⟨-, -, rest, hsource, hrest⟩ := eq_of_mem_positions_splitOn hp
  have hrestLength : decodedLength p.2 + rest.length ≤ decodedLength (p.2 ++ rest) := by
    cases rest with
    | nil => rw [List.append_nil, List.length_nil, Nat.add_zero]
    | cons x back =>
        have hback := length_le_decodedLength back
        rw [hrest x rfl, decodedLength_append_lineFeed, List.length_cons]
        omega
  have hfront := length_le_decodedLength (ended lineFeed p.1)
  have hline := length_le_decodedLength p.2
  have hthrough := decodedLength_ended_append p.1 p.2
  have hmax : source.length ≤ 2 ^ 32 - 1 := Nat.le_sub_one_of_lt hlength
  rw [hsource, decodedLength_ended_append, List.length_append, List.length_append,
    ← decodedLength_ended] at hdecoded
  rw [hsource, List.length_append, List.length_append] at hmax
  rw [← decodedLength_ended] at hthrough
  rw [OffsetsKept, List.length_append, hthrough]
  have hkept : decodedLength (ended lineFeed p.1) = (ended lineFeed p.1).length ∧
      decodedLength p.2 = p.2.length := by omega
  rw [hkept.1, hkept.2]
  exact ⟨rfl, Nat.min_eq_left (Nat.le_trans (by omega) hmax)⟩

/-- In a file that is UTF-8 the spans of the headings are right. -/
theorem spansPointIntoFile_of_encode (chars : List Char)
    (hmarkdown : isMarkdownExt (tables.toLowercase ((fileExtension path.toList).getD [])))
    (hlength : (encode chars).length < 2 ^ 32) :
    SpansPointIntoFile tables path (encode chars) := by
  apply spansPointIntoFile_of_kept tables hmarkdown hlength
  intro p hp _ _
  exact offsetsKept_of_decodedLength_eq _ hlength (decodedLength_encode chars) hp

/-! ## A byte that is no text -/

/-- A line that is no text, and a heading after it. -/
def invalidThenHeading : List UInt8 := [0xFF, 0x0A, 0x23, 0x20, 0x41]

/-- The span of the heading begins in its line and ends after the file. -/
theorem invalidThenHeading_spans :
    headingNodes asciiTables "a.md" invalidThenHeading = [⟨"a_a", "a.md", ⟨4, 7, 2, 2⟩⟩] ∧
      ¬ SpansPointIntoFile asciiTables "a.md" invalidThenHeading := by
  have hnodes : headingNodes asciiTables "a.md" invalidThenHeading =
      [⟨"a_a", "a.md", ⟨4, 7, 2, 2⟩⟩] := by decide +kernel
  refine ⟨hnodes, fun hspans => ?_⟩
  have hinside := (hspans _ (by rw [hnodes]; exact List.mem_singleton_self _)).inside
  exact absurd hinside (by decide)

end TextExtractor

end HabitatGraph
