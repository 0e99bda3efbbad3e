import HabitatGraph.Core.LossyText
import HabitatGraph.Core.Offsets
import HabitatGraph.Extract.Paths
import HabitatGraph.Foundation.Positions
import Mathlib.Algebra.GroupWithZero.Nat
import Mathlib.Data.List.DropRight

/-! # The Markdown extractor

The text is scanned line by line with one piece of state: the character of the open
fence, if a fence is open. Outside a fence a heading becomes a node and links become
edges. Offsets are summed up over the decoded text.
-/

namespace HabitatGraph

namespace TextExtractor

open Positions Splitting Utf8Lines

/-- The tables of the standard library that the extractor looks characters up in. -/
structure CaseTables where
  toLowercase : List Char → List Char
  isAlphanumeric : Char → Bool

/-- `text.trim_end()`. -/
def trimEnd (text : List Char) : List Char := text.rdropWhile isWhitespace

section Lines

variable (tables : CaseTables)

/-- One character of a slug: letters and digits are kept, a run of others is one `_`. -/
def slugStep (state : List Char × Bool) (ch : Char) : List Char × Bool :=
  if tables.isAlphanumeric ch then (state.1 ++ [ch], false)
  else if !state.2 then (state.1 ++ ['_'], true)
  else state

def makeSlug (text : List Char) : List Char :=
  ((tables.toLowercase text).foldl (slugStep tables) ([], true)).1.rdropWhile (· == '_')

/-- Drop a closing sequence of hashes that blanks stand before. -/
def stripTrailingHashes (text : List Char) : List Char :=
  let trimmed := trimEnd text
  let beforeHashes := trimmed.rdropWhile (· == '#')
  if beforeHashes.isEmpty then trimmed
  else if beforeHashes.length < trimmed.length ∧
      (beforeHashes.getLast? = some ' ' ∨ beforeHashes.getLast? = some '\t') then
    trimEnd beforeHashes
  else trimmed

/-- The text of a heading: one to six hashes, then a blank or the end of the line. -/
def parseAtxHeading (line : List Char) : Option (List Char) :=
  let hashCount := (line.takeWhile (· == '#')).length
  if hashCount = 0 ∨ 6 < hashCount then none
  else match line.drop hashCount with
    | [] => some []
    | first :: content =>
        if first ≠ ' ' ∧ first ≠ '\t' then none
        else some (trimEnd (stripTrailingHashes content))

/-- The character of a fence marker: three or more backticks or tildes after at most
three spaces. -/
def detectFenceMarker (line : List Char) : Option Char :=
  let trimmed := line.dropWhile (· == ' ')
  if 3 < line.length - trimmed.length then none
  else if ['`', '`', '`'].isPrefixOf trimmed then some '`'
  else if ['~', '~', '~'].isPrefixOf trimmed then some '~'
  else none

/-- The target of a link at the front of a text, and what follows the link. -/
def parseLinkAt (s : List Char) : Option (List Char × List Char) :=
  (splitOnce? [']'] s).bind fun parts =>
    match parts.2 with
    | '(' :: remaining => splitOnce? [')'] remaining
    | _ => none

/-- A target without its title, fragment and query. -/
def cleanTarget (url : List Char) : List Char :=
  let trimmed := (trim (String.ofList url)).toList
  ((trimmed.takeWhile (· != ' ')).takeWhile (· != '#')).takeWhile (· != '?')

def isRelativeMdLink (url : List Char) : Bool :=
  let trimmed := (trim (String.ofList url)).toList
  if "http://".toList.isPrefixOf trimmed || "https://".toList.isPrefixOf trimmed ||
      ['#'].isPrefixOf trimmed then false
  else (fileExtension (cleanTarget url)).any fun ext =>
    ext.map Char.toLower = "md".toList ∨ ext.map Char.toLower = "markdown".toList

/-- `stem_lower`. -/
def stemLower (path : List Char) : List Char := tables.toLowercase ((fileStem path).getD [])

def mdLinkStem (url : List Char) : List Char := stemLower tables (cleanTarget url)

/-- The stems that the links of a line lead to. -/
def linkStems : Nat → List Char → List (List Char)
  | 0, _ => []
  | fuel + 1, line =>
      match line.dropWhile (· != '[') with
      | [] => []
      | bracket :: text =>
          match parseLinkAt (bracket :: text) with
          | some (url, after) =>
              (if isRelativeMdLink url ∧ mdLinkStem tables url ≠ [] then [mdLinkStem tables url]
                else []) ++ linkStems fuel after
          | none => linkStems fuel text

end Lines

/-! ## The scan -/

section Scan

variable (tables : CaseTables) (b sourceFile : String)

/-- The variables of the loop over the lines. -/
structure Scan where
  fence : Option Char
  byteOffset : UInt32
  lineNo : UInt32
  result : Extraction

/-- `references` edges for the links of a line. -/
def extractMdLinks (line : List Char) (result : Extraction) : Extraction :=
  { result with edges := result.edges ++ (linkStems tables (line.length + 1) line).map fun stem =>
      ⟨b, String.ofList stem, "references", .extracted⟩ }

/-- The label of a heading, if the line is one and its slug is not empty. -/
def headingLabel (line : List Char) : Option String :=
  (parseAtxHeading line).bind fun headingText =>
    let slug := makeSlug tables headingText
    if slug.isEmpty then none else some (b ++ "_" ++ String.ofList slug)

/-- A heading becomes a node with an edge from the file. -/
def pushHeading (span : Span) (line : List Char) (result : Extraction) : Extraction :=
  match headingLabel tables b line with
  | some label =>
      { nodes := result.nodes ++ [⟨label, sourceFile, span⟩]
        edges := result.edges ++ [⟨b, label, "contains", .extracted⟩] }
  | none => result

/-- The line without the carriage returns at its end. -/
def stripCr (rawLine : List Char) : List Char := rawLine.rdropWhile (· == '\r')

/-- A marker opens a fence, or closes the one of its character. -/
def toggleFence (fence : Option Char) (fenceChar : Char) : Option Char :=
  match fence with
  | none => some fenceChar
  | some c => if c = fenceChar then none else some c

/-- One line. -/
def scanLine (st : Scan) (rawLine : List Char) : Scan :=
  let lineNo := u32SaturatingAdd st.lineNo 1
  let lineBytes := u32OrMax (encode rawLine).length
  let line := stripCr rawLine
  let nextOffset := u32SaturatingAdd (u32SaturatingAdd st.byteOffset lineBytes) 1
  match detectFenceMarker line with
  | some fenceChar =>
      { st with fence := toggleFence st.fence fenceChar, byteOffset := nextOffset, lineNo }
  | none =>
      let span : Span :=
        ⟨st.byteOffset, u32SaturatingAdd st.byteOffset lineBytes, lineNo, lineNo⟩
      let result := if st.fence.isNone then
          extractMdLinks tables b line (pushHeading tables b sourceFile span line st.result)
        else st.result
      { st with byteOffset := nextOffset, lineNo, result }

/-- The scan of some lines, from the start of a text. -/
def scan (rawLines : List (List Char)) (result : Extraction) : Scan :=
  rawLines.foldl (scanLine tables b sourceFile) ⟨none, 0, 0, result⟩

/-- Headings and links of a Markdown text. -/
def parseMarkdown (source : List UInt8) (result : Extraction) : Extraction :=
  (scan tables b sourceFile ((fromUtf8Lossy source).toList.splitOn '\n') result).result

end Scan

def isMarkdownExt (ext : List Char) : Bool :=
  ext == "md".toList || ext == "markdown".toList

/-- The node of the file, and for Markdown what its text holds. -/
def extract (tables : CaseTables) (path : String) (source : List UInt8) : Extraction :=
  let b := String.ofList (stemLower tables path.toList)
  let fileNode : RawNode :=
    ⟨b, path, ⟨0, u32OrMax source.length, 1, u32OrMax (source.splitOn lineFeed).length⟩⟩
  let ext := tables.toLowercase ((fileExtension path.toList).getD [])
  if isMarkdownExt ext then parseMarkdown tables b path source ⟨[fileNode], []⟩
  else ⟨[fileNode], []⟩

/-! ## The scan, line by line -/

/-- Where the line after some lines begins, in bytes of the decoded text. -/
def offsetAfter (before : List (List Char)) : Nat :=
  (before.map fun line => (encode line).length + 1).sum

/-- The span of a line of the decoded text. -/
def lineSpan (before : List (List Char)) (rawLine : List Char) : Span where
  startByte := u32OrMax (offsetAfter before)
  endByte := u32OrMax (offsetAfter before + (encode rawLine).length)
  startLine := u32OrMax (before.length + 1)
  endLine := u32OrMax (before.length + 1)

section ScanLemmas

variable (tables : CaseTables) (b sourceFile : String)

/-- The node of a line that is a heading. -/
def headingNode (p : List (List Char) × List Char) : Option RawNode :=
  (headingLabel tables b (stripCr p.2)).map fun label => ⟨label, sourceFile, lineSpan p.1 p.2⟩

/-- The marks of the lines that are fence markers. -/
def markers (rawLines : List (List Char)) : List Char :=
  rawLines.filterMap fun rawLine => detectFenceMarker (stripCr rawLine)

theorem scan_concat (before : List (List Char)) (rawLine : List Char) (result : Extraction) :
    scan tables b sourceFile (before ++ [rawLine]) result =
      scanLine tables b sourceFile (scan tables b sourceFile before result) rawLine := by
  rw [scan, List.foldl_append]
  rfl

theorem scanLine_position (st : Scan) (rawLine : List Char) :
    (scanLine tables b sourceFile st rawLine).lineNo = u32SaturatingAdd st.lineNo 1 ∧
      (scanLine tables b sourceFile st rawLine).byteOffset =
        u32SaturatingAdd
          (u32SaturatingAdd st.byteOffset (u32OrMax (encode rawLine).length)) 1 := by
  unfold scanLine
  dsimp only
  split <;> exact ⟨rfl, rfl⟩

/-- The scan counts lines and bytes of the decoded text, up to the largest offset. -/
theorem scan_position (before : List (List Char)) (result : Extraction) :
    (scan tables b sourceFile before result).lineNo = u32OrMax before.length ∧
      (scan tables b sourceFile before result).byteOffset = u32OrMax (offsetAfter before) := by
  have hone : (1 : UInt32) = u32OrMax 1 := by decide
  induction before using List.reverseRecOn with
  | nil => exact ⟨rfl, rfl⟩
  | append_singleton before rawLine ih =>
      obtain ⟨hlineNo, hoffset⟩ := scanLine_position tables b sourceFile
        (scan tables b sourceFile before result) rawLine
      rw [scan_concat, hlineNo, hoffset, ih.1, ih.2, hone, u32SaturatingAdd_u32OrMax,
        u32SaturatingAdd_u32OrMax, u32SaturatingAdd_u32OrMax, List.length_append, offsetAfter,
        offsetAfter, List.map_append, List.sum_append]
      exact ⟨rfl, by simp [Nat.add_assoc]⟩

theorem scanLine_fence (st : Scan) (rawLine : List Char) :
    (scanLine tables b sourceFile st rawLine).fence =
      (detectFenceMarker (stripCr rawLine)).elim st.fence (toggleFence st.fence) := by
  unfold scanLine
  dsimp only
  split
  next fenceChar hmarker => rw [hmarker]; rfl
  next hmarker => rw [hmarker]; rfl

theorem markers_concat (before : List (List Char)) (rawLine : List Char) :
    markers (before ++ [rawLine]) =
      markers before ++ (detectFenceMarker (stripCr rawLine)).toList := by
  simp only [markers, List.filterMap_eq_flatMap_toList, List.flatMap_append,
    List.flatMap_singleton]

/-- The open fence is what the marks leave open, each closing the fence of its own
character. -/
theorem scan_fence (before : List (List Char)) (result : Extraction) :
    (scan tables b sourceFile before result).fence = (markers before).foldl toggleFence none := by
  induction before using List.reverseRecOn with
  | nil => rfl
  | append_singleton before rawLine ih =>
      rw [scan_concat, scanLine_fence, ih, markers_concat, List.foldl_append]
      cases detectFenceMarker (stripCr rawLine) <;> rfl

/-- A heading begins with a hash, so it is no fence marker. -/
theorem detectFenceMarker_of_heading {line : List Char} {text : List Char}
    (hheading : parseAtxHeading line = some text) : detectFenceMarker line = none := by
  cases line with
  | nil => rfl
  | cons first line =>
      by_cases hhash : first = '#'
      · simp [detectFenceMarker, hhash]
      · have hcount : ((first :: line).takeWhile (· == '#')).length = 0 := by
          rw [List.takeWhile_cons_of_neg (by simpa using hhash)]
          rfl
        rw [parseAtxHeading, hcount, if_pos (.inl rfl)] at hheading
        cases hheading

theorem headingLabel_eq_none {line : List Char} {fenceChar : Char}
    (hmarker : detectFenceMarker line = some fenceChar) : headingLabel tables b line = none := by
  cases hheading : parseAtxHeading line with
  | none => rw [headingLabel, hheading, Option.bind_none]
  | some text =>
      rw [detectFenceMarker_of_heading hheading] at hmarker
      cases hmarker

/-- One line adds its heading, if no fence is open. -/
theorem scan_concat_nodes (before : List (List Char)) (rawLine : List Char)
    (result : Extraction) :
    (scan tables b sourceFile (before ++ [rawLine]) result).result.nodes =
      (scan tables b sourceFile before result).result.nodes ++
        (if (markers before).foldl toggleFence none = none then
          headingNode tables b sourceFile (before, rawLine) else none).toList := by
  obtain ⟨hlineNo, hoffset⟩ := scan_position tables b sourceFile before result
  rw [scan_concat, ← scan_fence tables b sourceFile before result, headingNode]
  unfold scanLine
  dsimp only
  split
  next fenceChar hmarker => simp [headingLabel_eq_none tables b hmarker]
  next =>
    cases (scan tables b sourceFile before result).fence with
    | some c => simp
    | none =>
        have hone : (1 : UInt32) = u32OrMax 1 := by decide
        rw [hlineNo, hoffset, hone]
        simp only [Option.isNone_none, ↓reduceIte, extractMdLinks, pushHeading,
          u32SaturatingAdd_u32OrMax]
        cases headingLabel tables b (stripCr rawLine) with
        | none => simp
        | some label => rfl

/-- The nodes that a scan adds, in the order of the lines. -/
theorem scan_nodes (rawLines : List (List Char)) (result : Extraction) :
    (scan tables b sourceFile rawLines result).result.nodes =
      result.nodes ++ (positions rawLines).filterMap fun p =>
        if (markers p.1).foldl toggleFence none = none then headingNode tables b sourceFile p
        else none := by
  induction rawLines using List.reverseRecOn with
  | nil => exact (List.append_nil result.nodes).symm
  | append_singleton before rawLine ih =>
      rw [scan_concat_nodes, ih, positions_concat, List.filterMap_append, ← List.append_assoc]
      congr 1

end ScanLemmas

end TextExtractor

end HabitatGraph
