import HabitatGraph.Extract.Markdown

/-! # Headings outside fences

What a fence is: it opens at a run of three or more backticks, with none in the rest of
the line, or of tildes, and closes only at a run of the same character that is at least
as long, with nothing but blanks after it. The scan looks at three characters of a
marker and at nothing after them, so it takes some lines for fences that are none. Its
headings are right as long as no such line stands above them, and they are right wherever
headings are put into a text exactly when there is no such line.
-/

namespace HabitatGraph

namespace TextExtractor

open Positions Utf8Lines

/-! ## Fences -/

/-- An open fence, by its character and the length of the run that opened it. -/
structure Fence where
  char : Char
  length : Nat
deriving DecidableEq, Repr

/-- The run of a fence at the front of a line, and what follows it. -/
def fenceRun (line : List Char) : Option (Fence × List Char) :=
  let body := line.dropWhile (· == ' ')
  match body.head? with
  | none => none
  | some c =>
      let run := body.takeWhile (· == c)
      if line.length - body.length ≤ 3 ∧ (c = '`' ∨ c = '~') ∧ 3 ≤ run.length then
        some (⟨c, run.length⟩, body.dropWhile (· == c))
      else none

/-- The fence that a line opens. -/
def opensFence (line : List Char) : Option Fence :=
  (fenceRun line).bind fun run =>
    if run.1.char = '`' ∧ '`' ∈ run.2 then none else some run.1

/-- The line closes the fence. -/
def closesFence (fence : Fence) (line : List Char) : Bool :=
  (fenceRun line).any fun run =>
    run.1.char = fence.char ∧ fence.length ≤ run.1.length ∧ run.2.all isWhitespace

/-- The open fence after one more line. -/
def nextFence (fence : Option Fence) (rawLine : List Char) : Option Fence :=
  match fence with
  | none => opensFence (stripCr rawLine)
  | some open_ => if closesFence open_ (stripCr rawLine) then none else some open_

/-- The fence that is open after some lines. -/
def openFence (rawLines : List (List Char)) : Option Fence := rawLines.foldl nextFence none

/-! ## What the scan takes for a fence -/

theorem isPrefixOf_replicate_iff {α : Type*} [DecidableEq α] (n : Nat) (a : α) (xs : List α) :
    (List.replicate n a).isPrefixOf xs ↔ n ≤ (xs.takeWhile (· == a)).length := by
  induction n generalizing xs with
  | zero => simp
  | succ n ih =>
      cases xs with
      | nil => simp [List.replicate_succ]
      | cons x xs =>
          rw [List.replicate_succ, List.isPrefixOf_cons_cons, Bool.and_eq_true, beq_iff_eq, ih]
          by_cases hx : x = a
          · simp [hx]
          · simp [hx, Ne.symm hx]

theorem length_takeWhile_of_ne {α : Type*} [DecidableEq α] {a b : α} (hne : b ≠ a)
    (xs : List α) : ((b :: xs).takeWhile (· == a)).length = 0 := by
  rw [List.takeWhile_cons_of_neg (by simpa using hne), List.length_nil]

/-- The scan knows a fence by three characters of its run. -/
theorem detectFenceMarker_eq (line : List Char) :
    detectFenceMarker line = (fenceRun line).map fun run => run.1.char := by
  have hbacktick : ['`', '`', '`'] = List.replicate 3 '`' := rfl
  have htilde : ['~', '~', '~'] = List.replicate 3 '~' := rfl
  unfold detectFenceMarker fenceRun
  rw [hbacktick, htilde]
  simp only [isPrefixOf_replicate_iff]
  cases line.dropWhile (· == ' ') with
  | nil => simp
  | cons c body =>
      simp only [List.head?_cons]
      by_cases hindent : 3 < line.length - (c :: body).length
      · rw [if_pos hindent, if_neg fun hrun => Nat.not_lt.mpr hrun.1 hindent, Option.map_none]
      rw [if_neg hindent]
      by_cases hc : c = '`'
      · have hother : ((c :: body).takeWhile (· == '~')).length = 0 :=
          length_takeWhile_of_ne (by rw [hc]; decide) body
        subst hc
        by_cases hrun : 3 ≤ (('`' :: body).takeWhile (· == '`')).length
        · rw [if_pos hrun, if_pos ⟨Nat.not_lt.mp hindent, .inl rfl, hrun⟩, Option.map_some]
        · rw [if_neg hrun, hother, if_neg (by decide), if_neg fun h => hrun h.2.2,
            Option.map_none]
      · rw [length_takeWhile_of_ne hc, if_neg (by decide)]
        by_cases hc' : c = '~'
        · subst hc'
          by_cases hrun : 3 ≤ (('~' :: body).takeWhile (· == '~')).length
          · rw [if_pos hrun, if_pos ⟨Nat.not_lt.mp hindent, .inr rfl, hrun⟩, Option.map_some]
          · rw [if_neg hrun, if_neg fun h => hrun h.2.2, Option.map_none]
        · rw [length_takeWhile_of_ne hc', if_neg (by decide),
            if_neg fun h => h.2.1.elim hc hc', Option.map_none]

/-! ## What a heading is -/

/-- One to six hashes, then a space, a tab or the end of the line. -/
def HashLine (line : List Char) : Prop :=
  ∃ n content, 1 ≤ n ∧ n ≤ 6 ∧ line = List.replicate n '#' ++ content ∧
    ∀ c ∈ content.head?, c = ' ' ∨ c = '\t'

theorem takeWhile_hash (n : Nat) {content : List Char}
    (hcontent : ∀ c ∈ content.head?, c = ' ' ∨ c = '\t') :
    (List.replicate n '#' ++ content).takeWhile (· == '#') = List.replicate n '#' := by
  rw [List.takeWhile_append_of_pos fun c hc => by simp [List.eq_of_mem_replicate hc]]
  cases content with
  | nil => rw [List.takeWhile_nil, List.append_nil]
  | cons c content =>
      have hne : c ≠ '#' := by
        rintro rfl
        exact absurd (hcontent '#' rfl) (by decide)
      rw [List.takeWhile_cons_of_neg (by simpa using hne), List.append_nil]

theorem drop_length_takeWhile {α : Type*} (p : α → Bool) (xs : List α) :
    xs.drop (xs.takeWhile p).length = xs.dropWhile p :=
  calc xs.drop (xs.takeWhile p).length
      = (xs.takeWhile p ++ xs.dropWhile p).drop (xs.takeWhile p).length := by
        rw [List.takeWhile_append_dropWhile]
    _ = xs.dropWhile p := List.drop_left

theorem hashLine_of_parseAtxHeading {line text : List Char}
    (hheading : parseAtxHeading line = some text) : HashLine line := by
  have hhashes : line.takeWhile (· == '#') =
      List.replicate (line.takeWhile (· == '#')).length '#' :=
    List.eq_replicate_of_mem fun c hc => by simpa using List.mem_takeWhile_imp hc
  unfold parseAtxHeading at hheading
  dsimp only at hheading
  split at hheading
  next => cases hheading
  next hcount =>
    obtain ⟨hpos, hle⟩ := not_or.mp hcount
    refine ⟨_, line.dropWhile (· == '#'), Nat.pos_of_ne_zero hpos, Nat.not_lt.mp hle, ?_, ?_⟩
    · rw [← hhashes, List.takeWhile_append_dropWhile]
    · intro c hc
      rw [drop_length_takeWhile] at hheading
      split at hheading
      next hnil => rw [hnil] at hc; cases hc
      next first content hfirst =>
        rw [hfirst] at hc
        cases hc
        by_contra hblank
        rw [if_pos (not_or.mp hblank)] at hheading
        cases hheading

theorem parseAtxHeading_isSome_iff (line : List Char) :
    (parseAtxHeading line).isSome ↔ HashLine line := by
  constructor
  · intro hheading
    obtain ⟨text, htext⟩ := Option.isSome_iff_exists.mp hheading
    exact hashLine_of_parseAtxHeading htext
  · rintro ⟨n, content, hpos, hle, rfl, hcontent⟩
    unfold parseAtxHeading
    dsimp only
    rw [takeWhile_hash n hcontent, List.length_replicate, if_neg (by omega),
      List.drop_left' List.length_replicate]
    cases content with
    | nil => rfl
    | cons first content =>
        have hblank := hcontent first rfl
        dsimp only
        rw [if_neg fun h => hblank.elim h.1 h.2]
        rfl

section Headings

variable (tables : CaseTables) (b sourceFile : String)

theorem headingLabel_isSome_iff (line : List Char) :
    (headingLabel tables b line).isSome ↔
      HashLine line ∧ makeSlug tables ((parseAtxHeading line).getD []) ≠ [] := by
  rw [← parseAtxHeading_isSome_iff, headingLabel]
  cases parseAtxHeading line with
  | none => simp
  | some text => simp

/-- The lines of a text as it is decoded. -/
def decodedLines (source : List UInt8) : List (List Char) :=
  (fromUtf8Lossy source).toList.splitOn '\n'

/-- The headings are the hash lines outside fences whose text has a slug: as a whole, in
the order of the lines, and line by line. -/
structure HeadingsOutsideFences (source : List UInt8) (result : Extraction) : Prop where
  headings : ∀ p ∈ positions (decodedLines source),
    (headingNode tables b sourceFile p).isSome ↔
      HashLine (stripCr p.2) ∧ makeSlug tables ((parseAtxHeading (stripCr p.2)).getD []) ≠ []
  nodes : (parseMarkdown tables b sourceFile source result).nodes =
    result.nodes ++ (positions (decodedLines source)).filterMap fun p =>
      if openFence p.1 = none then headingNode tables b sourceFile p else none
  lines : ∀ p ∈ positions (decodedLines source),
    (scan tables b sourceFile (p.1 ++ [p.2]) result).result.nodes =
      (scan tables b sourceFile p.1 result).result.nodes ++
        (if openFence p.1 = none then headingNode tables b sourceFile p else none).toList

/-! ## When they are -/

/-- The character that the markers leave open when each closes what its own character
has opened. -/
def openMark (rawLines : List (List Char)) : Option Char :=
  (markers rawLines).foldl toggleFence none

theorem headingsOutsideFences_of_alike {source : List UInt8} {result : Extraction}
    (halike : ∀ p ∈ positions (decodedLines source),
      (headingLabel tables b (stripCr p.2)).isSome →
        (openMark p.1 = none ↔ openFence p.1 = none)) :
    HeadingsOutsideFences tables b sourceFile source result := by
  have hguard : ∀ p ∈ positions (decodedLines source),
      (if openMark p.1 = none then headingNode tables b sourceFile p else none) =
        if openFence p.1 = none then headingNode tables b sourceFile p else none := by
    intro p hp
    cases hlabel : headingLabel tables b (stripCr p.2) with
    | none => simp [headingNode, hlabel]
    | some label => simp only [halike p hp (by rw [hlabel]; rfl)]
  refine ⟨?_, ?_, ?_⟩
  · intro p _
    rw [headingNode, Option.isSome_map, headingLabel_isSome_iff]
  · rw [parseMarkdown, scan_nodes, ← decodedLines]
    congr 1
    exact List.filterMap_congr hguard
  · intro p hp
    rw [scan_concat_nodes, ← hguard p hp]
    rfl

/-- The headings are right exactly when, above every heading, the marks and the fences
leave a block open or not alike. -/
theorem headingsOutsideFences_iff_alike (source : List UInt8) (result : Extraction) :
    HeadingsOutsideFences tables b sourceFile source result ↔
      ∀ p ∈ positions (decodedLines source), (headingLabel tables b (stripCr p.2)).isSome →
        (openMark p.1 = none ↔ openFence p.1 = none) := by
  refine ⟨fun hright p hp hheading => ?_, headingsOutsideFences_of_alike tables b sourceFile⟩
  have hline := hright.lines p hp
  rw [scan_concat_nodes, List.append_cancel_left_eq, ← openMark] at hline
  have hsome : (headingNode tables b sourceFile p).isSome := by
    rwa [headingNode, Option.isSome_map]
  obtain ⟨node, hnode⟩ := Option.isSome_iff_exists.mp hsome
  rw [show headingNode tables b sourceFile (p.1, p.2) = some node from hnode] at hline
  by_cases hmark : openMark p.1 = none <;> by_cases hfence : openFence p.1 = none <;>
    simp [hmark, hfence] at hline ⊢

end Headings

/-! ## Lines that are misread -/

/-- The scan takes the line for one that opens or closes a fence, and it is none. -/
def Misread (fence : Option Fence) (rawLine : List Char) : Prop :=
  match fence with
  | none => (detectFenceMarker (stripCr rawLine)).isSome ∧ opensFence (stripCr rawLine) = none
  | some open_ => detectFenceMarker (stripCr rawLine) = some open_.char ∧
      ¬ closesFence open_ (stripCr rawLine)

theorem detectFenceMarker_of_opensFence {line : List Char} {fence : Fence}
    (hopens : opensFence line = some fence) : detectFenceMarker line = some fence.char := by
  obtain ⟨run, hrun, hfence⟩ := Option.bind_eq_some_iff.mp hopens
  split at hfence
  next => cases hfence
  next =>
    cases hfence
    rw [detectFenceMarker_eq, hrun, Option.map_some]

theorem detectFenceMarker_of_closesFence {line : List Char} {fence : Fence}
    (hcloses : closesFence fence line) : detectFenceMarker line = some fence.char := by
  obtain ⟨run, hrun, hfence⟩ := (Option.any_eq_true _ _).mp hcloses
  rw [decide_eq_true_eq] at hfence
  rw [detectFenceMarker_eq, hrun, Option.map_some, hfence.1]

/-- Where a line is not misread, the scan follows the fences. -/
theorem toggleFence_char {fence : Option Fence} {rawLine : List Char}
    (hread : ¬ Misread fence rawLine) :
    (detectFenceMarker (stripCr rawLine)).elim (fence.map Fence.char)
        (toggleFence (fence.map Fence.char)) = (nextFence fence rawLine).map Fence.char := by
  unfold Misread at hread
  unfold nextFence
  cases fence with
  | none =>
      dsimp only at hread ⊢
      cases hopens : opensFence (stripCr rawLine) with
      | none =>
          have hmarker : detectFenceMarker (stripCr rawLine) = none :=
            Option.not_isSome_iff_eq_none.mp fun hsome => hread ⟨hsome, hopens⟩
          rw [hmarker]
          rfl
      | some opened =>
          rw [detectFenceMarker_of_opensFence hopens]
          rfl
  | some open_ =>
      dsimp only at hread ⊢
      by_cases hcloses : closesFence open_ (stripCr rawLine)
      · rw [if_pos hcloses, detectFenceMarker_of_closesFence hcloses]
        simp [toggleFence]
      · rw [if_neg hcloses]
        cases hmarker : detectFenceMarker (stripCr rawLine) with
        | none => rfl
        | some c =>
            have hne : open_.char ≠ c := fun heq => hread ⟨by rw [hmarker, heq], hcloses⟩
            simp [toggleFence, hne]

theorem openMark_concat (before : List (List Char)) (rawLine : List Char) :
    openMark (before ++ [rawLine]) =
      (detectFenceMarker (stripCr rawLine)).elim (openMark before)
        (toggleFence (openMark before)) := by
  rw [openMark, markers_concat, List.foldl_append, ← openMark]
  cases detectFenceMarker (stripCr rawLine) <;> rfl

instance (fence : Option Fence) (rawLine : List Char) : Decidable (Misread fence rawLine) :=
  match fence with
  | none => inferInstanceAs (Decidable (_ ∧ _))
  | some _ => inferInstanceAs (Decidable (_ ∧ _))

/-- No line of a text is misread. -/
def ReadsFences (rawLines : List (List Char)) : Prop :=
  ∀ p ∈ positions rawLines, ¬ Misread (openFence p.1) p.2

theorem readsFences_concat {before : List (List Char)} {rawLine : List Char} :
    ReadsFences (before ++ [rawLine]) ↔
      ReadsFences before ∧ ¬ Misread (openFence before) rawLine := by
  rw [ReadsFences, positions_concat, List.forall_mem_append]
  simp only [List.mem_singleton, forall_eq]
  rfl

theorem openFence_concat (before : List (List Char)) (rawLine : List Char) :
    openFence (before ++ [rawLine]) = nextFence (openFence before) rawLine := by
  rw [openFence, List.foldl_append]
  rfl

/-- Where no line is misread, the mark that is open is that of the open fence. -/
theorem openMark_eq (rawLines : List (List Char)) (hread : ReadsFences rawLines) :
    openMark rawLines = (openFence rawLines).map Fence.char := by
  induction rawLines using List.reverseRecOn with
  | nil => rfl
  | append_singleton before rawLine ih =>
      obtain ⟨hbefore, hline⟩ := readsFences_concat.mp hread
      rw [openMark_concat, ih hbefore, toggleFence_char hline, openFence_concat]

/-- After the first misread line the scan is inside a block and the text is not, or the
other way around. -/
theorem openMark_of_misread {before : List (List Char)} {rawLine : List Char}
    (hread : ReadsFences before) (hmisread : Misread (openFence before) rawLine) :
    ¬ (openMark (before ++ [rawLine]) = none ↔ openFence (before ++ [rawLine]) = none) := by
  rw [openMark_concat, openMark_eq before hread, openFence_concat]
  unfold Misread at hmisread
  unfold nextFence
  cases hfence : openFence before with
  | none =>
      rw [hfence] at hmisread
      obtain ⟨c, hc⟩ := Option.isSome_iff_exists.mp hmisread.1
      simp [hc, hmisread.2, toggleFence]
  | some open_ =>
      rw [hfence] at hmisread
      simp [hmisread.1, hmisread.2, toggleFence]

/-- A text that is misread has a first misread line. -/
theorem exists_first_misread {rawLines : List (List Char)} (hmisread : ¬ ReadsFences rawLines) :
    ∃ before rawLine back, rawLines = before ++ rawLine :: back ∧ ReadsFences before ∧
      Misread (openFence before) rawLine := by
  induction rawLines using List.reverseRecOn with
  | nil => exact absurd (fun p hp => by cases hp) hmisread
  | append_singleton rawLines last ih =>
      by_cases hread : ReadsFences rawLines
      · refine ⟨rawLines, last, [], rfl, hread, not_not.mp fun hlast => hmisread ?_⟩
        exact readsFences_concat.mpr ⟨hread, hlast⟩
      · obtain ⟨before, rawLine, back, rfl, hbefore, hline⟩ := ih hread
        exact ⟨before, rawLine, back ++ [last], by simp, hbefore, hline⟩

section Reads

variable (tables : CaseTables) (b sourceFile : String)

/-- The line is a heading with a slug. -/
def IsHeading (rawLine : List Char) : Prop := (headingLabel tables b (stripCr rawLine)).isSome

instance (rawLine : List Char) : Decidable (IsHeading tables b rawLine) :=
  inferInstanceAs (Decidable (_ = true))

/-- A text without its headings. -/
def bodyLines (source : List UInt8) : List (List Char) :=
  (decodedLines source).filter fun rawLine => ¬ IsHeading tables b rawLine

variable {tables b}

theorem detectFenceMarker_of_isHeading {rawLine : List Char}
    (hheading : IsHeading tables b rawLine) : detectFenceMarker (stripCr rawLine) = none := by
  rw [IsHeading, headingLabel_isSome_iff, ← parseAtxHeading_isSome_iff] at hheading
  obtain ⟨text, htext⟩ := Option.isSome_iff_exists.mp hheading.1
  exact detectFenceMarker_of_heading htext

/-- Headings neither open nor close a fence, nor are they misread. -/
theorem not_misread_of_isHeading {rawLine : List Char} (hheading : IsHeading tables b rawLine)
    (fence : Option Fence) : ¬ Misread fence rawLine ∧ nextFence fence rawLine = fence := by
  have hmarker := detectFenceMarker_of_isHeading hheading
  have hopens : opensFence (stripCr rawLine) = none := by
    rw [detectFenceMarker_eq, Option.map_eq_none_iff] at hmarker
    rw [opensFence, hmarker, Option.bind_none]
  have hcloses : ∀ open_, closesFence open_ (stripCr rawLine) = false := by
    intro open_
    by_contra hclosed
    have hsome := detectFenceMarker_of_closesFence (Bool.eq_true_of_not_eq_false hclosed)
    rw [hmarker] at hsome
    cases hsome
  cases fence with
  | none => simp [Misread, nextFence, hmarker, hopens]
  | some open_ => simp [Misread, nextFence, hmarker, hcloses]

theorem readsFences_filter_and_openFence (rawLines : List (List Char)) :
    (ReadsFences (rawLines.filter fun rawLine => ¬ IsHeading tables b rawLine) ↔
        ReadsFences rawLines) ∧
      openFence (rawLines.filter fun rawLine => ¬ IsHeading tables b rawLine) =
        openFence rawLines := by
  induction rawLines using List.reverseRecOn with
  | nil => exact ⟨Iff.rfl, rfl⟩
  | append_singleton before rawLine ih =>
      rw [List.filter_append, readsFences_concat, openFence_concat]
      by_cases hheading : IsHeading tables b rawLine
      · obtain ⟨hread, hnext⟩ := not_misread_of_isHeading hheading (openFence before)
        rw [List.filter_cons_of_neg (by simpa using hheading), List.filter_nil, List.append_nil,
          hnext, and_iff_left hread]
        exact ih
      · rw [List.filter_cons_of_pos (by simpa using hheading), List.filter_nil,
          readsFences_concat, openFence_concat, ih.2, ih.1]
        exact ⟨Iff.rfl, rfl⟩

/-- Where a text is misread depends on what is left of it without its headings. -/
theorem readsFences_iff_of_bodyLines {source source' : List UInt8}
    (hbody : bodyLines tables b source' = bodyLines tables b source) :
    ReadsFences (decodedLines source') ↔ ReadsFences (decodedLines source) := by
  rw [← (@readsFences_filter_and_openFence tables b _).1, ← bodyLines, hbody, bodyLines,
    (readsFences_filter_and_openFence _).1]

theorem decodedLines_encode {rawLines : List (List Char)} (hne : rawLines ≠ [])
    (hlines : ∀ rawLine ∈ rawLines, '\n' ∉ rawLine) :
    decodedLines (encode (['\n'].intercalate rawLines)) = rawLines := by
  rw [decodedLines, fromUtf8Lossy_encode, String.toList_ofList,
    List.splitOn_intercalate _ hlines hne]

/-- A heading put right after the first misread line of a text is on the wrong side. -/
theorem exists_wrong_of_misread {heading : List Char} (hheading : IsHeading tables b heading)
    (hline : '\n' ∉ heading) {source : List UInt8}
    (hmisread : ¬ ReadsFences (decodedLines source)) (result : Extraction) :
    ∃ source', bodyLines tables b source' = bodyLines tables b source ∧
      ¬ HeadingsOutsideFences tables b sourceFile source' result := by
  obtain ⟨before, rawLine, back, hsource, hbefore, hfirst⟩ := exists_first_misread hmisread
  have hlines : ∀ l ∈ decodedLines source, '\n' ∉ l := fun _ => notMem_of_mem_splitOn
  have hdecoded : decodedLines (encode (['\n'].intercalate
      (before ++ rawLine :: heading :: back))) = before ++ rawLine :: heading :: back := by
    apply decodedLines_encode (by simp)
    rw [hsource, List.forall_mem_append, List.forall_mem_cons] at hlines
    rw [List.forall_mem_append, List.forall_mem_cons, List.forall_mem_cons]
    exact ⟨hlines.1, hlines.2.1, hline, hlines.2.2⟩
  refine ⟨encode (['\n'].intercalate (before ++ rawLine :: heading :: back)), ?_,
    fun hright => ?_⟩
  · rw [bodyLines, hdecoded, bodyLines, hsource]
    simp [List.filter_append, List.filter_cons, hheading]
  · have halike := (headingsOutsideFences_iff_alike tables b sourceFile _ result).mp hright
      (before ++ [rawLine], heading)
    rw [hdecoded, mem_positions_iff] at halike
    exact openMark_of_misread hbefore hfirst (halike ⟨back, by simp⟩ hheading)

/-- The headings of a text are right when no line above one of them is misread. A text and
all that differ from it in headings only, wherever these stand, have the right headings
exactly when none of its lines is misread. The tables are arbitrary, as long as there is a
heading in them at all. -/
theorem headingsOutsideFences_iff_reads {heading : List Char}
    (hheading : IsHeading tables b heading) (hline : '\n' ∉ heading) (source : List UInt8)
    (result : Extraction) :
    ((∀ p ∈ positions (decodedLines source), IsHeading tables b p.2 → ReadsFences p.1) →
      HeadingsOutsideFences tables b sourceFile source result) ∧
    ((∀ source', bodyLines tables b source' = bodyLines tables b source →
        HeadingsOutsideFences tables b sourceFile source' result) ↔
      ReadsFences (decodedLines source)) := by
  have hright : ∀ source', (∀ p ∈ positions (decodedLines source'),
      IsHeading tables b p.2 → ReadsFences p.1) →
      HeadingsOutsideFences tables b sourceFile source' result := by
    intro source' hread
    apply headingsOutsideFences_of_alike
    intro p hp hsome
    rw [openMark_eq p.1 (hread p hp hsome), Option.map_eq_none_iff]
  refine ⟨hright source, fun hall => ?_, fun hread source' hbody => hright source' ?_⟩
  · by_contra hmisread
    obtain ⟨source', hbody, hwrong⟩ :=
      exists_wrong_of_misread sourceFile hheading hline hmisread result
    exact hwrong (hall source' hbody)
  · intro p hp _ q hq
    obtain ⟨back, hlines⟩ := mem_positions_iff.mp hp
    obtain ⟨middle, hbefore⟩ := mem_positions_iff.mp hq
    apply (readsFences_iff_of_bodyLines hbody).mpr hread q
    rw [mem_positions_iff]
    exact ⟨middle ++ p.2 :: back, by rw [hlines, hbefore]; simp⟩

end Reads

/-- The tables, for text in ASCII. -/
def asciiTables : CaseTables := ⟨List.map Char.toLower, Char.isAlphanum⟩

/-- A fence with tildes in it and a heading after it. -/
def plainFence : List UInt8 := encode "```\n~~~\n```\n# x".toList

theorem decodedLines_plainFence :
    decodedLines plainFence =
      ["```".toList, "~~~".toList, "```".toList, "# x".toList] := by
  rw [plainFence, decodedLines, fromUtf8Lossy_encode, String.toList_ofList]
  decide

/-- The same lines with another heading, in the fence. -/
def movedHeading : List UInt8 := encode "```\n# y\n~~~\n```".toList

theorem decodedLines_movedHeading :
    decodedLines movedHeading =
      ["```".toList, "# y".toList, "~~~".toList, "```".toList] := by
  rw [movedHeading, decodedLines, fromUtf8Lossy_encode, String.toList_ofList]
  decide

theorem headingsOutsideFences_movedHeading :
    HeadingsOutsideFences asciiTables "doc" "doc.md" plainFence ⟨[], []⟩ ∧
      HeadingsOutsideFences asciiTables "doc" "doc.md" movedHeading ⟨[], []⟩ := by
  have hheading : IsHeading asciiTables "doc" "# x".toList := by decide
  have hread : ReadsFences (decodedLines plainFence) := by
    rw [decodedLines_plainFence]
    unfold ReadsFences
    decide
  have hright := (headingsOutsideFences_iff_reads "doc.md" hheading (by decide) plainFence
    ⟨[], []⟩).2.mpr hread
  refine ⟨hright plainFence rfl, hright movedHeading ?_⟩
  rw [bodyLines, bodyLines, decodedLines_plainFence, decodedLines_movedHeading]
  decide

/-! ## A short run in a long fence -/

/-- Three backticks in a fence of four, and a heading after them. -/
def nestedFences : List UInt8 := encode "````\n```\n# x\n````".toList

/-- The line in the fence is reported as a heading. -/
theorem nestedFences_headings :
    (parseMarkdown asciiTables "doc" "doc.md" nestedFences ⟨[], []⟩).nodes =
        [⟨"doc_x", "doc.md", ⟨9, 12, 3, 3⟩⟩] ∧
      ¬ HeadingsOutsideFences asciiTables "doc" "doc.md" nestedFences ⟨[], []⟩ := by
  have hnodes : (parseMarkdown asciiTables "doc" "doc.md" nestedFences ⟨[], []⟩).nodes =
      [⟨"doc_x", "doc.md", ⟨9, 12, 3, 3⟩⟩] := by decide +kernel
  refine ⟨hnodes, fun hright => ?_⟩
  have hfences := hright.nodes
  rw [hnodes] at hfences
  exact absurd hfences (by decide +kernel)

end TextExtractor

end HabitatGraph
