import HabitatGraph.Export.Obsidian
import HabitatGraph.Foundation.WikiLinks
import Mathlib.Data.Bool.AllAny

/-! # Links of the vault

What the notes link is read off their text. The links of a note are those of its bullets
as long as no other line holds one, and a bullet links the note it is about when the label
it shows is the name of that note.
-/

namespace HabitatGraph

open PartialMap SortedList StableSort Splitting WikiLinks

/-! ## Shown text -/

theorem notMem_escapeChar_of_isBracket {mark : Char} (hmark : IsBracket mark) (ch : Char) :
    mark ∉ escapeChar ch := by
  rcases hmark with rfl | rfl
  · simp [escapeChar, notMem_hex4 ch.toNat (by decide : ∀ d < 16, '[' ≠ d.digitChar.toUpper)]
  · simp [escapeChar, notMem_hex4 ch.toNat (by decide : ∀ d < 16, ']' ≠ d.digitChar.toUpper)]

theorem transparent_displayChar : Transparent displayChar := by
  constructor
  · rintro mark (rfl | rfl) <;> rfl
  · intro ch
    unfold displayChar
    split
    next => simp [escapeChar]
    next => simp
  · intro mark ch hmark hne
    unfold displayChar
    split
    next => exact notMem_escapeChar_of_isBracket hmark ch
    next => simpa using Ne.symm hne

/-- Escaping a text between quotes keeps its brackets. -/
def quoteChar (ch : Char) : List Char :=
  if ch = '\\' then ['\\', '\\'] else if ch = '"' then ['\\', '"'] else [ch]

theorem transparent_quoteChar : Transparent quoteChar := by
  constructor
  · rintro mark (rfl | rfl) <;> rfl
  · intro ch
    unfold quoteChar
    split_ifs <;> simp
  · rintro mark ch (rfl | rfl) hne <;> unfold quoteChar <;> split_ifs <;> simp [Ne.symm hne]

theorem toList_yamlDq (s : String) : (yamlDq s).toList = s.toList.flatMap quoteChar := by
  rw [yamlDq, String.toList_ofList]
  rfl

/-! ## The name a link shows -/

def stemChar (c : Char) : Char := if c = '/' || isWhitespace c then '_' else c

/-- What the stem keeps of a label. -/
def stemChars (label : List Char) : List Char :=
  ((label.filter fun ch => !isControl ch).take maxLabelLen).map stemChar

theorem toList_makeStem (label : String) :
    (makeStem label).toList =
      if stemChars label.toList = [] then ['_'] else stemChars label.toList := by
  have hstem : (sanitizeLabel label).toList.map stemChar = stemChars label.toList := by
    rw [toList_sanitizeLabel]
    rfl
  unfold makeStem
  change (if ((sanitizeLabel label).toList.map stemChar).isEmpty then "_"
    else String.ofList ((sanitizeLabel label).toList.map stemChar)).toList = _
  rw [hstem]
  simp only [List.isEmpty_iff]
  split
  next => rfl
  next => rw [String.toList_ofList]

/-- A character that is neither replaced nor put in by a stem. -/
def StemKeeps (mark : Char) : Prop := mark ≠ '/' ∧ mark ≠ '_' ∧ isWhitespace mark = false

instance (mark : Char) : Decidable (StemKeeps mark) := inferInstanceAs (Decidable (_ ∧ _ ∧ _))

theorem stemChar_eq_iff {mark : Char} (hmark : StemKeeps mark) {ch : Char} :
    stemChar ch = mark ↔ ch = mark := by
  obtain ⟨hslash, hunder, hblank⟩ := hmark
  unfold stemChar
  split
  next hspecial =>
    refine iff_of_false (Ne.symm hunder) fun h => ?_
    rw [h] at hspecial
    simp [hslash, hblank] at hspecial
  next => rfl

theorem stemChar_eq_self_iff {c : Char} : stemChar c = c ↔ c ≠ '/' ∧ isWhitespace c = false := by
  unfold stemChar
  split
  next hspecial =>
    rw [Bool.or_eq_true, decide_eq_true_eq] at hspecial
    constructor
    · rintro rfl
      revert hspecial
      decide
    · intro ⟨hslash, hblank⟩
      rw [hblank] at hspecial
      exact absurd (hspecial.resolve_right Bool.false_ne_true) hslash
  next hplain =>
    rw [Bool.or_eq_true, decide_eq_true_eq, not_or, Bool.not_eq_true] at hplain
    exact iff_of_true rfl hplain

theorem count_map_stemChar {mark : Char} (hmark : StemKeeps mark) (chars : List Char) :
    (chars.map stemChar).count mark = chars.count mark := by
  rw [List.count_eq_countP, List.countP_map, List.count_eq_countP]
  apply List.countP_congr
  intro ch _
  simp only [Function.comp_apply, beq_iff_eq, stemChar_eq_iff hmark]

theorem count_makeStem {mark : Char} (hmark : StemKeeps mark) (label : String) :
    (makeStem label).toList.count mark =
      ((label.toList.filter fun ch => !isControl ch).take maxLabelLen).count mark := by
  have hunder : ['_'].count mark = 0 := List.count_eq_zero.mpr (by simpa using hmark.2.1)
  rw [toList_makeStem]
  split
  next hnil =>
    rw [stemChars, List.map_eq_nil_iff] at hnil
    rw [hnil, hunder, List.count_nil]
  next => exact count_map_stemChar hmark _

theorem count_flatMap_displayChar {mark : Char} (hmark : IsBracket mark) (chars : List Char) :
    (chars.flatMap displayChar).count mark = chars.count mark := by
  induction chars with
  | nil => rfl
  | cons ch chars ih =>
      have hch : (displayChar ch).count mark = [ch].count mark := by
        by_cases heq : ch = mark
        · rw [heq, transparent_displayChar.keeps mark hmark]
        · rw [List.count_eq_zero.mpr (transparent_displayChar.makes_none mark ch hmark heq)]
          simp [heq]
      rw [List.flatMap_cons, List.count_append, ih, hch, ← List.count_append]
      rfl

theorem count_escapeChar (ch : Char) : (escapeChar ch).count '\\' = 1 := by
  have hhex := List.count_eq_zero.mpr
    (notMem_hex4 ch.toNat (by decide : ∀ d < 16, '\\' ≠ d.digitChar.toUpper))
  rw [escapeChar, List.count_append, List.count_append, hhex]
  rfl

/-- Every escape adds a backslash. -/
theorem count_backslash_displayChar (chars : List Char) :
    (chars.flatMap displayChar).count '\\' =
      chars.count '\\' + chars.countP fun ch => isRenderDangerous ch := by
  induction chars with
  | nil => rfl
  | cons ch chars ih =>
      rw [List.flatMap_cons, List.count_append, ih, List.count_cons, List.countP_cons]
      by_cases hch : isRenderDangerous ch
      · have hne : (ch == '\\') = false := by
          rw [beq_eq_false_iff_ne]
          rintro rfl
          revert hch
          decide
        rw [displayChar, if_pos hch, count_escapeChar, hne]
        simp only [hch, if_true]
        simp
        omega
      · rw [displayChar, if_neg hch, List.count_singleton]
        simp only [hch]
        simp
        omega

/-! ## When the shown label is the name -/

section Shown

variable {label name rest : List Char}
  (hsplit : splitOnce? closeMark (label ++ closeMark) = some (name, rest))
include hsplit

/-- The target is all of the label, or ends at a bracket of it. -/
theorem target_eq_or : name = label ∨ ∃ tail, label = name ++ ']' :: tail := by
  have heq : name ++ closeMark ++ rest = label ++ closeMark := append_eq_of_splitOnce? hsplit
  have hlength : name.length ≤ label.length := by
    have := congrArg List.length heq
    simp only [List.length_append] at this
    omega
  rw [List.append_assoc] at heq
  obtain ⟨tail, htail⟩ := List.prefix_of_prefix_length_le ⟨_, heq⟩
    (List.prefix_append label closeMark) hlength
  cases tail with
  | nil => exact Or.inl (by rw [← htail, List.append_nil])
  | cons ch tail =>
      right
      rw [← htail, List.append_assoc, List.append_cancel_left_eq, List.cons_append] at heq
      obtain ⟨rfl, -⟩ := List.cons.inj heq
      exact ⟨tail, htail.symm⟩

/-- What a stem keeps of a label that is shown in full, or whose target is long enough. -/
theorem take_filter_label
    (hlong : name = label ∨ maxLabelLen ≤ (name.filter fun ch => !isControl ch).length) :
    (label.filter fun ch => !isControl ch).take maxLabelLen =
      (name.filter fun ch => !isControl ch).take maxLabelLen := by
  rcases target_eq_or hsplit with heq | ⟨tail, htail⟩
  · rw [heq]
  · rcases hlong with heq | hlong
    · rw [heq]
    · rw [htail, List.filter_append, List.take_append_of_le_length hlong]

variable {suffix : List Char} {s : String} (hs : s.toList = label)
include hs

/-- A bracket that ends the target is not in the name. -/
theorem long_of_shown (hbracket : ']' ∉ suffix)
    (hshown : name.flatMap displayChar = (makeStem s).toList ++ suffix) :
    name = label ∨ maxLabelLen ≤ (name.filter fun ch => !isControl ch).length := by
  by_contra hshort
  rw [not_or, Nat.not_le] at hshort
  obtain ⟨hne, hlt⟩ := hshort
  obtain ⟨tail, htail⟩ := (target_eq_or hsplit).resolve_left hne
  obtain ⟨room, hroom⟩ := Nat.exists_eq_add_of_lt hlt
  have hclose : isControl ']' = false := by decide
  -- the stem has room for the bracket that ends the target, and the target does not have it
  have hcount := congrArg (List.count ']') hshown
  rw [count_flatMap_displayChar (Or.inr rfl), List.count_append, List.count_eq_zero.mpr hbracket,
    count_makeStem (by decide), hs, htail, List.filter_append,
    List.filter_cons_of_pos (by simp [hclose]), List.take_append,
    List.take_of_length_le (Nat.le_of_lt hlt), hroom, Nat.add_assoc, Nat.add_sub_cancel_left,
    List.take_succ_cons, List.count_append, List.count_cons_self,
    List.count_filter (by simp [hclose])] at hcount
  omega

/-- An escape has a backslash that is not in the name. -/
theorem safe_of_shown (hescape : '\\' ∉ suffix)
    (hlong : name = label ∨ maxLabelLen ≤ (name.filter fun ch => !isControl ch).length)
    (hshown : name.flatMap displayChar = (makeStem s).toList ++ suffix) :
    ∀ c ∈ name, isRenderDangerous c = false := by
  -- the target shows its backslashes and one for each escape, the name only what it took
  have hcount := congrArg (List.count '\\') hshown
  rw [count_backslash_displayChar, List.count_append, List.count_eq_zero.mpr hescape,
    count_makeStem (by decide), hs, take_filter_label hsplit hlong] at hcount
  have hle := ((List.take_sublist maxLabelLen _).trans
    (List.filter_sublist (p := fun ch => !isControl ch) (l := name))).count_le '\\'
  have hzero : (name.countP fun ch => isRenderDangerous ch) = 0 := by omega
  intro c hc
  simpa using List.countP_eq_zero.mp hzero c hc

/-- The stem of a label whose target is safe begins like the target. -/
theorem toList_makeStem_of_safe (hsafe : ∀ c ∈ name, isRenderDangerous c = false)
    (hlong : name = label ∨ maxLabelLen ≤ name.length) :
    (makeStem s).toList =
      if name = [] then ['_'] else (name.take maxLabelLen).map stemChar := by
  have hfilter : (name.filter fun ch => !isControl ch) = name :=
    Escaping.filter_eq_self_of_safe (fun _ => isRenderDangerous_of_isControl) hsafe
  have htake := take_filter_label hsplit (by rwa [hfilter])
  rw [hfilter] at htake
  rw [toList_makeStem, stemChars, hs, htake]
  have hpos : maxLabelLen ≠ 0 := by decide
  simp only [List.map_eq_nil_iff, List.take_eq_nil_iff, hpos, false_or]

/-- A label shows the name of its note exactly when it is safe up to its first closing
brackets, free of slashes and blanks where the stem is taken from, and goes on as the name
does; brackets may only cut off what the stem does not take. -/
theorem shown_eq_iff (hescape : '\\' ∉ suffix) (hbracket : ']' ∉ suffix) :
    name.flatMap displayChar = (makeStem s).toList ++ suffix ↔
      name ≠ [] ∧ (∀ c ∈ name, isRenderDangerous c = false) ∧
        (∀ c ∈ name.take maxLabelLen, c ≠ '/' ∧ isWhitespace c = false) ∧
        name.drop maxLabelLen = suffix ∧ (name = label ∨ maxLabelLen ≤ name.length) := by
  have hplain : (∀ c ∈ name, isRenderDangerous c = false) →
      name.flatMap displayChar = name := fun hsafe => Escaping.escapeAll_eq_self hsafe
  have hmap : (name.take maxLabelLen).map stemChar = name.take maxLabelLen ↔
      ∀ c ∈ name.take maxLabelLen, c ≠ '/' ∧ isWhitespace c = false := by
    have hid := @List.map_eq_map_iff _ _ stemChar (name.take maxLabelLen) id
    rw [List.map_id] at hid
    simp only [hid, id_eq, stemChar_eq_self_iff]
  constructor
  · intro hshown
    have hlong := long_of_shown hsplit hs hbracket hshown
    have hsafe := safe_of_shown hsplit hs hescape hlong hshown
    have hfilter : (name.filter fun ch => !isControl ch) = name :=
      Escaping.filter_eq_self_of_safe (fun _ => isRenderDangerous_of_isControl) hsafe
    rw [hfilter] at hlong
    rw [hplain hsafe, toList_makeStem_of_safe hsplit hs hsafe hlong] at hshown
    have hne : name ≠ [] := by
      rintro rfl
      rw [if_pos rfl] at hshown
      cases hshown
    rw [if_neg hne] at hshown
    -- the stem and the suffix are the two parts of the target
    have hparts : name.take maxLabelLen ++ name.drop maxLabelLen =
        (name.take maxLabelLen).map stemChar ++ suffix := by
      rw [List.take_append_drop]
      exact hshown
    obtain ⟨htake, hdrop⟩ := List.append_inj hparts (List.length_map _).symm
    exact ⟨hne, hsafe, hmap.mp htake.symm, hdrop, hlong⟩
  · intro ⟨hne, hsafe, hkept, hdrop, hlong⟩
    rw [hplain hsafe, toList_makeStem_of_safe hsplit hs hsafe hlong, if_neg hne, hmap.mpr hkept,
      ← hdrop, List.take_append_drop]

end Shown

/-! ## Links of a line -/

theorem links_unlines (lines : List String) :
    links (unlines lines).toList = lines.flatMap fun line => links line.toList := by
  have hlines : (lines.flatMap fun line => line.toList ++ ['\n']) =
      (lines.map String.toList).flatMap fun line => line ++ ['\n'] := by
    rw [List.flatMap_map]
  rw [unlines, String.toList_ofList, hlines, links_lines, List.flatMap_map]

theorem links_shown_eq_nil_iff (chars : List Char) :
    links (chars.flatMap displayChar) = [] ↔ ¬ HasLink chars := by
  rw [links_eq_nil_iff (notMem_flatMap_displayChar (by decide) chars),
    transparent_displayChar.hasLink_iff]

/-- A bullet shows a link to its label up to the first closing brackets of it, and the
links of what comes after them. -/
theorem links_bullet {before : List Char} (hbefore : '[' ∉ before) {label : String}
    {name rest : List Char}
    (hsplit : splitOnce? closeMark (label.toList ++ closeMark) = some (name, rest)) :
    links (before ++ openMark ++ ((displaySafe label).toList ++ closeMark)) =
      name.flatMap displayChar :: links (rest.flatMap displayChar) := by
  have hclose : closeMark.flatMap displayChar = closeMark := by decide
  have hshown : (displaySafe label).toList ++ closeMark =
      (label.toList ++ closeMark).flatMap displayChar := by
    rw [List.flatMap_append, hclose, toList_displaySafe_flatMap]
  rw [hshown, links_open hbefore (notMem_flatMap_displayChar (by decide) _),
    transparent_displayChar.splitOnce?_flatMap, hsplit]
  rfl

theorem notMem_toString (n : Nat) {ch : Char} (hch : ch.isDigit = false) :
    ch ∉ (toString n).toList := by
  rw [Nat.toString_eq_ofList_toDigits, String.toList_ofList]
  exact notMem_toDigits n hch

theorem notMem_yamlToken {ch : Char}
    (hch : (ch.isAlphanum || ch = '.' || ch = '_' || ch = '-') = false) (s : String) :
    ch ∉ (yamlToken s).toList := by
  rw [yamlToken, String.toList_ofList, List.mem_filter, hch]
  exact fun h => Bool.false_ne_true h.2

theorem notMem_langOf (sourceFile : String) : '[' ∉ (langOf sourceFile).toList := by
  unfold langOf
  split <;> decide

theorem notMem_fieldKey (relation : String) : '[' ∉ (fieldKey relation).toList := by
  simp [fieldKey]

/-! ## Links of a note -/

theorem links_fileLine_eq_nil_iff (sourceFile : String) :
    links ("file: \"" ++ yamlDq (displaySafe sourceFile) ++ "\"").toList = [] ↔
      ¬ HasLink sourceFile.toList := by
  have hrewrite := transparent_displayChar.comp transparent_quoteChar
  have hquoted : (yamlDq (displaySafe sourceFile)).toList =
      sourceFile.toList.flatMap fun ch => (displayChar ch).flatMap quoteChar := by
    rw [toList_yamlDq, toList_displaySafe_flatMap, List.flatMap_assoc]
  have hline : '\n' ∉ (yamlDq (displaySafe sourceFile)).toList := by
    rw [toList_yamlDq, List.mem_flatMap]
    intro ⟨ch, hch, hmem⟩
    have hne : '\n' ≠ ch := fun h => notMem_displaySafe (by decide) sourceFile (h ▸ hch)
    revert hmem
    unfold quoteChar
    split_ifs <;> simp [hne]
  rw [String.toList_append, String.toList_append, links_between (by decide) (by decide),
    links_eq_nil_iff hline, hquoted, hrewrite.hasLink_iff]

theorem links_noOpen {line : String} (hopen : '[' ∉ line.toList) : links line.toList = [] :=
  links_of_notMem_open hopen

/-- The only bracket that opens in the line of tags is a single one. -/
theorem links_tagsLine {krate lang tail : String} (hkrate : '[' ∉ krate.toList)
    (hlang : '[' ∉ lang.toList) (htail : '[' ∉ tail.toList) :
    links ("tags: [hg/node, crate/" ++ krate ++ ", lang/" ++ lang ++ tail ++ "]").toList = [] := by
  have hrest : '[' ∉ "g/node, crate/".toList ++ krate.toList ++ ", lang/".toList ++ lang.toList ++
      tail.toList ++ "]".toList := by
    simp [hkrate, hlang, htail]
  have hline : ("tags: [hg/node, crate/" ++ krate ++ ", lang/" ++ lang ++ tail ++ "]").toList =
      "tags: [h".toList ++ ("g/node, crate/".toList ++ krate.toList ++ ", lang/".toList ++
        lang.toList ++ tail.toList ++ "]".toList) := by
    simp
  have hstart : run .outside "tags: [h".toList = ([], .outside) := by decide
  rw [hline, links, run_append, hstart, run_of_notMem_open hrest]
  rfl

theorem links_quoteLine_eq_nil_iff {sourceFile line krate degree : String}
    (hline : ']' ∉ line.toList) (hkrate : ']' ∉ krate.toList) (hdegree : ']' ∉ degree.toList) :
    links ("> `" ++ displaySafe sourceFile ++ ":" ++ line ++ "` · crate `" ++ krate ++
      "` · degree " ++ degree).toList = [] ↔ ¬ HasLink sourceFile.toList := by
  have hparts : ("> `" ++ displaySafe sourceFile ++ ":" ++ line ++ "` · crate `" ++ krate ++
      "` · degree " ++ degree).toList = "> `".toList ++ (displaySafe sourceFile).toList ++
        (":".toList ++ line.toList ++ "` · crate `".toList ++ krate.toList ++
          "` · degree ".toList ++ degree.toList) := by
    simp only [String.toList_append, List.append_assoc]
  have hafter : ']' ∉ ":".toList ++ line.toList ++ "` · crate `".toList ++ krate.toList ++
      "` · degree ".toList ++ degree.toList := by
    simp only [List.mem_append, hline, hkrate, hdegree, or_false]
    decide
  rw [hparts, links_between (by decide) hafter, toList_displaySafe_flatMap,
    links_shown_eq_nil_iff]

theorem links_headingLine_eq_nil_iff (label : String) :
    links ("# " ++ displaySafe label).toList = [] ↔ ¬ HasLink label.toList := by
  have hheading : ("# " ++ displaySafe label).toList =
      "# ".toList ++ (displaySafe label).toList ++ [] := by simp
  rw [hheading, links_between (by decide) (by decide), toList_displaySafe_flatMap,
    links_shown_eq_nil_iff]

/-- Above its links, a note holds a link exactly where its path or its label does. -/
theorem links_noteHeader_eq_nil_iff (node : Node) (degree : Nat)
    (community : Option CommunityId) :
    ((noteHeader node degree community).flatMap fun line => links line.toList) = [] ↔
      ¬ HasLink node.sourceFile.toList ∧ ¬ HasLink node.label.toList := by
  have hopen : ∀ n : Nat, '[' ∉ Nat.toDigits 10 n := fun n => notMem_toDigits n (by decide)
  have hclose : ∀ n : Nat, ']' ∉ (toString n).toList := fun n => notMem_toString n (by decide)
  have hkrateOpen := notMem_yamlToken (by decide : (('[').isAlphanum || '[' = '.' || '[' = '_' ||
    '[' = '-') = false) (crateOf node.sourceFile)
  have hkrateClose := notMem_yamlToken (by decide : ((']').isAlphanum || ']' = '.' || ']' = '_' ||
    ']' = '-') = false) (crateOf node.sourceFile)
  have hlang := notMem_langOf node.sourceFile
  rw [List.flatMap_eq_nil_iff]
  constructor
  · intro hlines
    constructor
    · apply (links_fileLine_eq_nil_iff node.sourceFile).mp
      exact hlines _ (by simp [noteHeader])
    · apply (links_headingLine_eq_nil_iff node.label).mp
      exact hlines _ (by simp [noteHeader])
  · intro ⟨hfile, hlabel⟩ line hmem
    simp only [noteHeader, List.mem_append, List.mem_cons, List.not_mem_nil, or_false] at hmem
    rcases hmem with ((rfl | rfl) | hcommunity) | rfl | rfl | rfl | rfl | rfl | rfl | rfl | rfl |
      rfl | rfl | rfl | rfl | rfl
    · decide
    · exact links_noOpen (by simp [hopen])
    · cases community with
      | none => cases hcommunity
      | some cid =>
          rw [List.mem_singleton.mp hcommunity]
          exact links_noOpen (by simp [hopen])
    · exact links_noOpen (by simp [hkrateOpen])
    · exact links_noOpen (by simp [hlang])
    · exact (links_fileLine_eq_nil_iff _).mpr hfile
    · exact links_noOpen (by simp [hopen])
    · exact links_noOpen (by simp [hopen])
    · apply links_tagsLine hkrateOpen hlang
      cases community with
      | none => decide
      | some cid => simp [hopen]
    · decide
    · decide
    · exact (links_headingLine_eq_nil_iff _).mpr hlabel
    · decide
    · exact (links_quoteLine_eq_nil_iff (hclose _) hkrateClose (hclose _)).mpr hfile
    · decide
    · decide

/-! ## Resolving links -/

/-- The text of a node's note in the vault. -/
def noteText (graph : Graph) (node : Node) : String :=
  renderNodeNote node (buildAdjacency graph) (collectLabels graph) (nodeCommunityMap graph)

def mocText (graph : Graph) : String := renderMoc graph (collectLabels graph)

/-- The edges of a node, each with the neighbour it leads to; a self-loop leads back. -/
def incident (graph : Graph) (id : NodeId) : List (String × NodeId) :=
  graph.edges.filterMap fun e =>
    if e.source = id then some (e.relation, e.target)
    else if e.target = id then some (e.relation, e.source) else none

/-- The edges of a node as its note lists them: by relation and then by neighbour. -/
def incidentInOrder (graph : Graph) (id : NodeId) : List (String × NodeId) :=
  sortByKey (fun entry => toLex (entry.1, entry.2)) (incident graph id)

/-- The nodes as the index lists them. -/
def listedNodes (graph : Graph) : List NodeId :=
  (listedCommunities graph).flatMap (listedMembers graph) ++ unclustered graph

/-- The link leads to the note of the node with this id. -/
def Targets (graph : Graph) (link : List Char) (id : NodeId) : Prop :=
  ∃ node ∈ graph.nodes, node.id = id ∧ link = (noteName graph node).toList

/-- Each note links the neighbours of its node, one link for each edge, and the index links
every node. -/
structure VaultResolves (graph : Graph) : Prop where
  notes : ∀ node ∈ graph.nodes, List.Forall₂ (fun link entry => Targets graph link entry.2)
    (links (noteText graph node).toList) (incidentInOrder graph node.id)
  index : List.Forall₂ (Targets graph) (links (mocText graph).toList) (listedNodes graph)

/-- A label up to the first closing brackets that follow it in a link, and what comes after
them. -/
def linkParts (label : String) : List Char × List Char :=
  (splitOnce? closeMark (label.toList ++ closeMark)).getD ([], [])

/-- What the name of a note has after the stem. -/
def idSuffix (graph : Graph) (node : Node) : List Char :=
  if Shared graph (makeStem node.label) then '_' :: node.id.display.toList else []

/-- The label of a node is the name of its note, as far as a link shows it. -/
structure LabelFits (graph : Graph) (node : Node) : Prop where
  ne_nil : (linkParts node.label).1 ≠ []
  safe : ∀ c ∈ (linkParts node.label).1, isRenderDangerous c = false
  kept : ∀ c ∈ (linkParts node.label).1.take maxLabelLen, c ≠ '/' ∧ isWhitespace c = false
  suffix : (linkParts node.label).1.drop maxLabelLen = idSuffix graph node
  shown : (linkParts node.label).1 = node.label.toList ∨
    maxLabelLen ≤ (linkParts node.label).1.length
  single : ¬ HasLink (linkParts node.label).2

/-- Every label fits, and no label and no path has a link in it. -/
structure VaultFits (graph : Graph) : Prop where
  labels : ∀ node ∈ graph.nodes, LabelFits graph node
  headings : ∀ node ∈ graph.nodes, ¬ HasLink node.label.toList
  paths : ∀ node ∈ graph.nodes, ¬ HasLink node.sourceFile.toList

theorem splitOnce?_label (label : String) :
    splitOnce? closeMark (label.toList ++ closeMark) =
      some ((linkParts label).1, (linkParts label).2) := by
  have hsome := @splitOnce?_isSome label.toList []
  rw [List.append_nil] at hsome
  obtain ⟨parts, hparts⟩ := Option.isSome_iff_exists.mp hsome
  rw [linkParts, hparts]
  rfl

theorem links_linkLine (label : String) :
    links (linkLine (displaySafe label)).toList =
      (linkParts label).1.flatMap displayChar ::
        links ((linkParts label).2.flatMap displayChar) := by
  have hline : (linkLine (displaySafe label)).toList =
      "- ".toList ++ openMark ++ ((displaySafe label).toList ++ closeMark) := by
    simp [linkLine, openMark, closeMark]
  rw [hline, links_bullet (by decide) (splitOnce?_label label)]

theorem links_neighbourLine (labelMap : PartialMap NodeId String) (entry : String × NodeId) :
    links (neighbourLine labelMap entry).toList =
      links (linkLine (displaySafe ((labelMap entry.2).getD ""))).toList := by
  have hbefore : '[' ∉ "- ".toList ++ (fieldKey entry.1).toList ++ ":: ".toList := by
    simp [notMem_fieldKey]
  have hline : (neighbourLine labelMap entry).toList =
      "- ".toList ++ (fieldKey entry.1).toList ++ ":: ".toList ++ openMark ++
        ((displaySafe ((labelMap entry.2).getD "")).toList ++ closeMark) := by
    simp [neighbourLine, openMark, closeMark]
  rw [hline, links_bullet hbefore (splitOnce?_label _), links_linkLine]

theorem toList_noteName (graph : Graph) (node : Node) :
    (noteName graph node).toList = (makeStem node.label).toList ++ idSuffix graph node := by
  unfold idSuffix
  split
  next hshared => simp [noteName_of_shared hshared]
  next hshared => rw [noteName_of_not_shared hshared, List.append_nil]

theorem notMem_idSuffix {ch : Char} (hdigit : ch.isDigit = false) (hunder : ch ≠ '_')
    (hn : ch ≠ 'n') (graph : Graph) (node : Node) : ch ∉ idSuffix graph node := by
  unfold idSuffix
  split
  next => simp [NodeId.display, hunder, hn, notMem_toDigits _ hdigit]
  next => exact List.not_mem_nil

/-- A link to a node has the name of its note for its target, and nothing after it, exactly
when the label fits. -/
theorem links_linkLine_eq_iff (graph : Graph) (node : Node) :
    links (linkLine (displaySafe node.label)).toList = [(noteName graph node).toList] ↔
      LabelFits graph node := by
  have hshown := shown_eq_iff (splitOnce?_label node.label) rfl
    (notMem_idSuffix (by decide) (by decide) (by decide) graph node : '\\' ∉ _)
    (notMem_idSuffix (by decide) (by decide) (by decide) graph node)
  rw [links_linkLine, List.cons.injEq, links_shown_eq_nil_iff, toList_noteName, hshown]
  constructor
  · intro ⟨⟨hne, hsafe, hkept, hsuffix, hwhole⟩, hsingle⟩
    exact ⟨hne, hsafe, hkept, hsuffix, hwhole, hsingle⟩
  · intro ⟨hne, hsafe, hkept, hsuffix, hwhole, hsingle⟩
    exact ⟨⟨hne, hsafe, hkept, hsuffix, hwhole⟩, hsingle⟩

section Distinct

variable {graph : Graph} (hids : (graph.nodes.map Node.id).Nodup)
include hids

theorem collectLabels_of_mem {node : Node} (hnode : node ∈ graph.nodes) :
    collectLabels graph node.id = some node.label := by
  apply insertAll_of_mem
  · rw [List.map_map]
    exact hids
  · exact List.mem_map_of_mem (f := fun n => (n.id, n.label)) hnode

theorem targets_iff {link : List Char} {node : Node} (hnode : node ∈ graph.nodes) :
    Targets graph link node.id ↔ link = (noteName graph node).toList := by
  constructor
  · intro ⟨other, hother, hid, hlink⟩
    rw [hlink, List.inj_on_of_nodup_map hids hother hnode hid]
  · intro hlink
    exact ⟨node, hnode, rfl, hlink⟩

/-- The links of a list of nodes lead to their notes exactly when their labels fit. -/
theorem forall₂_targets_iff {α : Type*} (idOf : α → NodeId) {xs : List α}
    (hxs : ∀ x ∈ xs, idOf x ∈ graph.nodes.map Node.id) (lead : List (List Char)) :
    List.Forall₂ (fun link x => Targets graph link (idOf x))
        (lead ++ xs.flatMap fun x =>
          links (linkLine (displaySafe ((collectLabels graph (idOf x)).getD ""))).toList) xs ↔
      lead = [] ∧ ∀ node ∈ graph.nodes, node.id ∈ xs.map idOf → LabelFits graph node := by
  have hline : ∀ node ∈ graph.nodes,
      (∃ link, links (linkLine (displaySafe ((collectLabels graph node.id).getD ""))).toList =
        [link] ∧ Targets graph link node.id) ↔ LabelFits graph node := by
    intro node hnode
    rw [collectLabels_of_mem hids hnode, Option.getD_some, ← links_linkLine_eq_iff]
    constructor
    · intro ⟨link, hlinks, htargets⟩
      rw [hlinks, (targets_iff hids hnode).mp htargets]
    · intro hlinks
      exact ⟨_, hlinks, (targets_iff hids hnode).mpr rfl⟩
  rw [forall₂_flatMap_iff (fun x _ => by rw [links_linkLine]; exact List.cons_ne_nil _ _)]
  apply and_congr_right
  intro _
  constructor
  · intro hlines node hnode hmem
    obtain ⟨x, hx, hid⟩ := List.mem_map.mp hmem
    have hfits := hlines x hx
    rw [hid] at hfits
    exact (hline node hnode).mp hfits
  · intro hfits x hx
    obtain ⟨node, hnode, hid⟩ := List.mem_map.mp (hxs x hx)
    rw [← hid]
    exact (hline node hnode).mpr (hfits node hnode (hid ▸ List.mem_map_of_mem hx))

end Distinct

/-! ## The notes and the index -/

theorem getD_buildAdjacency (graph : Graph) (id : NodeId) :
    (buildAdjacency graph id).getD [] = incidentInOrder graph id := by
  have hgrouped : (grouped (graph.edges.flatMap edgeNeighbours) id).getD [] =
      incident graph id := by
    rw [getD_grouped, incident, List.filter_flatMap, List.map_flatMap,
      List.filterMap_eq_flatMap_toList]
    apply List.flatMap_congr
    intro edge _
    unfold edgeNeighbours
    by_cases hsource : edge.source = id
    · by_cases hloop : edge.source = edge.target
      · simp [hsource, ← hloop]
      · have htarget : edge.target ≠ id := fun h => hloop (hsource.trans h.symm)
        simp [hsource, htarget]
    · by_cases htarget : edge.target = id
      · have hloop : edge.source ≠ edge.target := fun h => hsource (h.trans htarget)
        simp [hsource, htarget]
      · by_cases hloop : edge.source = edge.target <;> simp [hsource, hloop, htarget]
  rw [incidentInOrder, ← hgrouped, buildAdjacency]
  cases grouped (graph.edges.flatMap edgeNeighbours) id <;> rfl

/-- An edge of a node leads to a node when no edge dangles. -/
theorem mem_ids_of_incident {graph : Graph}
    (hedges : ∀ e ∈ graph.edges, e.source ∈ graph.nodes.map Node.id ∧
      e.target ∈ graph.nodes.map Node.id) {id : NodeId} {entry : String × NodeId}
    (hentry : entry ∈ incidentInOrder graph id) : entry.2 ∈ graph.nodes.map Node.id := by
  rw [incidentInOrder, mem_sortByKey, incident, List.mem_filterMap] at hentry
  obtain ⟨e, he, hsome⟩ := hentry
  split_ifs at hsome
  · obtain rfl := Option.some.inj hsome
    exact (hedges e he).2
  · obtain rfl := Option.some.inj hsome
    exact (hedges e he).1

theorem links_noteText (graph : Graph) (node : Node) :
    links (noteText graph node).toList =
      ((noteHeader node (incidentInOrder graph node.id).length
          (nodeCommunityMap graph node.id)).flatMap fun line => links line.toList) ++
      (incidentInOrder graph node.id).flatMap fun entry =>
        links (linkLine (displaySafe ((collectLabels graph entry.2).getD ""))).toList := by
  have hbullets : (((incidentInOrder graph node.id).map
      (neighbourLine (collectLabels graph))).flatMap fun line => links line.toList) =
      (incidentInOrder graph node.id).flatMap fun entry =>
        links (linkLine (displaySafe ((collectLabels graph entry.2).getD ""))).toList := by
    rw [List.flatMap_map]
    exact List.flatMap_congr fun entry _ => links_neighbourLine _ entry
  simp only [noteText, renderNodeNote, getD_buildAdjacency]
  rw [links_unlines, List.flatMap_append, hbullets]

/-- Bullets under headings without brackets. -/
theorem links_section (graph : Graph) {headings : List String}
    (hheadings : ∀ heading ∈ headings, '[' ∉ heading.toList) (ids : List NodeId) :
    ((headings ++ ids.map fun id =>
        linkLine (displaySafe ((collectLabels graph id).getD ""))).flatMap
      fun line => links line.toList) =
      ids.flatMap fun id =>
        links (linkLine (displaySafe ((collectLabels graph id).getD ""))).toList := by
  have hnone : (headings.flatMap fun line => links line.toList) = [] :=
    List.flatMap_eq_nil_iff.mpr fun heading hmem => links_noOpen (hheadings heading hmem)
  rw [List.flatMap_append, hnone, List.flatMap_map, List.nil_append]

/-- The index links the nodes it lists. -/
theorem links_mocText (graph : Graph) :
    links (mocText graph).toList = (listedNodes graph).flatMap fun id =>
      links (linkLine (displaySafe ((collectLabels graph id).getD ""))).toList := by
  have hcommunity : ∀ cid : CommunityId,
      ∀ heading ∈ ["", "## community " ++ cid.display, ""], '[' ∉ heading.toList := by
    intro cid
    simp [CommunityId.display, notMem_toDigits]
  have hunclustered : ((if (unclustered graph).isEmpty then []
      else ["", "## Unclustered", ""] ++ (unclustered graph).map fun id =>
        linkLine (displaySafe ((collectLabels graph id).getD ""))).flatMap
        fun line => links line.toList) = (unclustered graph).flatMap fun id =>
          links (linkLine (displaySafe ((collectLabels graph id).getD ""))).toList := by
    split
    next hempty => rw [List.isEmpty_iff.mp hempty]; rfl
    next => exact links_section graph (by decide) _
  have htitle : links "# Map of Content".toList = [] := by decide
  simp only [mocText, renderMoc, listedNodes]
  rw [links_unlines, List.flatMap_append, List.flatMap_append, List.flatMap_cons, htitle,
    List.flatMap_append, List.flatMap_assoc, List.flatMap_assoc, hunclustered,
    List.flatMap_congr fun cid _ => links_section graph (hcommunity cid) _]
  rfl

theorem listedNodes_perm (graph : Graph) : (listedNodes graph).Perm (graph.nodes.map Node.id) := by
  have hmembers : ((listedCommunities graph).flatMap (listedMembers graph)).Perm
      ((graph.nodes.filter fun n => (nodeCommunityMap graph n.id).isSome).map Node.id) := by
    have hsorted : ((listedCommunities graph).flatMap (listedMembers graph)).Perm
        (((listedCommunities graph).flatMap fun cid =>
          graph.nodes.filter fun n => nodeCommunityMap graph n.id = some cid).map Node.id) := by
      rw [List.map_flatMap]
      exact List.Perm.flatMap_left _ fun cid _ => sortByKey_perm _
    have hnodup : (listedCommunities graph).Nodup :=
      (pairwise_sortDedup _).imp fun h => h.ne
    refine hsorted.trans (((flatMap_filter_perm hnodup graph.nodes fun n =>
      nodeCommunityMap graph n.id).trans (List.Perm.of_eq ?_)).map Node.id)
    apply List.filter_congr
    intro node hnode
    cases hcid : nodeCommunityMap graph node.id with
    | none => rfl
    | some cid =>
        have hlisted : cid ∈ listedCommunities graph :=
          mem_sortDedup.mpr (List.mem_filterMap.mpr ⟨node, hnode, hcid⟩)
        simpa using hlisted
  have hpart := List.filter_append_perm (fun n => (nodeCommunityMap graph n.id).isSome) graph.nodes
  have hothers : (graph.nodes.filter fun n => !(nodeCommunityMap graph n.id).isSome).map Node.id =
      unclustered graph := by
    rw [unclustered]
    congr 1
    apply List.filter_congr
    intro node _
    cases nodeCommunityMap graph node.id <;> rfl
  have hall := hpart.map Node.id
  rw [List.map_append, hothers] at hall
  exact (hmembers.append_right _).trans hall

theorem renderVault_perm (graph : Graph) :
    (renderVault graph).Perm
      ((graph.nodes.map fun node => (noteName graph node ++ ".md", noteText graph node)) ++
        [(mocFilename, mocText graph)]) := by
  have hzip : graph.nodes.zip (assignFilenames graph) =
      graph.nodes.map fun node => (node, noteName graph node ++ ".md") := by
    have hmap := @List.zip_map' _ _ _ id (fun node => noteName graph node ++ ".md") graph.nodes
    rw [List.map_id] at hmap
    exact hmap
  refine (sortByKey_perm _).trans (List.Perm.of_eq ?_)
  rw [hzip, List.map_map]
  rfl

/-- The links of a note lead to the neighbours of its node exactly when the labels of these
fit and no other text of the note has a link. -/
theorem noteResolves_iff {graph : Graph} (hids : (graph.nodes.map Node.id).Nodup)
    (hedges : ∀ e ∈ graph.edges, e.source ∈ graph.nodes.map Node.id ∧
      e.target ∈ graph.nodes.map Node.id) (node : Node) :
    List.Forall₂ (fun link entry => Targets graph link entry.2)
        (links (noteText graph node).toList) (incidentInOrder graph node.id) ↔
      (¬ HasLink node.sourceFile.toList ∧ ¬ HasLink node.label.toList) ∧
        ∀ peer ∈ graph.nodes, peer.id ∈ (incidentInOrder graph node.id).map Prod.snd →
          LabelFits graph peer := by
  have hincident : ∀ entry ∈ incidentInOrder graph node.id,
      entry.2 ∈ graph.nodes.map Node.id := fun _ => mem_ids_of_incident hedges
  rw [links_noteText, forall₂_targets_iff hids Prod.snd hincident, links_noteHeader_eq_nil_iff]

/-- The links of the index lead to the nodes it lists exactly when all labels fit. -/
theorem indexResolves_iff {graph : Graph} (hids : (graph.nodes.map Node.id).Nodup) :
    List.Forall₂ (Targets graph) (links (mocText graph).toList) (listedNodes graph) ↔
      ∀ node ∈ graph.nodes, LabelFits graph node := by
  have hlisted : ∀ id ∈ listedNodes graph, id ∈ graph.nodes.map Node.id :=
    fun id => (listedNodes_perm graph).mem_iff.mp
  have hall : ∀ node ∈ graph.nodes, node.id ∈ (listedNodes graph).map fun id => id := by
    intro node hnode
    rw [List.map_id']
    exact (listedNodes_perm graph).mem_iff.mpr (List.mem_map_of_mem hnode)
  rw [links_mocText]
  apply (forall₂_targets_iff hids (fun id => id) hlisted []).trans
  constructor
  · intro ⟨_, hfits⟩ node hnode
    exact hfits node hnode (hall node hnode)
  · intro hfits
    exact ⟨rfl, fun node hnode _ => hfits node hnode⟩

/-- The links of the vault resolve exactly when every label is the name of its note, as far
as a link shows it, and no label and no path has a link in it. The ids are distinct and no
edge dangles; the vault is one note for each node and an index of them all. -/
theorem vaultResolves_iff {graph : Graph} (hids : (graph.nodes.map Node.id).Nodup)
    (hedges : ∀ e ∈ graph.edges, e.source ∈ graph.nodes.map Node.id ∧
      e.target ∈ graph.nodes.map Node.id) :
    (renderVault graph).Perm
        ((graph.nodes.map fun node => (noteName graph node ++ ".md", noteText graph node)) ++
          [(mocFilename, mocText graph)]) ∧
      (listedNodes graph).Perm (graph.nodes.map Node.id) ∧
      (VaultResolves graph ↔ VaultFits graph) := by
  refine ⟨renderVault_perm graph, listedNodes_perm graph, ?_⟩
  constructor
  · intro ⟨hresolved, hindexed⟩
    constructor
    · exact (indexResolves_iff hids).mp hindexed
    · intro node hnode
      exact ((noteResolves_iff hids hedges node).mp (hresolved node hnode)).1.2
    · intro node hnode
      exact ((noteResolves_iff hids hedges node).mp (hresolved node hnode)).1.1
  · intro ⟨hlabels, hheadings, hpaths⟩
    constructor
    · intro node hnode
      exact (noteResolves_iff hids hedges node).mpr ⟨⟨hpaths node hnode, hheadings node hnode⟩,
        fun peer hpeer _ => hlabels peer hpeer⟩
    · exact (indexResolves_iff hids).mpr hlabels

/-- Two notes and the edges between them, one a loop. -/
def plainLabels : Graph := { Graph.new with
  nodes := [⟨⟨1⟩, "foo", "a.rs", ⟨0, 1, 1, 1⟩⟩, ⟨⟨2⟩, "bar", "b.rs", ⟨0, 1, 1, 1⟩⟩]
  edges := [⟨⟨1⟩, ⟨2⟩, "calls", .extracted⟩, ⟨⟨1⟩, ⟨1⟩, "calls", .extracted⟩] }

theorem vaultResolves_plainLabels : VaultResolves plainLabels := by
  have hnone : ∀ {chars : List Char}, '[' ∉ chars → ¬ HasLink chars := by
    rintro chars hopen ⟨before, target, after, rfl⟩
    exact hopen (by simp [openMark])
  refine (vaultResolves_iff (by decide) (by decide)).2.2.mpr ⟨?_, ?_, ?_⟩
  · intro node hnode
    have hcases : node = ⟨⟨1⟩, "foo", "a.rs", ⟨0, 1, 1, 1⟩⟩ ∨
        node = ⟨⟨2⟩, "bar", "b.rs", ⟨0, 1, 1, 1⟩⟩ := by simpa [plainLabels] using hnode
    rcases hcases with rfl | rfl
    · exact ⟨by decide, List.all_iff_forall_prop.mp (by decide),
        List.all_iff_forall_prop.mp (by decide), by decide, by decide, hnone (by decide)⟩
    · exact ⟨by decide, List.all_iff_forall_prop.mp (by decide),
        List.all_iff_forall_prop.mp (by decide), by decide, by decide, hnone (by decide)⟩
  · intro node hnode
    exact hnone (by revert node; decide)
  · intro node hnode
    exact hnone (by revert node; decide)

instance (graph : Graph) (link : List Char) (id : NodeId) : Decidable (Targets graph link id) :=
  inferInstanceAs (Decidable (∃ node ∈ graph.nodes, _ ∧ _))

/-- A node whose label has a blank in it. -/
def spacedLabel : Graph := { Graph.new with
  nodes := [⟨⟨1⟩, "foo bar", "a.rs", ⟨0, 1, 1, 1⟩⟩, ⟨⟨2⟩, "baz", "b.rs", ⟨0, 1, 1, 1⟩⟩]
  edges := [⟨⟨2⟩, ⟨1⟩, "calls", .extracted⟩] }

/-- The links go to `foo bar`, and the note is `foo_bar.md`. -/
theorem links_spacedLabel :
    (spacedLabel.nodes.map Node.id).Nodup ∧
    (∀ e ∈ spacedLabel.edges, e.source ∈ spacedLabel.nodes.map Node.id ∧
      e.target ∈ spacedLabel.nodes.map Node.id) ∧
    (spacedLabel.nodes.map fun node => links (noteText spacedLabel node).toList) =
      [["baz".toList], ["foo bar".toList]] ∧
    links (mocText spacedLabel).toList = ["foo bar".toList, "baz".toList] ∧
    assignFilenames spacedLabel = ["foo_bar.md", "baz.md"] ∧
    ¬ VaultResolves spacedLabel := by
  have hnotes : (spacedLabel.nodes.map fun node => links (noteText spacedLabel node).toList) =
      [["baz".toList], ["foo bar".toList]] := by
    simp only [links_noteText]
    decide +kernel
  have hindex : links (mocText spacedLabel).toList = ["foo bar".toList, "baz".toList] := by
    rw [links_mocText]
    decide +kernel
  refine ⟨by decide, by decide, hnotes, hindex, by decide +kernel, ?_⟩
  intro ⟨_, hresolves⟩
  rw [hindex] at hresolves
  revert hresolves
  decide +kernel

end HabitatGraph
