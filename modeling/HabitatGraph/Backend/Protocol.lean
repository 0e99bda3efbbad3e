import HabitatGraph.Core.Sanitize
import HabitatGraph.Core.Schema
import HabitatGraph.Core.Text
import HabitatGraph.Foundation.KeptEnds
import Mathlib.Data.Bool.AllAny

/-! # Semantic extraction

A model answers with nodes and edges by name. Its answer is untrusted: names are trimmed
and stripped of control characters, cut to the length of a label, and dropped when
nothing is left of them.
-/

namespace HabitatGraph

open KeptEnds

/-- The relation of an edge that names none. -/
def defaultRelation : String := "relates_to"

/-- Semantic nodes have no place in the source. -/
def semanticSpan : Span := ⟨0, 0, 0, 0⟩

/-- A node of the answer. -/
structure WireNode where
  label : String
deriving DecidableEq, Repr

/-- An edge of the answer, its relation empty when it is absent. -/
structure WireEdge where
  source : String
  target : String
  relation : String
deriving DecidableEq, Repr

/-- The envelope of the answer, without nodes or edges when these are absent. -/
structure WireGraph where
  nodes : List WireNode
  edges : List WireEdge
deriving DecidableEq, Repr

/-- The node a wire node becomes, none when its label is empty. -/
def semanticNode (sourceFile : String) (node : WireNode) : Option RawNode :=
  let label := sanitizeLabel (trim node.label)
  if label.isEmpty then none else some ⟨label, sourceFile, semanticSpan⟩

/-- The relation of an edge. -/
def semanticRelation (relation : String) : String :=
  if (trim relation).isEmpty then defaultRelation else sanitizeLabel (trim relation)

/-- The edge a wire edge becomes, none when an end of it is empty. -/
def semanticEdge (edge : WireEdge) : Option RawEdge :=
  let source := sanitizeLabel (trim edge.source)
  let target := sanitizeLabel (trim edge.target)
  if source.isEmpty || target.isEmpty then none
  else some ⟨source, target, semanticRelation edge.relation, .inferred⟩

/-- The extraction of a model's answer, which the JSON library decodes. -/
def parseSemantic (decode : String → Except String WireGraph) (raw sourceFile : String) :
    Except GraphError Extraction := do
  let wire ← (decode raw).mapError fun e =>
    .backend ("semantic response was not the expected JSON object: " ++ e)
  return ⟨wire.nodes.filterMap (semanticNode sourceFile), wire.edges.filterMap semanticEdge⟩

/-! ## Clean names -/

/-- A name fit for interning. -/
structure CleanName (s : String) : Prop where
  ne_empty : s ≠ ""
  not_padded : ¬ Padded isWhitespace s.toList
  no_control : ∀ ch ∈ s.toList, ¬ isControl ch
  length_le : s.length ≤ maxLabelLen

/-- A blank comes to an end of the trimmed text when its control characters and what is
over the length of a label go: it stands behind control characters at the beginning, or
before control characters at the end, or where the text is cut. -/
def BlankExposed (s : String) : Prop :=
  Exposes (fun ch => !isControl ch) isWhitespace maxLabelLen (trim s).toList

/-- There is a character in the trimmed text that is no control character. -/
def HasText (s : String) : Prop := ∃ ch ∈ (trim s).toList, ¬ isControl ch

theorem toList_sanitizeLabel_eq_kept (s : String) :
    (sanitizeLabel s).toList = kept (fun ch => !isControl ch) maxLabelLen s.toList :=
  toList_sanitizeLabel s

theorem sanitizeLabel_eq_empty_iff {s : String} :
    sanitizeLabel (trim s) = "" ↔ ¬ HasText s := by
  rw [← String.toList_eq_nil_iff, toList_sanitizeLabel, List.take_eq_nil_iff,
    List.filter_eq_nil_iff]
  simp [maxLabelLen, HasText]

/-- Sanitizing a trimmed text leaves a clean name exactly when it exposes no blank. -/
theorem cleanName_sanitizeLabel_iff {s : String} :
    CleanName (sanitizeLabel (trim s)) ↔ HasText s ∧ ¬ BlankExposed s := by
  -- trimming comes first, so a blank can come to an end again
  have hpadded : Padded isWhitespace (sanitizeLabel (trim s)).toList ↔ BlankExposed s := by
    rw [toList_sanitizeLabel_eq_kept]
    exact padded_kept_iff (by decide)
  constructor
  · intro hclean
    refine ⟨?_, fun hexposed => hclean.not_padded (hpadded.mpr hexposed)⟩
    by_contra hnone
    exact hclean.ne_empty (sanitizeLabel_eq_empty_iff.mpr hnone)
  · intro ⟨htext, hexposed⟩
    constructor
    · exact fun hempty => sanitizeLabel_eq_empty_iff.mp hempty htext
    · exact fun hpad => hexposed (hpadded.mp hpad)
    · intro ch hch
      rw [toList_sanitizeLabel] at hch
      have hkept := List.of_mem_filter (List.mem_of_mem_take hch)
      simpa using hkept
    · rw [← String.length_toList, toList_sanitizeLabel]
      exact List.length_take_le _ _

/-! ## Clean extractions -/

/-- A text without a character that is no blank. -/
def IsBlank (s : String) : Prop := ∀ ch ∈ s.toList, isWhitespace ch

theorem CleanName.not_isBlank {s : String} (hclean : CleanName s) : ¬ IsBlank s := by
  intro hblank
  obtain ⟨first, rest, hs⟩ : ∃ first rest, s.toList = first :: rest :=
    List.exists_cons_of_ne_nil fun hnil => hclean.ne_empty (String.toList_eq_nil_iff.mp hnil)
  apply hclean.not_padded
  left
  exact ⟨first, by rw [hs]; rfl, hblank first (by rw [hs]; exact List.mem_cons_self)⟩

/-- Every name of the extraction is clean, and a relation that is blank once cleaned is
the default. -/
structure CleanExtraction (wire : WireGraph) (extraction : Extraction) : Prop where
  labels : ∀ node ∈ extraction.nodes, CleanName node.label
  edges : ∀ edge ∈ extraction.edges,
    CleanName edge.source ∧ CleanName edge.target ∧ CleanName edge.relation
  default_relation : ∀ wireEdge ∈ wire.edges, ∀ edge, semanticEdge wireEdge = some edge →
    IsBlank (sanitizeLabel (trim wireEdge.relation)) → edge.relation = defaultRelation

/-- The names of the answer expose no blank; where an edge has both its ends, its relation
is left out or has text. -/
structure WellSpaced (wire : WireGraph) : Prop where
  labels : ∀ node ∈ wire.nodes, ¬ BlankExposed node.label
  edges : ∀ edge ∈ wire.edges, HasText edge.source → HasText edge.target →
    ¬ BlankExposed edge.source ∧ ¬ BlankExposed edge.target ∧
      ((trim edge.relation).isEmpty ∨ HasText edge.relation ∧ ¬ BlankExposed edge.relation)

theorem BlankExposed.hasText {s : String} (hexposed : BlankExposed s) : HasText s := by
  obtain ⟨before, ch, after, hs, hkeep, -, -, -⟩ := hexposed
  exact ⟨ch, by rw [hs]; exact List.mem_append_right _ List.mem_cons_self, by simpa using hkeep⟩

theorem isEmpty_sanitizeLabel_iff {s : String} :
    (sanitizeLabel (trim s)).isEmpty = true ↔ ¬ HasText s := by
  rw [String.isEmpty_iff, sanitizeLabel_eq_empty_iff]

theorem semanticNode_eq_some_iff {sourceFile : String} {wireNode : WireNode} {node : RawNode} :
    semanticNode sourceFile wireNode = some node ↔
      HasText wireNode.label ∧
        ⟨sanitizeLabel (trim wireNode.label), sourceFile, semanticSpan⟩ = node := by
  rw [semanticNode, Option.ite_none_left_eq_some, isEmpty_sanitizeLabel_iff, not_not,
    Option.some.injEq]

theorem semanticEdge_eq_some_iff {wireEdge : WireEdge} {edge : RawEdge} :
    semanticEdge wireEdge = some edge ↔
      (HasText wireEdge.source ∧ HasText wireEdge.target) ∧
        ⟨sanitizeLabel (trim wireEdge.source), sanitizeLabel (trim wireEdge.target),
          semanticRelation wireEdge.relation, .inferred⟩ = edge := by
  rw [semanticEdge, Option.ite_none_left_eq_some, Bool.or_eq_true, isEmpty_sanitizeLabel_iff,
    isEmpty_sanitizeLabel_iff, ← not_and_or, not_not, Option.some.injEq]

theorem cleanName_defaultRelation : CleanName defaultRelation := by
  constructor
  · decide
  · simp [Padded, defaultRelation, isWhitespace]
  · exact List.all_iff_forall_prop.mp (by decide)
  · decide

theorem cleanName_semanticRelation_iff {relation : String} :
    CleanName (semanticRelation relation) ↔
      (trim relation).isEmpty ∨ HasText relation ∧ ¬ BlankExposed relation := by
  unfold semanticRelation
  split
  next hempty => exact iff_of_true cleanName_defaultRelation (Or.inl hempty)
  next hsome => rw [cleanName_sanitizeLabel_iff, or_iff_right hsome]

/-- A relation that is blank once cleaned is only replaced when nothing is left after
trimming, so it is clean just then. -/
theorem semanticRelation_of_isBlank {relation : String}
    (hclean : CleanName (semanticRelation relation))
    (hblank : IsBlank (sanitizeLabel (trim relation))) :
    semanticRelation relation = defaultRelation := by
  unfold semanticRelation at hclean ⊢
  split at hclean
  next hempty => rw [if_pos hempty]
  next => exact absurd hblank hclean.not_isBlank

theorem cleanName_semanticNode_iff {sourceFile : String} {wireNode : WireNode} {node : RawNode}
    (h : semanticNode sourceFile wireNode = some node) :
    CleanName node.label ↔ ¬ BlankExposed wireNode.label := by
  obtain ⟨htext, rfl⟩ := semanticNode_eq_some_iff.mp h
  dsimp only
  rw [cleanName_sanitizeLabel_iff, and_iff_right htext]

theorem cleanName_semanticEdge_iff {wireEdge : WireEdge} {edge : RawEdge}
    (h : semanticEdge wireEdge = some edge) :
    (CleanName edge.source ∧ CleanName edge.target ∧ CleanName edge.relation) ↔
      ¬ BlankExposed wireEdge.source ∧ ¬ BlankExposed wireEdge.target ∧
        ((trim wireEdge.relation).isEmpty ∨
          HasText wireEdge.relation ∧ ¬ BlankExposed wireEdge.relation) := by
  obtain ⟨⟨hsource, htarget⟩, rfl⟩ := semanticEdge_eq_some_iff.mp h
  dsimp only
  rw [cleanName_sanitizeLabel_iff, cleanName_sanitizeLabel_iff, cleanName_semanticRelation_iff,
    and_iff_right hsource, and_iff_right htarget]

theorem defaultRelation_of_isBlank {wireEdge : WireEdge} {edge : RawEdge}
    (h : semanticEdge wireEdge = some edge) (hclean : CleanName edge.relation)
    (hblank : IsBlank (sanitizeLabel (trim wireEdge.relation))) :
    edge.relation = defaultRelation := by
  obtain ⟨-, rfl⟩ := semanticEdge_eq_some_iff.mp h
  dsimp only at hclean ⊢
  exact semanticRelation_of_isBlank hclean hblank

/-- Decoded answers are extracted, and cleanly so exactly when they are well spaced. The
answer may be any envelope that decodes: with repeated names, edges between undeclared
ends, and names of blanks or control characters. -/
theorem parseSemantic_clean_iff {decode : String → Except String WireGraph} {raw : String}
    {wire : WireGraph} (hdecode : decode raw = .ok wire) (sourceFile : String) :
    ∃ extraction, parseSemantic decode raw sourceFile = .ok extraction ∧
      (CleanExtraction wire extraction ↔ WellSpaced wire) := by
  refine ⟨⟨wire.nodes.filterMap (semanticNode sourceFile), wire.edges.filterMap semanticEdge⟩,
    by rw [parseSemantic, hdecode]; rfl, ?_⟩
  constructor
  · intro hclean
    constructor
    · intro wireNode hwire hexposed
      obtain ⟨node, hsome⟩ : ∃ node, semanticNode sourceFile wireNode = some node :=
        ⟨_, semanticNode_eq_some_iff.mpr ⟨hexposed.hasText, rfl⟩⟩
      have hlabel := hclean.labels _ (List.mem_filterMap.mpr ⟨wireNode, hwire, hsome⟩)
      exact (cleanName_semanticNode_iff hsome).mp hlabel hexposed
    · intro wireEdge hwire hsource htarget
      obtain ⟨edge, hsome⟩ : ∃ edge, semanticEdge wireEdge = some edge :=
        ⟨_, semanticEdge_eq_some_iff.mpr ⟨⟨hsource, htarget⟩, rfl⟩⟩
      have hnames := hclean.edges _ (List.mem_filterMap.mpr ⟨wireEdge, hwire, hsome⟩)
      exact (cleanName_semanticEdge_iff hsome).mp hnames
  · intro hspaced
    have hedges : ∀ wireEdge ∈ wire.edges, ∀ edge, semanticEdge wireEdge = some edge →
        CleanName edge.source ∧ CleanName edge.target ∧ CleanName edge.relation := by
      intro wireEdge hwire edge hsome
      obtain ⟨hsource, htarget⟩ := (semanticEdge_eq_some_iff.mp hsome).1
      exact (cleanName_semanticEdge_iff hsome).mpr (hspaced.edges wireEdge hwire hsource htarget)
    constructor
    · intro node hnode
      obtain ⟨wireNode, hwire, hsome⟩ := List.mem_filterMap.mp hnode
      exact (cleanName_semanticNode_iff hsome).mpr (hspaced.labels wireNode hwire)
    · intro edge hedge
      obtain ⟨wireEdge, hwire, hsome⟩ := List.mem_filterMap.mp hedge
      exact hedges wireEdge hwire edge hsome
    · intro wireEdge hwire edge hsome hblank
      exact defaultRelation_of_isBlank hsome (hedges wireEdge hwire edge hsome).2.2 hblank

/-- An answer with one node that has this label. -/
def oneLabelAnswer (label : String) : String :=
  "\x7b\"nodes\":[\x7b\"label\":\"" ++ label ++ "\"\x7d]\x7d"

/-- An answer with two nodes and two edges, one without a relation. -/
def linkedAnswer : String :=
  "\x7b\"nodes\":[\x7b\"label\":\" a \"\x7d,\x7b\"label\":\"b c\"\x7d]," ++
    "\"edges\":[\x7b\"source\":\"a\",\"target\":\" b c\",\"relation\":\" uses \"\x7d," ++
    "\x7b\"source\":\"b c\",\"target\":\"a \",\"relation\":\" \"\x7d]\x7d"

def linkedWire : WireGraph :=
  ⟨[⟨" a "⟩, ⟨"b c"⟩], [⟨"a", " b c", " uses "⟩, ⟨"b c", "a ", " "⟩]⟩

/-- The library on some answers, the first with escaped control characters. -/
def answerDecode : String → Except String WireGraph := fun raw =>
  if raw = oneLabelAnswer "\\u0001 \\u0001" then
    .ok ⟨[⟨String.ofList ['\x01', ' ', '\x01']⟩], []⟩
  else if raw = linkedAnswer then .ok linkedWire
  else .error "expected value at line 1 column 1"

theorem parseSemantic_clean_spaced :
    parseSemantic answerDecode linkedAnswer "doc.md" =
        .ok ⟨[⟨"a", "doc.md", semanticSpan⟩, ⟨"b c", "doc.md", semanticSpan⟩],
          [⟨"a", "b c", "uses", .inferred⟩, ⟨"b c", "a", defaultRelation, .inferred⟩]⟩ ∧
      ∃ extraction, parseSemantic answerDecode linkedAnswer "doc.md" = .ok extraction ∧
        (CleanExtraction linkedWire extraction ↔ WellSpaced linkedWire) :=
  ⟨by decide +kernel, parseSemantic_clean_iff (by decide +kernel) "doc.md"⟩

/-- Control characters hide a blank from trimming, and a blank label is kept. -/
theorem parseSemantic_blankLabel :
    parseSemantic answerDecode (oneLabelAnswer "\\u0001 \\u0001") "doc.md" =
      .ok ⟨[⟨" ", "doc.md", semanticSpan⟩], []⟩ ∧
    IsBlank " " ∧ ¬ CleanName " " := by
  have hblank : IsBlank " " := by simp [IsBlank, isWhitespace]
  refine ⟨by decide +kernel, hblank, fun hclean => hclean.not_isBlank hblank⟩

end HabitatGraph
