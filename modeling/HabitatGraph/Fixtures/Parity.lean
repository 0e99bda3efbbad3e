import HabitatGraph.Build.MergeAlgebra
import HabitatGraph.Foundation.SortedSet
import HabitatGraph.Serve.LoadRoundTrip

/-! # Parity with goldens

Two implementations give one repository different node ids, so their graphs are
compared as sets of labels and of edges between labels. What such a comparison
reports of an assembled graph depends on what its extractions declare and on
nothing else, and exporting the graph and loading it again loses no coverage of
a golden.
-/

namespace HabitatGraph

open KeyedList StableSort

/-! ## Normalized graphs -/

/-- Source label, target label and relation, in the order of sorted sets. -/
abbrev EdgeTriple := String ×ₗ String ×ₗ String

def edgeTriple (source target relation : String) : EdgeTriple :=
  toLex (source, toLex (target, relation))

@[simp] theorem edgeTriple_inj {s t r s' t' r' : String} :
    edgeTriple s t r = edgeTriple s' t' r' ↔ s = s' ∧ t = t' ∧ r = r' := by
  simp [edgeTriple]

theorem exists_edgeTriple (k : EdgeTriple) : ∃ s t r, edgeTriple s t r = k :=
  ⟨(ofLex k).1, (ofLex (ofLex k).2).1, (ofLex (ofLex k).2).2, rfl⟩

/-- A graph reduced to sets of labels and of edges between labels. -/
@[ext] structure NormalizedGraph where
  nodes : SortedSet String
  edges : SortedSet EdgeTriple

/-- The edges of one relation. -/
def NormalizedGraph.edgesWithRelation (g : NormalizedGraph) (relation : String) :
    SortedSet EdgeTriple := g.edges.filter fun e => (ofLex (ofLex e).2).2 = relation

/-- The label of each id; a later node of an id replaces an earlier one. -/
def idToLabel (g : Graph) : PartialMap NodeId String :=
  PartialMap.ofEntries (g.nodes.map fun n => (n.id, n.label))

/-- The labels and edges of a graph. An edge without one of its ends is skipped. -/
def fromCore (g : Graph) : NormalizedGraph where
  nodes := SortedSet.ofList (g.nodes.map Node.label)
  edges := SortedSet.ofList (g.edges.filterMap fun e =>
    (idToLabel g e.source).bind fun src =>
      (idToLabel g e.target).map fun tgt => edgeTriple src tgt e.relation)

/-- An array under a key of a golden. -/
def goldenArray (key : String) (root : JsonValue) : Except GraphError (List JsonValue) :=
  okOrSchema ("top-level '" ++ key ++ "' key is absent or not an array")
    ((root.get key).bind JsonValue.asArray)

/-- A text field of an entry of a golden. -/
def goldenField (entry : String) (idx : Nat) (key : String) (v : JsonValue) :
    Except GraphError String :=
  okOrSchema (entry ++ "[" ++ toString idx ++ "] missing string field '" ++ key ++ "'")
    ((v.get key).bind JsonValue.asStr)

/-- A link of a golden, by the ids of its ends. -/
def goldenLink (idx : Nat) (link : JsonValue) : Except GraphError EdgeTriple := do
  let source ← goldenField "link" idx "source" link
  let target ← goldenField "link" idx "target" link
  let relation ← goldenField "link" idx "relation" link
  .ok (edgeTriple source target relation)

/-- Read a committed golden, whose ids play the part of labels. -/
def fromGolden (serde : SerdeJson) (json : String) : Except GraphError NormalizedGraph := do
  let root ← (serde.fromStr json).mapError fun e => GraphError.schema ("invalid JSON: " ++ e)
  let nodesArr ← goldenArray "nodes" root
  let nodes ← nodesArr.zipIdx.mapM fun entry => goldenField "node" entry.2 "id" entry.1
  let linksArr ← goldenArray "links" root
  let edges ← linksArr.zipIdx.mapM fun entry => goldenLink entry.2 entry.1
  .ok ⟨SortedSet.ofList nodes, SortedSet.ofList edges⟩

theorem goldenArray_eq_ok_iff {key : String} {root : JsonValue} {values : List JsonValue} :
    goldenArray key root = .ok values ↔ (root.get key).bind JsonValue.asArray = some values :=
  okOrSchema_eq_ok_iff

theorem goldenField_eq_ok_iff {entry key text : String} {idx : Nat} {v : JsonValue} :
    goldenField entry idx key v = .ok text ↔ (v.get key).bind JsonValue.asStr = some text :=
  okOrSchema_eq_ok_iff

/-- The edge that a link of a golden asserts. -/
def linkTriple (link : JsonValue) : Option EdgeTriple := do
  let source ← (link.get "source").bind JsonValue.asStr
  let target ← (link.get "target").bind JsonValue.asStr
  let relation ← (link.get "relation").bind JsonValue.asStr
  some (edgeTriple source target relation)

theorem linkTriple_of_goldenLink {idx : Nat} {link : JsonValue} {e : EdgeTriple}
    (h : goldenLink idx link = .ok e) : linkTriple link = some e := by
  obtain ⟨source, hsource, h⟩ := bind_eq_ok_iff.mp h
  obtain ⟨target, htarget, h⟩ := bind_eq_ok_iff.mp h
  obtain ⟨relation, hrelation, h⟩ := bind_eq_ok_iff.mp h
  cases h
  rw [goldenField_eq_ok_iff] at hsource htarget hrelation
  simp only [linkTriple, hsource, htarget, hrelation]
  rfl

/-- A golden that is read has the ids and the links of its document. -/
theorem exists_document_of_fromGolden {serde : SerdeJson} {json : String}
    {golden : NormalizedGraph} (h : fromGolden serde json = .ok golden) :
    ∃ root nodesArr linksArr, serde.fromStr json = .ok root ∧
      (root.get "nodes").bind JsonValue.asArray = some nodesArr ∧
      (root.get "links").bind JsonValue.asArray = some linksArr ∧
      golden.nodes =
        SortedSet.ofList (nodesArr.filterMap fun v => (v.get "id").bind JsonValue.asStr) ∧
      golden.edges = SortedSet.ofList (linksArr.filterMap linkTriple) := by
  obtain ⟨root, hroot, h⟩ := bind_eq_ok_iff.mp h
  obtain ⟨nodesArr, hnodesArr, h⟩ := bind_eq_ok_iff.mp h
  obtain ⟨nodes, hnodes, h⟩ := bind_eq_ok_iff.mp h
  obtain ⟨linksArr, hlinksArr, h⟩ := bind_eq_ok_iff.mp h
  obtain ⟨edges, hedges, h⟩ := bind_eq_ok_iff.mp h
  cases h
  have hids := filterMap_of_mapM_zipIdx (fun i v => goldenField "node" i "id" v)
    (f := some) (fun _ _ _ => goldenField_eq_ok_iff.mp) hnodes
  have htriples := filterMap_of_mapM_zipIdx goldenLink (f := some)
    (fun _ _ _ => linkTriple_of_goldenLink) hedges
  refine ⟨root, nodesArr, linksArr, mapError_eq_ok_iff.mp hroot,
    goldenArray_eq_ok_iff.mp hnodesArr, goldenArray_eq_ok_iff.mp hlinksArr, ?_, ?_⟩
  · rw [hids, List.filterMap_some]
  · rw [htriples, List.filterMap_some]

/-! ## Reports -/

/-- The outcome of comparing a graph to a golden. -/
@[ext] structure ParityReport where
  nodesMatched : Nat
  nodesMissing : List String
  nodesExtra : List String
  edgesMatched : Nat
  edgesMissing : List EdgeTriple
  edgesExtra : List EdgeTriple
deriving DecidableEq

/-- Nothing of the golden is missing. -/
def ParityReport.isRegressionFree (r : ParityReport) : Bool :=
  r.nodesMissing.isEmpty && r.edgesMissing.isEmpty

theorem ParityReport.isRegressionFree_iff {r : ParityReport} :
    r.isRegressionFree = true ↔ r.nodesMissing = [] ∧ r.edgesMissing = [] := by
  simp [isRegressionFree, List.isEmpty_iff]

/-- Compare `ours` against a golden. -/
def classify (ours golden : NormalizedGraph) : ParityReport where
  nodesMatched := (ours.nodes.intersection golden.nodes).card
  nodesMissing := (golden.nodes.difference ours.nodes).toList
  nodesExtra := (ours.nodes.difference golden.nodes).toList
  edgesMatched := (ours.edges.intersection golden.edges).card
  edgesMissing := (golden.edges.difference ours.edges).toList
  edgesExtra := (ours.edges.difference golden.edges).toList

section Reports

variable {ours ours' golden : NormalizedGraph}

@[simp] theorem mem_nodesMissing_classify {label : String} :
    label ∈ (classify ours golden).nodesMissing ↔ label ∈ golden.nodes ∧ label ∉ ours.nodes :=
  SortedSet.mem_toList.trans SortedSet.mem_difference

@[simp] theorem mem_edgesMissing_classify {e : EdgeTriple} :
    e ∈ (classify ours golden).edgesMissing ↔ e ∈ golden.edges ∧ e ∉ ours.edges :=
  SortedSet.mem_toList.trans SortedSet.mem_difference

/-- What a golden and a graph have is counted without remainder. -/
structure ParityReport.Balanced (r : ParityReport) (ours golden : NormalizedGraph) : Prop where
  golden_nodes : r.nodesMatched + r.nodesMissing.length = golden.nodes.card
  golden_edges : r.edgesMatched + r.edgesMissing.length = golden.edges.card
  our_nodes : r.nodesMatched + r.nodesExtra.length = ours.nodes.card
  our_edges : r.edgesMatched + r.edgesExtra.length = ours.edges.card

theorem balanced_classify (ours golden : NormalizedGraph) :
    (classify ours golden).Balanced ours golden where
  golden_nodes := by
    have hsplit := SortedSet.card_intersection_add_difference golden.nodes ours.nodes
    rw [SortedSet.intersection_comm] at hsplit
    exact hsplit
  golden_edges := by
    have hsplit := SortedSet.card_intersection_add_difference golden.edges ours.edges
    rw [SortedSet.intersection_comm] at hsplit
    exact hsplit
  our_nodes := SortedSet.card_intersection_add_difference ours.nodes golden.nodes
  our_edges := SortedSet.card_intersection_add_difference ours.edges golden.edges

/-- A report that is no worse than an earlier one. -/
structure ParityReport.NoWorse (r earlier : ParityReport) : Prop where
  nodes_matched : earlier.nodesMatched ≤ r.nodesMatched
  edges_matched : earlier.edgesMatched ≤ r.edgesMatched
  nodes_missing : ∀ label ∈ r.nodesMissing, label ∈ earlier.nodesMissing
  edges_missing : ∀ e ∈ r.edgesMissing, e ∈ earlier.edgesMissing

theorem ParityReport.NoWorse.isRegressionFree {r earlier : ParityReport} (h : r.NoWorse earlier)
    (hfree : earlier.isRegressionFree = true) : r.isRegressionFree = true := by
  obtain ⟨hnodes, hedges⟩ := isRegressionFree_iff.mp hfree
  refine isRegressionFree_iff.mpr ⟨?_, ?_⟩
  · exact List.eq_nil_iff_forall_not_mem.mpr fun label hlabel =>
      List.not_mem_nil (hnodes ▸ h.nodes_missing label hlabel)
  · exact List.eq_nil_iff_forall_not_mem.mpr fun e he =>
      List.not_mem_nil (hedges ▸ h.edges_missing e he)

/-- Covering as much of the golden makes a report no worse. -/
theorem noWorse_classify (hnodes : ∀ label ∈ golden.nodes, label ∈ ours.nodes → label ∈ ours'.nodes)
    (hedges : ∀ e ∈ golden.edges, e ∈ ours.edges → e ∈ ours'.edges) :
    (classify ours' golden).NoWorse (classify ours golden) where
  nodes_matched := SortedSet.card_le_of_subset fun label hlabel => by
    rw [SortedSet.mem_intersection] at hlabel ⊢
    exact ⟨hnodes label hlabel.2 hlabel.1, hlabel.2⟩
  edges_matched := SortedSet.card_le_of_subset fun e he => by
    rw [SortedSet.mem_intersection] at he ⊢
    exact ⟨hedges e he.2 he.1, he.2⟩
  nodes_missing := by
    intro label hlabel
    rw [mem_nodesMissing_classify] at hlabel ⊢
    exact ⟨hlabel.1, fun hours => hlabel.2 (hnodes label hlabel.1 hours)⟩
  edges_missing := by
    intro e he
    rw [mem_edgesMissing_classify] at he ⊢
    exact ⟨he.1, fun hours => he.2 (hedges e he.1 hours)⟩

end Reports

/-! ## Graphs with distinct ids -/

theorem idToLabel_eq_labelOf {g : Graph} (hids : (g.nodes.map Node.id).Nodup) :
    idToLabel g = g.labelOf := by
  funext id
  have hkeys : ((g.nodes.map fun n => (n.id, n.label)).map Prod.fst).Nodup := by
    rw [List.map_map]
    exact hids
  ext label
  rw [idToLabel, PartialMap.ofEntries_eq_some_iff hkeys, Graph.labelOf_eq_some_iff hids]
  simp [Prod.ext_iff]

@[simp] theorem mem_nodes_fromCore {g : Graph} {label : String} :
    label ∈ (fromCore g).nodes ↔ label ∈ g.labels := SortedSet.mem_ofList

theorem mem_edges_fromCore {g : Graph} (hids : (g.nodes.map Node.id).Nodup) {s t r : String} :
    edgeTriple s t r ∈ (fromCore g).edges ↔ (s, t, r) ∈ g.labelKeys := by
  rw [fromCore, SortedSet.mem_ofList, idToLabel_eq_labelOf hids, Graph.labelKeys,
    List.mem_filterMap, List.mem_filterMap]
  refine exists_congr fun e => and_congr_right fun _ => ?_
  rw [Graph.labelKey_eq_some_iff]
  cases g.labelOf e.source <;> cases g.labelOf e.target <;> simp

/-! ## Assembled graphs -/

/-- Some extraction asserts the edge, and both ends are declared. -/
def Asserts (xs : List Extraction) (s t r : String) : Prop :=
  s ∈ declaredLabels xs ∧ t ∈ declaredLabels xs ∧
    ∃ x ∈ xs, ∃ e ∈ x.edges, e.source = s ∧ e.target = t ∧ e.relation = r

theorem mem_declaredLabels_mono {xs ys : List Extraction} (hsub : ∀ x ∈ xs, x ∈ ys)
    {label : String} (h : label ∈ declaredLabels xs) : label ∈ declaredLabels ys := by
  obtain ⟨n, hn, rfl⟩ := List.mem_map.mp h
  obtain ⟨x, hx, hn⟩ := List.mem_flatMap.mp hn
  exact List.mem_map_of_mem (List.mem_flatMap.mpr ⟨x, hsub x hx, hn⟩)

theorem Asserts.mono {xs ys : List Extraction} (hsub : ∀ x ∈ xs, x ∈ ys) {s t r : String}
    (h : Asserts xs s t r) : Asserts ys s t r := by
  obtain ⟨hs, ht, x, hx, hedge⟩ := h
  exact ⟨mem_declaredLabels_mono hsub hs, mem_declaredLabels_mono hsub ht, x, hsub x hx, hedge⟩

theorem exists_rawEdge_iff {xs : List Extraction} {s t r : String} :
    (firstBy (fun e => some (RawEdge.key e)) RawEdge.confidence (xs.flatMap Extraction.edges)
      (s, t, r)).isSome ↔
      ∃ x ∈ xs, ∃ e ∈ x.edges, e.source = s ∧ e.target = t ∧ e.relation = r := by
  simp only [firstBy_isSome_iff, List.mem_flatMap, Option.some.injEq, RawEdge.key, Prod.mk.injEq]
  constructor
  · rintro ⟨e, ⟨x, hx, he⟩, hkey⟩
    exact ⟨x, hx, e, he, hkey⟩
  · rintro ⟨x, hx, e, he, hkey⟩
    exact ⟨e, ⟨x, hx, he⟩, hkey⟩

theorem ofExtractions_edge_isSome_iff {xs : List Extraction} {s t r : String} :
    ((SymbolGraph.ofExtractions xs).edge (s, t, r)).isSome ↔ Asserts xs s t r := by
  rw [Asserts, ← ofExtractions_node_isSome_iff, ← ofExtractions_node_isSome_iff,
    ← exists_rawEdge_iff, ← and_assoc]
  simp only [SymbolGraph.ofExtractions, LabelledGraph.ofDeclarations]
  split
  next hends => exact (and_iff_right hends).symm
  next hends => simp [hends]

section Assembled

variable {contentId contentId' : String → UInt32} {xs ys : List Extraction} {g h : Graph}

theorem mem_nodes_fromCore_of_assemble (hg : assemble contentId xs = some g) {label : String} :
    label ∈ (fromCore g).nodes ↔ label ∈ declaredLabels xs := by
  rw [mem_nodes_fromCore, Graph.mem_labels_iff, assemble_view hg, ofExtractions_node_isSome_iff]

theorem mem_edges_fromCore_of_assemble (hg : assemble contentId xs = some g) {s t r : String} :
    edgeTriple s t r ∈ (fromCore g).edges ↔ Asserts xs s t r := by
  rw [mem_edges_fromCore (assemble_wellFormed hg).nodup_ids, Graph.mem_labelKeys_iff,
    assemble_view hg, ofExtractions_edge_isSome_iff]

/-- The assignment of ids, and the order and repetition of the extractions, leave no trace. -/
theorem fromCore_eq_of_assemble (hg : assemble contentId xs = some g)
    (hh : assemble contentId' ys = some h) (hmem : ∀ x, x ∈ xs ↔ x ∈ ys) :
    fromCore h = fromCore g := by
  ext k
  · rw [mem_nodes_fromCore_of_assemble hg, mem_nodes_fromCore_of_assemble hh]
    exact ⟨mem_declaredLabels_mono fun x hx => (hmem x).mpr hx,
      mem_declaredLabels_mono fun x hx => (hmem x).mp hx⟩
  · obtain ⟨s, t, r, rfl⟩ := exists_edgeTriple k
    rw [mem_edges_fromCore_of_assemble hg, mem_edges_fromCore_of_assemble hh]
    exact ⟨Asserts.mono fun x hx => (hmem x).mpr hx, Asserts.mono fun x hx => (hmem x).mp hx⟩

theorem noWorse_of_assemble (hg : assemble contentId xs = some g)
    (hh : assemble contentId' ys = some h) (hsub : ∀ x ∈ xs, x ∈ ys) (golden : NormalizedGraph) :
    (classify (fromCore h) golden).NoWorse (classify (fromCore g) golden) := by
  refine noWorse_classify (fun label _ hlabel => ?_) fun e _ he => ?_
  · rw [mem_nodes_fromCore_of_assemble hg] at hlabel
    exact (mem_nodes_fromCore_of_assemble hh).mpr (mem_declaredLabels_mono hsub hlabel)
  · obtain ⟨s, t, r, rfl⟩ := exists_edgeTriple e
    rw [mem_edges_fromCore_of_assemble hg] at he
    exact (mem_edges_fromCore_of_assemble hh).mpr (he.mono hsub)

/-- What is missing is what no extraction declares; more extractions are no worse, and the
same ones report the same under any ids, in any order and repeated. The golden is
arbitrary, and so are the edges that the extractions state. -/
theorem parity_of_assemble (hg : assemble contentId xs = some g)
    (hh : assemble contentId' ys = some h) (hsub : ∀ x ∈ xs, x ∈ ys) (golden : NormalizedGraph) :
    (∀ label, label ∈ (classify (fromCore g) golden).nodesMissing ↔
      label ∈ golden.nodes ∧ label ∉ declaredLabels xs) ∧
    (∀ s t r, edgeTriple s t r ∈ (classify (fromCore g) golden).edgesMissing ↔
      edgeTriple s t r ∈ golden.edges ∧ ¬ Asserts xs s t r) ∧
    (classify (fromCore g) golden).Balanced (fromCore g) golden ∧
    (classify (fromCore h) golden).NoWorse (classify (fromCore g) golden) ∧
    ((∀ y ∈ ys, y ∈ xs) → classify (fromCore h) golden = classify (fromCore g) golden) := by
  refine ⟨fun label => ?_, fun s t r => ?_, balanced_classify _ _,
    noWorse_of_assemble hg hh hsub golden, fun hback => ?_⟩
  · rw [mem_nodesMissing_classify, mem_nodes_fromCore_of_assemble hg]
  · rw [mem_edgesMissing_classify, mem_edges_fromCore_of_assemble hg]
  · rw [fromCore_eq_of_assemble hg hh fun x => ⟨hsub x, hback x⟩]

end Assembled

namespace HttpxSample

def exceptions : Extraction where
  nodes := [⟨"exceptions", "exceptions.py", ⟨0, 90, 1, 9⟩⟩,
    ⟨"exceptions_httperror", "exceptions.py", ⟨10, 60, 2, 6⟩⟩]
  edges := [⟨"exceptions", "exceptions_httperror", "contains", .extracted⟩]

def models : Extraction where
  nodes := [⟨"models", "models.py", ⟨0, 40, 1, 4⟩⟩]
  edges := [⟨"models", "exceptions", "imports_from", .extracted⟩]

/-- A golden whose module `models` a first run leaves out. -/
def golden : NormalizedGraph where
  nodes := SortedSet.ofList ["exceptions", "exceptions_httperror", "models"]
  edges := SortedSet.ofList [edgeTriple "models" "exceptions" "imports_from"]

/-- Ids in the order of the labels, or all the same. -/
def labelLength (label : String) : UInt32 := UInt32.ofNat label.length

def zero (_ : String) : UInt32 := 0

theorem assemble_exceptions : ∃ g, assemble labelLength [exceptions] = some g :=
  Option.isSome_iff_exists.mp ((assemble_isSome_iff _ _).mpr (by decide))

theorem assemble_models : ∃ g, assemble zero [models, exceptions] = some g :=
  Option.isSome_iff_exists.mp ((assemble_isSome_iff _ _).mpr (by decide))

theorem parity_of_assemble_models : ∃ g h, assemble labelLength [exceptions] = some g ∧
    assemble zero [models, exceptions] = some h ∧
    (∀ label, label ∈ (classify (fromCore g) golden).nodesMissing ↔
      label ∈ golden.nodes ∧ label ∉ declaredLabels [exceptions]) ∧
    (classify (fromCore h) golden).NoWorse (classify (fromCore g) golden) := by
  obtain ⟨g, hg⟩ := assemble_exceptions
  obtain ⟨h, hh⟩ := assemble_models
  obtain ⟨hnodes, -, -, hnoWorse, -⟩ := parity_of_assemble hg hh (by simp) golden
  exact ⟨g, h, hg, hh, hnodes, hnoWorse⟩

end HttpxSample

/-! ## Exported graphs -/

/-- The names as an export writes them. -/
def exportedTriple (k : EdgeTriple) : EdgeTriple :=
  edgeTriple (exportedLabel (ofLex k).1) (exportedLabel (ofLex (ofLex k).2).1)
    (exportedLabel (ofLex (ofLex k).2).2)

@[simp] theorem exportedTriple_edgeTriple (s t r : String) :
    exportedTriple (edgeTriple s t r) =
      edgeTriple (exportedLabel s) (exportedLabel t) (exportedLabel r) := rfl

namespace NormalizedGraph

def exported (g : NormalizedGraph) : NormalizedGraph where
  nodes := g.nodes.map exportedLabel
  edges := g.edges.map exportedTriple

/-- Exporting writes every name as it is. -/
structure Plain (g : NormalizedGraph) : Prop where
  nodes : ∀ label ∈ g.nodes, exportedLabel label = label
  edges : ∀ e ∈ g.edges, exportedTriple e = e

theorem Plain.exported_eq {g : NormalizedGraph} (hg : g.Plain) : g.exported = g := by
  ext k
  · rw [exported, SortedSet.mem_map]
    constructor
    · rintro ⟨label, hlabel, rfl⟩
      exact (hg.nodes label hlabel).symm ▸ hlabel
    · exact fun hk => ⟨k, hk, hg.nodes k hk⟩
  · rw [exported, SortedSet.mem_map]
    constructor
    · rintro ⟨e, he, rfl⟩
      exact (hg.edges e he).symm ▸ he
    · exact fun hk => ⟨k, hk, hg.edges k hk⟩

/-- A golden of plain names is covered by the export as far as by the graph. -/
theorem Plain.noWorse_exported {golden : NormalizedGraph} (hplain : golden.Plain)
    (ours : NormalizedGraph) : (classify ours.exported golden).NoWorse (classify ours golden) := by
  refine noWorse_classify (fun label hlabel hours => ?_) fun e he hours => ?_
  · exact SortedSet.mem_map.mpr ⟨label, hours, hplain.nodes label hlabel⟩
  · exact SortedSet.mem_map.mpr ⟨e, hours, hplain.edges e he⟩

end NormalizedGraph

section Exported

variable {g : Graph}

theorem label_loadedNode (n : Node) : (loadedNode n).label = exportedLabel n.label := by
  simp only [loadedNode]

theorem nodup_ids_loadedGraph (hids : (g.nodes.map Node.id).Nodup) :
    ((loadedGraph g).nodes.map Node.id).Nodup := by
  have hperm : ((loadedGraph g).nodes.map Node.id).Perm ((g.nodes.map loadedNode).map Node.id) :=
    (sortByKey_perm _).map Node.id
  have hmap : Node.id ∘ loadedNode = Node.id := funext loadedNode_id
  rw [hperm.nodup_iff, List.map_map, hmap]
  exact hids

theorem labelOf_loadedGraph (hids : (g.nodes.map Node.id).Nodup) (id : NodeId) :
    (loadedGraph g).labelOf id = (g.labelOf id).map exportedLabel := by
  ext label
  rw [Graph.labelOf_eq_some_iff (nodup_ids_loadedGraph hids), Option.map_eq_some_iff]
  simp only [Graph.labelOf_eq_some_iff hids, loadedGraph, mem_sortByKey, List.mem_map]
  constructor
  · rintro ⟨m, ⟨n, hn, rfl⟩, hid, hlabel⟩
    rw [loadedNode_id] at hid
    rw [label_loadedNode] at hlabel
    exact ⟨n.label, ⟨n, hn, hid, rfl⟩, hlabel⟩
  · rintro ⟨name, ⟨n, hn, hid, rfl⟩, hlabel⟩
    refine ⟨loadedNode n, ⟨n, hn, rfl⟩, ?_, ?_⟩
    · rw [loadedNode_id, hid]
    · rw [label_loadedNode, hlabel]

theorem labelKey_loadedEdge (hids : (g.nodes.map Node.id).Nodup) {e : Edge} {s t r : String} :
    (loadedGraph g).labelKey (loadedEdge e) = some (s, t, r) ↔
      ∃ s' t' r', g.labelKey e = some (s', t', r') ∧
        exportedLabel s' = s ∧ exportedLabel t' = t ∧ exportedLabel r' = r := by
  simp only [Graph.labelKey_eq_some_iff, loadedEdge_source, loadedEdge_target,
    loadedEdge_relation, labelOf_loadedGraph hids, Option.map_eq_some_iff]
  constructor
  · rintro ⟨⟨s', hs, rfl⟩, ⟨t', ht, rfl⟩, rfl⟩
    exact ⟨s', t', e.relation, ⟨hs, ht, rfl⟩, rfl, rfl, rfl⟩
  · rintro ⟨s', t', r', ⟨hs, ht, rfl⟩, rfl, rfl, rfl⟩
    exact ⟨⟨s', hs, rfl⟩, ⟨t', ht, rfl⟩, rfl⟩

/-- Exporting a graph and loading it again rewrites the names and does nothing else. -/
theorem fromCore_loadedGraph (hids : (g.nodes.map Node.id).Nodup) :
    fromCore (loadedGraph g) = (fromCore g).exported := by
  ext k
  · simp only [mem_nodes_fromCore, NormalizedGraph.exported, SortedSet.mem_map, Graph.labels,
      loadedGraph, List.mem_map, mem_sortByKey]
    constructor
    · rintro ⟨m, ⟨n, hn, rfl⟩, rfl⟩
      exact ⟨n.label, ⟨n, hn, rfl⟩, (label_loadedNode n).symm⟩
    · rintro ⟨label, ⟨n, hn, rfl⟩, rfl⟩
      exact ⟨loadedNode n, ⟨n, hn, rfl⟩, label_loadedNode n⟩
  · obtain ⟨s, t, r, rfl⟩ := exists_edgeTriple k
    rw [mem_edges_fromCore (nodup_ids_loadedGraph hids), NormalizedGraph.exported,
      SortedSet.mem_map, Graph.labelKeys, List.mem_filterMap]
    constructor
    · rintro ⟨f, hf, hkey⟩
      obtain ⟨e, he, rfl⟩ := List.mem_map.mp (mem_sortByKey.mp hf)
      obtain ⟨s', t', r', hkey', rfl, rfl, rfl⟩ := (labelKey_loadedEdge hids).mp hkey
      refine ⟨edgeTriple s' t' r', ?_, rfl⟩
      exact (mem_edges_fromCore hids).mpr (List.mem_filterMap.mpr ⟨e, he, hkey'⟩)
    · rintro ⟨k', hk', hexported⟩
      obtain ⟨s', t', r', rfl⟩ := exists_edgeTriple k'
      obtain ⟨e, he, hkey⟩ := List.mem_filterMap.mp ((mem_edges_fromCore hids).mp hk')
      obtain ⟨hs, ht, hr⟩ := edgeTriple_inj.mp hexported
      refine ⟨loadedEdge e, mem_sortByKey.mpr (List.mem_map_of_mem he), ?_⟩
      exact (labelKey_loadedEdge hids).mpr ⟨s', t', r', hkey, hs, ht, hr⟩

theorem nodup_ids_sorted (hids : (g.nodes.map Node.id).Nodup) :
    (g.sorted.nodes.map Node.id).Nodup :=
  (((sortByKey_perm g.nodes).map Node.id).nodup_iff).mpr hids

theorem labelKey_sorted (hids : (g.nodes.map Node.id).Nodup) : g.sorted.labelKey = g.labelKey := by
  have hlabelOf : g.sorted.labelOf = g.labelOf := by
    funext id
    ext label
    rw [Graph.labelOf_eq_some_iff (nodup_ids_sorted hids), Graph.labelOf_eq_some_iff hids]
    simp only [Graph.mem_sorted_nodes]
  funext e
  rw [Graph.labelKey, Graph.labelKey, hlabelOf]

theorem fromCore_sorted (hids : (g.nodes.map Node.id).Nodup) : fromCore g.sorted = fromCore g := by
  ext k
  · simp only [mem_nodes_fromCore, Graph.labels, List.mem_map, Graph.mem_sorted_nodes]
  · obtain ⟨s, t, r, rfl⟩ := exists_edgeTriple k
    rw [mem_edges_fromCore (nodup_ids_sorted hids), mem_edges_fromCore hids, Graph.labelKeys,
      Graph.labelKeys, labelKey_sorted hids]
    simp only [List.mem_filterMap, Graph.mem_sorted_edges]

/-- The gate's run: sort, export, load, sort. -/
theorem fromCore_sorted_loadedGraph (hids : (g.nodes.map Node.id).Nodup) :
    fromCore (loadedGraph g.sorted).sorted = (fromCore g).exported :=
  calc fromCore (loadedGraph g.sorted).sorted
      = fromCore (loadedGraph g.sorted) :=
        fromCore_sorted (nodup_ids_loadedGraph (nodup_ids_sorted hids))
    _ = (fromCore g.sorted).exported := fromCore_loadedGraph (nodup_ids_sorted hids)
    _ = (fromCore g).exported := by rw [fromCore_sorted hids]

theorem fromCore_congr {g' : Graph} (hnodes : g'.nodes = g.nodes) (hedges : g'.edges = g.edges) :
    fromCore g' = fromCore g := by
  simp only [fromCore, idToLabel, hnodes, hedges]

/-- An assembled graph, clustered and sorted, is exported and loaded with its names rewritten:
no golden of plain names loses coverage, and plain names report the same. The clustering
and the names of the graph are arbitrary; the library round trips the document. -/
theorem exporter_parity (serde : SerdeJson) (tables : UnicodeTables)
    {contentId : String → UInt32} {xs : List Extraction} (hg : assemble contentId xs = some g)
    (communities : List Community)
    (hserde : serde.RoundTrips (nodeLinkEnvelope { g with communities := communities }.sorted))
    (golden : NormalizedGraph) :
    ∃ text loaded, serde.toNodeLink { g with communities := communities }.sorted = .ok text ∧
      fromNodeLink serde tables text = .ok loaded ∧
      fromCore loaded.sorted = (fromCore g).exported ∧
      (golden.Plain →
        (classify (fromCore loaded.sorted) golden).NoWorse (classify (fromCore g) golden)) ∧
      ((fromCore g).Plain →
        classify (fromCore loaded.sorted) golden = classify (fromCore g) golden) := by
  have hids := (assemble_wellFormed hg).nodup_ids
  have hnodes : { g with communities := communities }.nodes = g.nodes := rfl
  have hedges : { g with communities := communities }.edges = g.edges := rfl
  generalize { g with communities := communities } = clustered at hserde hnodes hedges ⊢
  obtain ⟨text, hprint, hparse⟩ := hserde
  have hloaded : fromCore (loadedGraph clustered.sorted).sorted = (fromCore g).exported := by
    rw [fromCore_sorted_loadedGraph (hnodes ▸ hids), fromCore_congr hnodes hedges]
  refine ⟨text, loadedGraph clustered.sorted, ?_, fromNodeLink_of_envelope hparse, hloaded,
    fun hplain => ?_, fun hplain => ?_⟩
  · rw [SerdeJson.toNodeLink, hprint]
    rfl
  · rw [hloaded]
    exact hplain.noWorse_exported (fromCore g)
  · rw [hloaded, hplain.exported_eq]

end Exported

namespace HttpxSample

/-- A label that a right-to-left override ends, and the label that stands for it in an export. -/
def spoofed : String := String.ofList ("client".toList ++ [Char.ofNat 0x202E])

def escaped : String := "client\\u\x7b202E\x7d"

def client : Extraction where
  nodes := [⟨spoofed, "client.py", ⟨0, 30, 1, 3⟩⟩]
  edges := [⟨spoofed, "exceptions", "imports_from", .extracted⟩]

/-- The groups of a clustering, by the lengths of the labels. -/
def communities : List Community :=
  [⟨⟨0⟩, "community-0", [⟨20⟩, ⟨10⟩]⟩, ⟨⟨1⟩, "community-1", [⟨7⟩]⟩]

theorem golden_plain : golden.Plain where
  nodes := by
    intro label hlabel
    simp only [golden, SortedSet.mem_ofList, List.mem_cons, List.not_mem_nil, or_false] at hlabel
    rcases hlabel with rfl | rfl | rfl <;>
      exact (exportedLabel_eq_self_iff (by decide)).mpr (by decide)
  edges := by
    intro e he
    simp only [golden, SortedSet.mem_ofList, List.mem_singleton] at he
    subst he
    decide

theorem assemble_client : ∃ g, assemble labelLength [exceptions, client] = some g :=
  Option.isSome_iff_exists.mp ((assemble_isSome_iff _ _).mpr (by decide))

/-- The label is exported escaped, and the golden is covered as before. -/
theorem exporter_parity_client : ∃ g serde text loaded,
    assemble labelLength [exceptions, client] = some g ∧
    serde.toNodeLink { g with communities := communities }.sorted = .ok text ∧
    fromNodeLink serde asciiTables text = .ok loaded ∧
    fromCore loaded.sorted = (fromCore g).exported ∧
    spoofed ∈ (fromCore g).nodes ∧ escaped ∈ (fromCore loaded.sorted).nodes ∧
    (classify (fromCore loaded.sorted) golden).NoWorse (classify (fromCore g) golden) := by
  obtain ⟨g, hg⟩ := assemble_client
  obtain ⟨text, loaded, htext, hloaded, hcore, hnoWorse, -⟩ := exporter_parity
    (SerdeJson.knowing [nodeLinkEnvelope { g with communities := communities }.sorted])
    asciiTables hg communities (SerdeJson.knowing_roundTrips (by simp)) golden
  have hspoofed : spoofed ∈ (fromCore g).nodes :=
    (mem_nodes_fromCore_of_assemble hg).mpr (by decide)
  refine ⟨g, _, text, loaded, hg, htext, hloaded, hcore, hspoofed, ?_, hnoWorse golden_plain⟩
  rw [hcore]
  exact SortedSet.mem_map.mpr ⟨spoofed, hspoofed, by decide⟩

end HttpxSample

end HabitatGraph
