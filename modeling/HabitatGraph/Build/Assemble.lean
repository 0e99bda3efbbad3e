import HabitatGraph.Build.Dedup
import HabitatGraph.Build.Intern

/-! # Assembling extractions

Per-file extractions are aggregated into one graph: labels are interned in
order, edges resolved against the interned labels, and the result put in
canonical form. An edge with an endpoint that no extraction declares is dropped.
-/

namespace HabitatGraph

open KeyedList

variable (contentId : String → UInt32)

/-- Look both endpoints up; a dangling edge has none. -/
def resolveEdge (table : PartialMap String NodeId) (e : RawEdge) : Option Edge :=
  match table e.source with
  | some src =>
      match table e.target with
      | some tgt => some ⟨src, tgt, e.relation, e.confidence⟩
      | none => none
  | none => none

/-- Assemble per-file extractions into a graph. `none` stands for a run that
never ends, which takes more than 2^32 distinct labels. -/
def assemble (extractions : List Extraction) : Option Graph :=
  (Interner.empty.internAll contentId (extractions.flatMap Extraction.nodes)).map fun st =>
    (dedup { Graph.new with
      nodes := st.nodes
      edges := (extractions.flatMap Extraction.edges).filterMap (resolveEdge st.table) }).sorted

/-! ## What assembling means -/

/-- What identifies a raw edge. -/
def RawEdge.key (e : RawEdge) : EdgeKey := (e.source, e.target, e.relation)

/-- The symbols and relationships declared by a list of extractions. -/
def SymbolGraph.ofExtractions (extractions : List Extraction) : SymbolGraph :=
  LabelledGraph.ofDeclarations RawNode.label RawNode.location RawEdge.key RawEdge.confidence
    (extractions.flatMap Extraction.nodes) (extractions.flatMap Extraction.edges)

variable {contentId}

theorem resolveEdge_eq_some_iff {table : PartialMap String NodeId} {e : RawEdge} {f : Edge} :
    resolveEdge table e = some f ↔
      table e.source = some f.source ∧ table e.target = some f.target ∧
        f.relation = e.relation ∧ f.confidence = e.confidence := by
  unfold resolveEdge
  cases f
  cases table e.source <;> cases table e.target <;> simp [eq_comm]

theorem resolveEdge_eq_none {table : PartialMap String NodeId} {e : RawEdge}
    (h : resolveEdge table e = none) : ¬ ((table e.source).isSome ∧ (table e.target).isSome) := by
  unfold resolveEdge at h
  cases hs : table e.source <;> cases ht : table e.target <;> simp_all

/-- Assembling goes through an interner, and what follows is pure. -/
theorem exists_interner_of_assemble {extractions : List Extraction} {g : Graph}
    (h : assemble contentId extractions = some g) :
    ∃ st, Interner.empty.internAll contentId (extractions.flatMap Extraction.nodes) = some st ∧
      st.Valid ∧ g = (dedup { Graph.new with
        nodes := st.nodes
        edges := (extractions.flatMap Extraction.edges).filterMap
          (resolveEdge st.table) }).sorted := by
  obtain ⟨st, hst, rfl⟩ := Option.map_eq_some_iff.mp h
  exact ⟨st, hst, Interner.valid_empty.internAll hst, rfl⟩

theorem mem_ids_of_table {st : Interner} (hst : st.Valid) {label : String} {id : NodeId}
    (h : st.table label = some id) : id ∈ st.nodes.map Node.id := by
  obtain ⟨n, hn, -, rfl⟩ := hst.table_eq_some_iff.mp h
  exact List.mem_map_of_mem hn

/-- The table inverts the labels of the interned nodes. -/
theorem labelOf_of_table {st : Interner} (hst : st.Valid) {label : String} {id : NodeId}
    (h : st.table label = some id) {g : Graph} (hg : g.nodes = st.nodes := by rfl) :
    g.labelOf id = some label := by
  obtain ⟨n, hn, rfl, rfl⟩ := hst.table_eq_some_iff.mp h
  rw [← hg] at hn
  exact Graph.labelOf_id (hg ▸ hst.nodup_ids) hn

/-- Assembling returns when there are at most 2^32 distinct labels, and only then. -/
theorem assemble_isSome_iff (contentId : String → UInt32) (extractions : List Extraction) :
    (assemble contentId extractions).isSome ↔
      (firsts RawNode.label (extractions.flatMap Extraction.nodes)).length ≤ 2 ^ 32 := by
  unfold assemble
  rw [Option.isSome_map, Interner.internAll_isSome_iff]

theorem assemble_wellFormed {extractions : List Extraction} {g : Graph}
    (h : assemble contentId extractions = some g) : g.WellFormed := by
  obtain ⟨st, -, hst, rfl⟩ := exists_interner_of_assemble h
  refine Graph.wellFormed_dedup_sorted hst.nodup_ids hst.nodup_labels fun f hf => ?_
  obtain ⟨e, -, he⟩ := List.mem_filterMap.mp hf
  obtain ⟨hs, ht, -, -⟩ := resolveEdge_eq_some_iff.mp he
  exact ⟨mem_ids_of_table hst hs, mem_ids_of_table hst ht⟩

/-- The assembled graph denotes what its extractions declare. -/
theorem assemble_view {extractions : List Extraction} {g : Graph}
    (h : assemble contentId extractions = some g) :
    g.view = SymbolGraph.ofExtractions extractions := by
  obtain ⟨st, hintern, hst, rfl⟩ := exists_interner_of_assemble h
  rw [Graph.view_dedup_sorted hst.nodup_ids hst.nodup_labels]
  have hnode := Interner.firstBy_location_of_internAll hintern
  have hdeclared : ∀ label, (st.table label).isSome ↔
      ((SymbolGraph.ofExtractions extractions).node label).isSome := fun label => by
    change _ ↔ (firstBy (fun n => some n.label) RawNode.location
      (extractions.flatMap Extraction.nodes) label).isSome
    rw [← hnode, hst.table_isSome_iff, firstBy_isSome_iff]
    simp [List.mem_map]
  refine LabelledGraph.eq_of_maps hnode ?_
  refine Eq.trans ?_ (LabelledGraph.ofDeclarations_edge RawNode.label RawNode.location RawEdge.key
    RawEdge.confidence (extractions.flatMap Extraction.nodes)
    (extractions.flatMap Extraction.edges)).symm
  refine firstBy_filterMap _ ?_ ?_
  · intro e _ f hf
    obtain ⟨hs, ht, hr, hc⟩ := resolveEdge_eq_some_iff.mp hf
    have hends : (SymbolGraph.ofExtractions extractions).HasEnds e.key :=
      ⟨(hdeclared _).mp (by simp [RawEdge.key, hs]), (hdeclared _).mp (by simp [RawEdge.key, ht])⟩
    refine ⟨?_, hc⟩
    refine Eq.trans ?_ (if_pos hends).symm
    exact Graph.labelKey_eq_some_iff.mpr
      ⟨labelOf_of_table hst hs, labelOf_of_table hst ht, hr⟩
  · intro e _ hnone
    refine if_neg fun hends => resolveEdge_eq_none hnone ?_
    exact ⟨(hdeclared _).mpr hends.1, (hdeclared _).mpr hends.2⟩

end HabitatGraph
