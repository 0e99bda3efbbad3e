import HabitatGraph.Build.Assemble

/-! # Merging two graphs

The two graphs have independent id spaces. Labels are interned anew, all of `a`
before all of `b`; each graph's edges follow its own map from old to new ids,
and communities and manifest inputs are concatenated.
-/

namespace HabitatGraph

open KeyedList

variable (contentId : String → UInt32)

/-- Intern the label of a node of an input graph. -/
def internLabel (st : Interner) (node : Node) : Option (NodeId × Interner) :=
  st.intern contentId node.toRaw

/-- Intern all nodes of an input graph and record where each id went. -/
def internNodes : Interner → PartialMap NodeId NodeId → List Node →
    Option (PartialMap NodeId NodeId × Interner)
  | st, remap, [] => some (remap, st)
  | st, remap, node :: nodes =>
      (internLabel contentId st node).bind fun p =>
        internNodes p.2 (remap.insert node.id p.1) nodes

/-- Move an edge to the new ids; an edge with an unmapped end is dropped. -/
def remapEdge (remap : PartialMap NodeId NodeId) (e : Edge) : Option Edge :=
  match remap e.source, remap e.target with
  | some src, some tgt => some ⟨src, tgt, e.relation, e.confidence⟩
  | _, _ => none

/-- Inputs of both, tool version of `a`, and `a`'s timestamp when it has one. -/
def mergeManifest (a b : Manifest) : Manifest where
  inputs := a.inputs ++ b.inputs
  toolVersion := a.toolVersion
  generatedAt := a.generatedAt.or b.generatedAt

/-- Merge two graphs, `a` taking priority. `none` stands for a run that never
ends, which takes more than 2^32 distinct labels. -/
def merge (a b : Graph) : Option Graph :=
  (internNodes contentId Interner.empty PartialMap.empty a.nodes).bind fun p =>
    (internNodes contentId p.2 PartialMap.empty b.nodes).map fun q =>
      (dedup {
        schema := a.schema
        nodes := q.2.nodes
        edges := a.edges.filterMap (remapEdge p.1) ++ b.edges.filterMap (remapEdge q.1)
        communities := a.communities ++ b.communities
        manifest := mergeManifest a.manifest b.manifest }).sorted

variable {contentId}

theorem remapEdge_eq_some_iff {remap : PartialMap NodeId NodeId} {e f : Edge} :
    remapEdge remap e = some f ↔
      remap e.source = some f.source ∧ remap e.target = some f.target ∧
        f.relation = e.relation ∧ f.confidence = e.confidence := by
  unfold remapEdge
  cases f
  cases remap e.source <;> cases remap e.target <;> simp [eq_comm]

theorem remapEdge_eq_none {remap : PartialMap NodeId NodeId} {e : Edge}
    (h : remapEdge remap e = none) : ¬ ((remap e.source).isSome ∧ (remap e.target).isSome) := by
  unfold remapEdge at h
  cases hs : remap e.source <;> cases ht : remap e.target <;> simp_all

/-! ## The id maps of the inputs -/

theorem internNodes_isSome (st : Interner) (remap : PartialMap NodeId NodeId) (nodes : List Node) :
    (internNodes contentId st remap nodes).isSome =
      (st.internAll contentId (nodes.map Node.toRaw)).isSome := by
  induction nodes generalizing st remap with
  | nil => rfl
  | cons node nodes ih =>
      simp only [internNodes, internLabel, List.map_cons, Interner.internAll]
      cases st.intern contentId node.toRaw with
      | none => rfl
      | some p => exact ih p.2 (remap.insert node.id p.1)

/-- What the loop over an input graph's nodes does: it interns them in order,
and every id met is mapped to the new id of a label it carries. -/
theorem internNodes_spec {st st' : Interner} {remap remap' : PartialMap NodeId NodeId}
    {nodes : List Node} (h : internNodes contentId st remap nodes = some (remap', st')) :
    st.internAll contentId (nodes.map Node.toRaw) = some st' ∧
      ∀ id, (id ∉ nodes.map Node.id ∧ remap' id = remap id) ∨
        ∃ n ∈ nodes, n.id = id ∧ ∃ new, st'.table n.label = some new ∧ remap' id = some new := by
  induction nodes generalizing st remap with
  | nil =>
      obtain ⟨rfl, rfl⟩ := Prod.mk.inj (Option.some.inj h)
      exact ⟨rfl, fun id => Or.inl ⟨List.not_mem_nil, rfl⟩⟩
  | cons node nodes ih =>
      unfold internNodes at h
      obtain ⟨⟨new, middle⟩, hnode, htail⟩ := Option.bind_eq_some_iff.mp h
      obtain ⟨hintern, hremap⟩ := ih htail
      refine ⟨?_, fun id => ?_⟩
      · simp only [List.map_cons, Interner.internAll]
        rw [show st.intern contentId node.toRaw = some (new, middle) from hnode, Option.bind_some]
        exact hintern
      · rcases hremap id with ⟨hid, heq⟩ | ⟨n, hn, hid, hnew⟩
        · by_cases hhead : id = node.id
          · subst hhead
            have htable := Interner.table_mono_internAll hintern (Interner.table_of_intern hnode)
            exact Or.inr ⟨node, List.mem_cons_self, rfl, new, htable,
              heq.trans (PartialMap.insert_self _ _ _)⟩
          · refine Or.inl ⟨by simp [hhead, hid], heq.trans ?_⟩
            exact PartialMap.insert_of_ne _ _ hhead
        · exact Or.inr ⟨n, List.mem_cons_of_mem node hn, hid, hnew⟩

/-- `remap` sends the ids of `g` to the ids their labels have in `st`. -/
def Remaps (st : Interner) (g : Graph) (remap : PartialMap NodeId NodeId) : Prop :=
  ∀ id, (id ∉ g.nodes.map Node.id ∧ remap id = none) ∨
    ∃ n ∈ g.nodes, n.id = id ∧ ∃ new, st.table n.label = some new ∧ remap id = some new

namespace Remaps

variable {st : Interner} {g : Graph} {remap : PartialMap NodeId NodeId}

theorem isSome_iff (h : Remaps st g remap) {id : NodeId} :
    (remap id).isSome ↔ id ∈ g.nodes.map Node.id := by
  rcases h id with ⟨hid, hnone⟩ | ⟨n, hn, rfl, new, -, hnew⟩
  · simp [hnone, hid]
  · simp only [hnew, Option.isSome_some, true_iff]
    exact List.mem_map_of_mem hn

theorem mem_ids (h : Remaps st g remap) (hst : st.Valid) {id new : NodeId}
    (hnew : remap id = some new) : new ∈ st.nodes.map Node.id := by
  rcases h id with ⟨-, hnone⟩ | ⟨n, -, -, new', htable, heq⟩
  · rw [hnone] at hnew
    cases hnew
  · rw [heq] at hnew
    obtain rfl := Option.some.inj hnew
    exact mem_ids_of_table hst htable

/-- Edges are moved between new ids only. -/
theorem ends_mem_ids (h : Remaps st g remap) (hst : st.Valid) {edges : List Edge} {f : Edge}
    (hf : f ∈ edges.filterMap (remapEdge remap)) :
    f.source ∈ st.nodes.map Node.id ∧ f.target ∈ st.nodes.map Node.id := by
  obtain ⟨e, -, he⟩ := List.mem_filterMap.mp hf
  obtain ⟨hs, ht, -, -⟩ := remapEdge_eq_some_iff.mp he
  exact ⟨h.mem_ids hst hs, h.mem_ids hst ht⟩

/-- With distinct ids, the new id carries the label that the old one carried. -/
theorem labelOf_eq (h : Remaps st g remap) (hst : st.Valid) (hids : (g.nodes.map Node.id).Nodup)
    {merged : Graph} (hmerged : merged.nodes = st.nodes) {id new : NodeId}
    (hnew : remap id = some new) : merged.labelOf new = g.labelOf id := by
  rcases h id with ⟨-, hnone⟩ | ⟨n, hn, rfl, new', htable, heq⟩
  · rw [hnone] at hnew
    cases hnew
  · rw [heq] at hnew
    obtain rfl := Option.some.inj hnew
    rw [labelOf_of_table hst htable hmerged, Graph.labelOf_id hids hn]

/-- The edges of `g`, moved to the new ids, assert what they asserted in `g`. -/
theorem firstBy_remapEdge (h : Remaps st g remap) (hst : st.Valid)
    (hids : (g.nodes.map Node.id).Nodup) {merged : Graph} (hmerged : merged.nodes = st.nodes) :
    firstBy merged.labelKey Edge.confidence (g.edges.filterMap (remapEdge remap)) =
      g.view.edge := by
  refine firstBy_filterMap _ ?_ ?_
  · intro e _ f hf
    obtain ⟨hs, ht, hr, hc⟩ := remapEdge_eq_some_iff.mp hf
    refine ⟨?_, hc⟩
    simp only [Graph.labelKey, h.labelOf_eq hst hids hmerged hs,
      h.labelOf_eq hst hids hmerged ht, hr]
  · intro e _ hnone
    have hends := remapEdge_eq_none hnone
    simp only [h.isSome_iff, ← Graph.labelOf_isSome_iff] at hends
    unfold Graph.labelKey
    cases hs : g.labelOf e.source <;> cases ht : g.labelOf e.target <;> simp_all

end Remaps

/-! ## The merged graph -/

/-- Merging goes through one interner of both graphs' nodes and their id maps. -/
theorem exists_interner_of_merge {a b g : Graph} (h : merge contentId a b = some g) :
    ∃ st aRemap bRemap,
      Interner.empty.internAll contentId ((a.nodes ++ b.nodes).map Node.toRaw) = some st ∧
      st.Valid ∧ Remaps st a aRemap ∧ Remaps st b bRemap ∧
      g = (dedup {
        schema := a.schema
        nodes := st.nodes
        edges := a.edges.filterMap (remapEdge aRemap) ++ b.edges.filterMap (remapEdge bRemap)
        communities := a.communities ++ b.communities
        manifest := mergeManifest a.manifest b.manifest }).sorted := by
  obtain ⟨⟨aRemap, middle⟩, ha, hrest⟩ := Option.bind_eq_some_iff.mp h
  obtain ⟨⟨bRemap, st⟩, hb, rfl⟩ := Option.map_eq_some_iff.mp hrest
  obtain ⟨hmiddle, haRemap⟩ := internNodes_spec ha
  obtain ⟨hst, hbRemap⟩ := internNodes_spec hb
  have hall : Interner.empty.internAll contentId ((a.nodes ++ b.nodes).map Node.toRaw) =
      some st := by
    rw [List.map_append, Interner.internAll_append, hmiddle, Option.bind_some]
    exact hst
  refine ⟨st, aRemap, bRemap, hall, Interner.valid_empty.internAll hall, ?_, hbRemap, rfl⟩
  intro id
  rcases haRemap id with hnone | ⟨n, hn, hid, new, htable, hnew⟩
  · exact Or.inl hnone
  · exact Or.inr ⟨n, hn, hid, new, Interner.table_mono_internAll hst htable, hnew⟩

/-- Merging returns when there are at most 2^32 distinct labels, and only then. -/
theorem merge_isSome_iff (contentId : String → UInt32) (a b : Graph) :
    (merge contentId a b).isSome ↔
      (firsts RawNode.label ((a.nodes ++ b.nodes).map Node.toRaw)).length ≤ 2 ^ 32 := by
  rw [← Interner.internAll_isSome_iff contentId, List.map_append, Interner.internAll_append]
  have ha := @internNodes_isSome contentId Interner.empty PartialMap.empty a.nodes
  unfold merge
  cases hp : internNodes contentId Interner.empty PartialMap.empty a.nodes with
  | none =>
      rw [hp, eq_comm, Option.isSome_none, Option.isSome_eq_false_iff,
        Option.isNone_iff_eq_none] at ha
      rw [ha]
      rfl
  | some p =>
      obtain ⟨hmiddle, -⟩ := internNodes_spec hp
      rw [hmiddle, Option.bind_some, Option.bind_some, Option.isSome_map, internNodes_isSome]

theorem merge_wellFormed {a b g : Graph} (h : merge contentId a b = some g) : g.WellFormed := by
  obtain ⟨st, aRemap, bRemap, -, hst, ha, hb, rfl⟩ := exists_interner_of_merge h
  refine Graph.wellFormed_dedup_sorted hst.nodup_ids hst.nodup_labels fun f hf => ?_
  rcases List.mem_append.mp hf with hf | hf
  · exact ha.ends_mem_ids hst hf
  · exact hb.ends_mem_ids hst hf

/-- A merged graph is in canonical order. -/
theorem sorted_of_merge {a b g : Graph} (h : merge contentId a b = some g) : g.sorted = g := by
  obtain ⟨_, _, _, -, -, -, -, rfl⟩ := exists_interner_of_merge h
  exact Graph.sorted_sorted _

/-- A label is located where `a` has it, or where `b` has it. -/
theorem merge_view_node {a b g : Graph} (h : merge contentId a b = some g) :
    g.view.node = a.view.node.overlay b.view.node := by
  obtain ⟨st, aRemap, bRemap, hintern, hst, -, -, rfl⟩ := exists_interner_of_merge h
  rw [Graph.view_dedup_sorted hst.nodup_ids hst.nodup_labels]
  refine (Interner.firstBy_location_of_internAll hintern).trans ?_
  rw [firstBy_label_map_toRaw, firstBy_append]
  rfl

/-- A relationship is stated by the moved edges of `a`, or by those of `b`. -/
theorem exists_remaps_of_merge {a b g : Graph} (h : merge contentId a b = some g) :
    ∃ st aRemap bRemap, ∃ merged : Graph, st.Valid ∧ Remaps st a aRemap ∧ Remaps st b bRemap ∧
      merged.nodes = st.nodes ∧
      g.view.edge =
        (firstBy merged.labelKey Edge.confidence (a.edges.filterMap (remapEdge aRemap))).overlay
          (firstBy merged.labelKey Edge.confidence (b.edges.filterMap (remapEdge bRemap))) := by
  obtain ⟨st, aRemap, bRemap, -, hst, ha, hb, rfl⟩ := exists_interner_of_merge h
  refine ⟨st, aRemap, bRemap, { a with nodes := st.nodes }, hst, ha, hb, rfl, ?_⟩
  rw [Graph.view_dedup_sorted hst.nodup_ids hst.nodup_labels]
  exact firstBy_append _ _

/-- Merging overlays what the two graphs denote. -/
theorem merge_view {a b g : Graph} (h : merge contentId a b = some g)
    (ha : (a.nodes.map Node.id).Nodup) (hb : (b.nodes.map Node.id).Nodup) :
    g.view = a.view.overlay b.view := by
  refine LabelledGraph.eq_of_maps (merge_view_node h) ?_
  obtain ⟨st, aRemap, bRemap, merged, hst, haRemap, hbRemap, hmerged, hedge⟩ :=
    exists_remaps_of_merge h
  rw [hedge, haRemap.firstBy_remapEdge hst ha hmerged, hbRemap.firstBy_remapEdge hst hb hmerged]
  rfl

end HabitatGraph
