import HabitatGraph.Build.MergeAlgebra

/-! # What a merge keeps of the second graph

The second graph yields where both define a label and is re-identified
everywhere. Its labels all survive, the first node of a label with its location;
an edge survives when its ends are nodes, as an edge between their labels. Ids
need not be distinct: an id that several nodes carry stands for the label of one
of them.
-/

namespace HabitatGraph

open KeyedList

variable {contentId : String → UInt32}

/-- The edge relates the labels of `k`, under some nodes that carry the ids of
its ends. -/
def Graph.Asserts (g : Graph) (e : Edge) (k : EdgeKey) : Prop :=
  (∃ s ∈ g.nodes, s.id = e.source ∧ s.label = k.1) ∧
    (∃ t ∈ g.nodes, t.id = e.target ∧ t.label = k.2.1) ∧ e.relation = k.2.2

theorem Graph.asserts_iff_labelKey {g : Graph} (hids : (g.nodes.map Node.id).Nodup) {e : Edge}
    {k : EdgeKey} : g.Asserts e k ↔ g.labelKey e = some k := by
  obtain ⟨s, t, r⟩ := k
  rw [labelKey_eq_some_iff, labelOf_eq_some_iff hids, labelOf_eq_some_iff hids]
  rfl

/-! ## Nodes -/

theorem exists_node_of_merge {a b g : Graph} (h : merge contentId a b = some g) {n : Node}
    (hn : n ∈ b.nodes) : ∃ m ∈ g.nodes, m.label = n.label := by
  have hlabel := (mem_labels_of_merge h).mpr
    (List.mem_map_of_mem (List.mem_append_right a.nodes hn))
  exact List.mem_map.mp hlabel

/-- The first node of a label keeps its location unless `a` defines the label. -/
theorem location_of_merge {a b g : Graph} (h : merge contentId a b = some g) {n m : Node}
    (hn : b.nodes.find? (fun n' => n'.label = n.label) = some n) (hm : m ∈ g.nodes)
    (hlabel : m.label = n.label) (hnew : n.label ∉ a.nodes.map Node.label) :
    m.location = n.location := by
  have hview : g.view.node n.label = some m.location :=
    (Graph.view_node_eq_some_iff (merge_wellFormed h).nodup_labels).mpr ⟨m, hm, hlabel, rfl⟩
  have ha : a.view.node n.label = none :=
    Option.not_isSome_iff_eq_none.mp (mt Graph.view_node_isSome_iff.mp hnew)
  have hb : b.view.node n.label = some n.location := by
    have hfind : b.nodes.find? (fun n' => some n'.label = some n.label) = some n := by
      simpa only [Option.some.injEq] using hn
    exact congrArg (Option.map Node.location) hfind
  rw [merge_view_node h, PartialMap.overlay_apply, ha, hb, Option.none_or,
    Option.some.injEq] at hview
  exact hview.symm

/-- A node that carries the content id of its label keeps it when no two labels
share one. -/
theorem id_of_merge {a b g : Graph} (h : merge contentId a b = some g)
    (hinj : Set.InjOn contentId {label | label ∈ (a.nodes ++ b.nodes).map Node.label}) {n m : Node}
    (hm : m ∈ g.nodes) (hlabel : m.label = n.label) (hid : n.id = ⟨contentId n.label⟩) :
    m.id = n.id := by
  rw [merge_contentAddressed h hinj m hm, hid, hlabel]

/-! ## Edges -/

namespace Remaps

variable {st : Interner} {g : Graph} {remap : PartialMap NodeId NodeId}

theorem exists_label (h : Remaps st g remap) {id new : NodeId} (hnew : remap id = some new) :
    ∃ n ∈ g.nodes, n.id = id ∧ st.table n.label = some new := by
  rcases h id with ⟨-, hnone⟩ | ⟨n, hn, hid, new', htable, hsome⟩
  · rw [hnone] at hnew
    cases hnew
  · rw [hsome] at hnew
    obtain rfl := Option.some.inj hnew
    exact ⟨n, hn, hid, htable⟩

/-- A moved edge relates labels that the edge relates in `g`. -/
theorem exists_asserts (h : Remaps st g remap) (hst : st.Valid) {merged : Graph}
    (hmerged : merged.nodes = st.nodes) {e f : Edge} (hf : remapEdge remap e = some f) :
    ∃ k, g.Asserts e k ∧ merged.labelKey f = some k := by
  obtain ⟨hsource, htarget, hrelation, -⟩ := remapEdge_eq_some_iff.mp hf
  obtain ⟨s, hs, hsid, hstable⟩ := h.exists_label hsource
  obtain ⟨t, ht, htid, httable⟩ := h.exists_label htarget
  refine ⟨(s.label, t.label, e.relation), ⟨⟨s, hs, hsid, rfl⟩, ⟨t, ht, htid, rfl⟩, rfl⟩, ?_⟩
  rw [Graph.labelKey_eq_some_iff]
  exact ⟨labelOf_of_table hst hstable hmerged, labelOf_of_table hst httable hmerged, hrelation⟩

theorem exists_remapEdge (h : Remaps st g remap) {e : Edge}
    (hsource : e.source ∈ g.nodes.map Node.id) (htarget : e.target ∈ g.nodes.map Node.id) :
    ∃ f, remapEdge remap e = some f := by
  obtain ⟨src, hsrc⟩ := Option.isSome_iff_exists.mp (h.isSome_iff.mpr hsource)
  obtain ⟨tgt, htgt⟩ := Option.isSome_iff_exists.mp (h.isSome_iff.mpr htarget)
  exact ⟨⟨src, tgt, e.relation, e.confidence⟩,
    remapEdge_eq_some_iff.mpr ⟨hsrc, htgt, rfl, rfl⟩⟩

/-- Edges none of which relates the labels of `k` are moved to edges none of
which does. -/
theorem firstBy_eq_none (h : Remaps st g remap) (hst : st.Valid) {merged : Graph}
    (hmerged : merged.nodes = st.nodes) {edges : List Edge} {k : EdgeKey}
    (hedges : ∀ e ∈ edges, ¬ g.Asserts e k) :
    firstBy merged.labelKey Edge.confidence (edges.filterMap (remapEdge remap)) k = none := by
  apply Option.not_isSome_iff_eq_none.mp
  rw [firstBy_isSome_iff]
  intro ⟨f, hf, hkey⟩
  obtain ⟨e, he, hmoved⟩ := List.mem_filterMap.mp hf
  obtain ⟨k', hasserts, hkey'⟩ := h.exists_asserts hst hmerged hmoved
  rw [hkey, Option.some.injEq] at hkey'
  subst hkey'
  exact hedges e he hasserts

end Remaps

/-- An edge of `b` between its nodes survives between their labels, with its
confidence unless the relationship is stated before, in `a` or in `b`. -/
theorem exists_edge_of_merge {a b g : Graph} (h : merge contentId a b = some g)
    {earlier later : List Edge} {e : Edge} (he : b.edges = earlier ++ e :: later)
    (hsource : e.source ∈ b.nodes.map Node.id) (htarget : e.target ∈ b.nodes.map Node.id) :
    ∃ k, b.Asserts e k ∧ ∃ f ∈ g.edges, g.Asserts f k ∧
      ((∀ e' ∈ a.edges, ¬ a.Asserts e' k) → (∀ e' ∈ earlier, ¬ b.Asserts e' k) →
        f.confidence = e.confidence) := by
  have hgwf := merge_wellFormed h
  obtain ⟨st, aRemap, bRemap, merged, hst, ha, hb, hmerged, hview⟩ := exists_remaps_of_merge h
  obtain ⟨f₀, hf₀⟩ := hb.exists_remapEdge hsource htarget
  obtain ⟨k, hasserts, hkey⟩ := hb.exists_asserts hst hmerged hf₀
  have hmem : f₀ ∈ b.edges.filterMap (remapEdge bRemap) :=
    List.mem_filterMap.mpr ⟨e, he ▸ List.mem_append_right earlier List.mem_cons_self, hf₀⟩
  have hsome : (g.view.edge k).isSome := by
    rw [hview, PartialMap.overlay_apply, Option.isSome_or, Bool.or_eq_true]
    exact Or.inr (firstBy_isSome_iff.mpr ⟨f₀, hmem, hkey⟩)
  obtain ⟨c, hc⟩ := Option.isSome_iff_exists.mp hsome
  obtain ⟨f, hf, hfk, hconfidence⟩ := hgwf.view_edge_eq_some_iff.mp hc
  refine ⟨k, hasserts, f, hf, (Graph.asserts_iff_labelKey hgwf.nodup_ids).mpr hfk, ?_⟩
  intro hnew hearlier
  -- the first edge that states the relationship is the moved `e`
  have hvalue : g.view.edge k = some e.confidence := by
    rw [hview, PartialMap.overlay_apply, ha.firstBy_eq_none hst hmerged hnew, Option.none_or, he,
      List.filterMap_append, List.filterMap_cons, hf₀, firstBy_append, PartialMap.overlay_apply,
      hb.firstBy_eq_none hst hmerged hearlier, Option.none_or, firstBy_cons, if_pos hkey,
      (remapEdge_eq_some_iff.mp hf₀).2.2.2]
  rw [hc, Option.some.injEq] at hvalue
  exact hconfidence.trans hvalue

end HabitatGraph
