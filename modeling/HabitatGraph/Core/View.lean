import HabitatGraph.Core.Schema
import HabitatGraph.Foundation.LabelledGraph

/-! # Graphs up to their identifiers

A graph means the symbols and relationships it names. Its `view` forgets node
ids and collection order and keeps, for each label, where the symbol was found
and, for each pair of labels and relation, how the relationship was derived.
A well-formed graph is determined by its view and the ids of its labels.
-/

namespace HabitatGraph

open KeyedList StableSort

/-- Where a symbol was found: its source file and span. -/
abbrev Location := String × Span

/-- An edge named by its end labels and its relation. -/
abbrev EdgeKey := String × String × String

/-- Symbols by label and relationships by end labels. -/
abbrev SymbolGraph := LabelledGraph String Location String Confidence

/-- The part of a node that does not depend on its id. -/
def Node.toRaw (n : Node) : RawNode := ⟨n.label, n.sourceFile, n.sourceLocation⟩

def RawNode.location (n : RawNode) : Location := (n.sourceFile, n.span)

def Node.location (n : Node) : Location := (n.sourceFile, n.sourceLocation)

theorem firstBy_label_map_toRaw (nodes : List Node) :
    firstBy (fun n => some n.label) RawNode.location (nodes.map Node.toRaw) =
      firstBy (fun n => some n.label) Node.location nodes := by
  rw [← List.filterMap_eq_map]
  apply firstBy_filterMap nodes
  · rintro n - _ ⟨⟩
    exact ⟨rfl, rfl⟩
  · intro n _ h
    cases h

namespace Graph

/-- The label of the node `id`. -/
def labelOf (g : Graph) (id : NodeId) : Option String :=
  firstBy (fun n => some n.id) Node.label g.nodes id

/-- The id of the node labelled `label`. -/
def idOf (g : Graph) (label : String) : Option NodeId :=
  firstBy (fun n => some n.label) Node.id g.nodes label

/-- The end labels and relation of an edge whose ends are nodes. -/
def labelKey (g : Graph) (e : Edge) : Option EdgeKey :=
  (g.labelOf e.source).bind fun s => (g.labelOf e.target).map fun t => (s, t, e.relation)

theorem labelKey_eq_some_iff {g : Graph} {e : Edge} {s t r : String} :
    g.labelKey e = some (s, t, r) ↔
      g.labelOf e.source = some s ∧ g.labelOf e.target = some t ∧ e.relation = r := by
  unfold labelKey
  cases g.labelOf e.source <;> cases g.labelOf e.target <;> simp

theorem exists_node_of_labelOf {g : Graph} {id : NodeId} {label : String}
    (h : g.labelOf id = some label) : ∃ n ∈ g.nodes, n.id = id ∧ n.label = label := by
  obtain ⟨n, hn, hid, hlabel⟩ := exists_of_firstBy_eq_some h
  exact ⟨n, hn, Option.some.inj hid, hlabel⟩

/-- The graph of symbols that `g` denotes. -/
def view (g : Graph) : SymbolGraph where
  node := firstBy (fun n => some n.label) Node.location g.nodes
  edge := firstBy g.labelKey Edge.confidence g.edges
  closed := by
    intro s t r h
    obtain ⟨e, -, he⟩ := firstBy_isSome_iff.mp h
    obtain ⟨hs, ht, -⟩ := labelKey_eq_some_iff.mp he
    obtain ⟨m, hm, -, rfl⟩ := exists_node_of_labelOf hs
    obtain ⟨n, hn, -, rfl⟩ := exists_node_of_labelOf ht
    exact ⟨firstBy_isSome_iff.mpr ⟨m, hm, rfl⟩, firstBy_isSome_iff.mpr ⟨n, hn, rfl⟩⟩

/-- The labels of the nodes. -/
def labels (g : Graph) : List String := g.nodes.map Node.label

/-- The relationships that the edges assert. -/
def labelKeys (g : Graph) : List EdgeKey := g.edges.filterMap g.labelKey

theorem mem_labels_iff {g : Graph} {label : String} :
    label ∈ g.labels ↔ (g.view.node label).isSome := by
  simp [labels, view, firstBy_isSome_iff, List.mem_map]

theorem mem_labelKeys_iff {g : Graph} {k : EdgeKey} :
    k ∈ g.labelKeys ↔ (g.view.edge k).isSome := by
  rw [labelKeys, List.mem_filterMap]
  exact firstBy_isSome_iff.symm

/-! ## Well-formed graphs -/

/-- Distinct ids and labels, no dangling edge, no duplicate edge, canonical
order. -/
structure WellFormed (g : Graph) : Prop where
  nodup_ids : (g.nodes.map Node.id).Nodup
  nodup_labels : (g.nodes.map Node.label).Nodup
  closed : ∀ e ∈ g.edges, e.source ∈ g.nodes.map Node.id ∧ e.target ∈ g.nodes.map Node.id
  nodup_edges : (g.edges.map Edge.key).Nodup
  sorted_nodes : g.nodes.Pairwise (fun m n => m.id ≤ n.id)
  sorted_edges : g.edges.Pairwise (fun e f => e.key ≤ f.key)

/-- Ids and labels each name one node. -/
structure Distinct (g : Graph) : Prop where
  nodup_ids : (g.nodes.map Node.id).Nodup
  nodup_labels : (g.nodes.map Node.label).Nodup

theorem WellFormed.distinct {g : Graph} (hg : g.WellFormed) : g.Distinct :=
  ⟨hg.nodup_ids, hg.nodup_labels⟩

theorem wellFormed_new : Graph.new.WellFormed where
  nodup_ids := List.nodup_nil
  nodup_labels := List.nodup_nil
  closed := by intro e he; cases he
  nodup_edges := List.nodup_nil
  sorted_nodes := List.Pairwise.nil
  sorted_edges := List.Pairwise.nil

theorem labelOf_eq_some_iff {g : Graph} (hids : (g.nodes.map Node.id).Nodup) {id : NodeId}
    {label : String} :
    g.labelOf id = some label ↔ ∃ n ∈ g.nodes, n.id = id ∧ n.label = label := by
  refine ⟨exists_node_of_labelOf, ?_⟩
  rintro ⟨n, hn, rfl, rfl⟩
  refine firstBy_eq_some_of_unique hn rfl fun m hm hid => ?_
  exact eq_of_mem_of_key_eq hids hm hn (Option.some.inj hid)

theorem labelOf_id {g : Graph} (hids : (g.nodes.map Node.id).Nodup) {n : Node} (hn : n ∈ g.nodes) :
    g.labelOf n.id = some n.label := (labelOf_eq_some_iff hids).mpr ⟨n, hn, rfl, rfl⟩

theorem idOf_eq_some_iff {g : Graph} (hlabels : (g.nodes.map Node.label).Nodup) {id : NodeId}
    {label : String} :
    g.idOf label = some id ↔ ∃ n ∈ g.nodes, n.label = label ∧ n.id = id := by
  constructor
  · intro h
    obtain ⟨n, hn, hlabel, hid⟩ := exists_of_firstBy_eq_some h
    exact ⟨n, hn, Option.some.inj hlabel, hid⟩
  · rintro ⟨n, hn, rfl, rfl⟩
    refine firstBy_eq_some_of_unique hn rfl fun m hm hlabel => ?_
    exact eq_of_mem_of_key_eq hlabels hm hn (Option.some.inj hlabel)

theorem labelOf_isSome_iff {g : Graph} {id : NodeId} :
    (g.labelOf id).isSome ↔ id ∈ g.nodes.map Node.id := by
  simp [labelOf, firstBy_isSome_iff, List.mem_map]

theorem view_node_eq_some_iff {g : Graph} (hlabels : (g.nodes.map Node.label).Nodup)
    {label : String} {loc : Location} :
    g.view.node label = some loc ↔ ∃ n ∈ g.nodes, n.label = label ∧ n.location = loc := by
  constructor
  · intro h
    obtain ⟨n, hn, hlabel, hloc⟩ := exists_of_firstBy_eq_some h
    exact ⟨n, hn, Option.some.inj hlabel, hloc⟩
  · rintro ⟨n, hn, rfl, rfl⟩
    refine firstBy_eq_some_of_unique hn rfl fun m hm hlabel => ?_
    exact eq_of_mem_of_key_eq hlabels hm hn (Option.some.inj hlabel)

theorem view_node_isSome_iff {g : Graph} {label : String} :
    (g.view.node label).isSome ↔ label ∈ g.nodes.map Node.label := by
  simp [view, firstBy_isSome_iff, List.mem_map]

/-- Distinct ids and labels make a label stand for one id. -/
theorem eq_of_labelOf_eq {g : Graph} (hlabels : (g.nodes.map Node.label).Nodup) {id id' : NodeId}
    {label : String} (h : g.labelOf id = some label) (h' : g.labelOf id' = some label) :
    id = id' := by
  obtain ⟨n, hn, rfl, hlabel⟩ := exists_node_of_labelOf h
  obtain ⟨m, hm, rfl, hlabel'⟩ := exists_node_of_labelOf h'
  rw [eq_of_mem_of_key_eq hlabels hn hm (hlabel.trans hlabel'.symm)]

/-- Edges named by the same labels have the same key. -/
theorem key_eq_of_labelKey_eq {g : Graph} (hlabels : (g.nodes.map Node.label).Nodup) {e f : Edge}
    {k : EdgeKey} (he : g.labelKey e = some k) (hf : g.labelKey f = some k) : e.key = f.key := by
  obtain ⟨s, t, r⟩ := k
  obtain ⟨hs, ht, hr⟩ := labelKey_eq_some_iff.mp he
  obtain ⟨hs', ht', hr'⟩ := labelKey_eq_some_iff.mp hf
  exact Edge.key_eq_iff.mpr ⟨eq_of_labelOf_eq hlabels hs hs', eq_of_labelOf_eq hlabels ht ht',
    hr.trans hr'.symm⟩

theorem labelKey_eq_of_key_eq {g : Graph} {e f : Edge} (h : e.key = f.key) :
    g.labelKey e = g.labelKey f := by
  obtain ⟨hs, ht, hr⟩ := Edge.key_eq_iff.mp h
  simp only [labelKey, hs, ht, hr]

namespace WellFormed

variable {g : Graph}

theorem exists_labelKey (hg : g.WellFormed) {e : Edge} (he : e ∈ g.edges) :
    ∃ k, g.labelKey e = some k := by
  obtain ⟨hs, ht⟩ := hg.closed e he
  obtain ⟨s, hs⟩ := Option.isSome_iff_exists.mp (labelOf_isSome_iff.mpr hs)
  obtain ⟨t, ht⟩ := Option.isSome_iff_exists.mp (labelOf_isSome_iff.mpr ht)
  exact ⟨(s, t, e.relation), labelKey_eq_some_iff.mpr ⟨hs, ht, rfl⟩⟩

theorem eq_of_labelKey_eq (hg : g.WellFormed) {e f : Edge} (he : e ∈ g.edges) (hf : f ∈ g.edges)
    {k : EdgeKey} (hek : g.labelKey e = some k) (hfk : g.labelKey f = some k) : e = f :=
  eq_of_mem_of_key_eq hg.nodup_edges he hf (key_eq_of_labelKey_eq hg.nodup_labels hek hfk)

theorem view_edge_eq_some_iff (hg : g.WellFormed) {k : EdgeKey} {c : Confidence} :
    g.view.edge k = some c ↔ ∃ e ∈ g.edges, g.labelKey e = some k ∧ e.confidence = c := by
  constructor
  · exact exists_of_firstBy_eq_some
  · rintro ⟨e, he, hk, rfl⟩
    exact firstBy_eq_some_of_unique he hk fun f hf hfk => hg.eq_of_labelKey_eq hf he hfk hk

/-- No relationship is asserted twice. -/
theorem nodup_labelKeys (hg : g.WellFormed) : g.labelKeys.Nodup := by
  refine List.pairwise_filterMap.mpr ((List.pairwise_map.mp hg.nodup_edges).imp ?_)
  rintro e f hne k hk _ hk' rfl
  exact hne (key_eq_of_labelKey_eq hg.nodup_labels hk hk')

end WellFormed

/-! ## Nodes and edges are all that counts -/

theorem view_congr {g g' : Graph} (hnodes : g'.nodes = g.nodes) (hedges : g'.edges = g.edges) :
    g'.view = g.view := by
  have hlabelKey : g'.labelKey = g.labelKey := by
    funext e
    simp only [labelKey, labelOf, hnodes]
  apply LabelledGraph.eq_of_maps
  · simp only [view, hnodes]
  · simp only [view, hlabelKey, hedges]

theorem WellFormed.congr {g g' : Graph} (hnodes : g'.nodes = g.nodes) (hedges : g'.edges = g.edges)
    (hg : g.WellFormed) : g'.WellFormed where
  nodup_ids := hnodes ▸ hg.nodup_ids
  nodup_labels := hnodes ▸ hg.nodup_labels
  closed := by
    rw [hnodes, hedges]
    exact hg.closed
  nodup_edges := hedges ▸ hg.nodup_edges
  sorted_nodes := hnodes ▸ hg.sorted_nodes
  sorted_edges := hedges ▸ hg.sorted_edges

/-! ## A well-formed graph is its view with ids -/

theorem mem_nodes_of_view_eq {g g' : Graph} (hg : g.WellFormed) (hg' : g'.WellFormed)
    (hview : g.view = g'.view) (hid : ∀ label, g.idOf label = g'.idOf label) {n : Node}
    (hn : n ∈ g.nodes) : n ∈ g'.nodes := by
  have hloc : g'.view.node n.label = some n.location :=
    hview ▸ (view_node_eq_some_iff hg.nodup_labels).mpr ⟨n, hn, rfl, rfl⟩
  obtain ⟨m, hm, hlabel, hlocation⟩ := (view_node_eq_some_iff hg'.nodup_labels).mp hloc
  have hnid : g'.idOf n.label = some n.id :=
    hid n.label ▸ (idOf_eq_some_iff hg.nodup_labels).mpr ⟨n, hn, rfl, rfl⟩
  obtain ⟨m', hm', hlabel', hmid⟩ := (idOf_eq_some_iff hg'.nodup_labels).mp hnid
  obtain rfl := eq_of_mem_of_key_eq hg'.nodup_labels hm hm' (hlabel.trans hlabel'.symm)
  obtain ⟨hfile, hspan⟩ := Prod.mk.inj hlocation
  have heq : n = m := by
    cases n
    cases m
    simp_all
  exact heq ▸ hm

theorem nodes_eq_of_view_eq {g g' : Graph} (hg : g.WellFormed) (hg' : g'.WellFormed)
    (hview : g.view = g'.view) (hid : ∀ label, g.idOf label = g'.idOf label) :
    g.nodes = g'.nodes := by
  refine eq_of_pairwise_lt_of_mem_iff (pairwise_lt_of_nodup hg.sorted_nodes hg.nodup_ids)
    (pairwise_lt_of_nodup hg'.sorted_nodes hg'.nodup_ids) fun n => ⟨?_, ?_⟩
  · exact mem_nodes_of_view_eq hg hg' hview hid
  · exact mem_nodes_of_view_eq hg' hg hview.symm fun label => (hid label).symm

theorem mem_edges_of_view_eq {g g' : Graph} (hg : g.WellFormed) (hg' : g'.WellFormed)
    (hnodes : g.nodes = g'.nodes) (hview : g.view = g'.view) {e : Edge} (he : e ∈ g.edges) :
    e ∈ g'.edges := by
  have hlabelKey : ∀ f, g.labelKey f = g'.labelKey f := fun f => by
    simp only [labelKey, labelOf, hnodes]
  obtain ⟨k, hk⟩ := hg.exists_labelKey he
  have hconf : g'.view.edge k = some e.confidence :=
    hview ▸ hg.view_edge_eq_some_iff.mpr ⟨e, he, hk, rfl⟩
  obtain ⟨f, hf, hfk, hfc⟩ := hg'.view_edge_eq_some_iff.mp hconf
  obtain ⟨hs, ht, hr⟩ := Edge.key_eq_iff.mp
    (key_eq_of_labelKey_eq hg'.nodup_labels hfk (hlabelKey e ▸ hk))
  have heq : f = e := by
    cases e
    cases f
    simp_all
  exact heq ▸ hf

/-- Well-formed graphs with the same view and the same id for each label have
the same nodes and edges, in the same order. -/
theorem eq_of_view_eq {g g' : Graph} (hg : g.WellFormed) (hg' : g'.WellFormed)
    (hview : g.view = g'.view) (hid : ∀ label, g.idOf label = g'.idOf label) :
    g.nodes = g'.nodes ∧ g.edges = g'.edges := by
  have hnodes := nodes_eq_of_view_eq hg hg' hview hid
  refine ⟨hnodes, eq_of_pairwise_lt_of_mem_iff
    (pairwise_lt_of_nodup hg.sorted_edges hg.nodup_edges)
    (pairwise_lt_of_nodup hg'.sorted_edges hg'.nodup_edges) fun e => ⟨?_, ?_⟩⟩
  · exact mem_edges_of_view_eq hg hg' hnodes hview
  · exact mem_edges_of_view_eq hg' hg hnodes.symm hview.symm

end Graph

end HabitatGraph
