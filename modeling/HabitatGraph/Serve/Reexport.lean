import HabitatGraph.Serve.LoadRoundTrip
import Mathlib.Algebra.GroupWithZero.Nat
import Mathlib.Algebra.Order.BigOperators.Group.List

/-! # Exporting a loaded graph again

A loaded graph is sorted, and its labels and relations are capped a second time
when it is exported, now with their escapes. The text comes back unchanged
exactly when neither does anything.
-/

namespace HabitatGraph

open StableSort

/-- Nodes by id and links by what is written of them. -/
structure Graph.ExportOrdered (g : Graph) : Prop where
  nodes : g.nodes.Pairwise fun n m => n.id ≤ m.id
  edges : g.edges.Pairwise fun e f => (loadedEdge e).key ≤ (loadedEdge f).key

/-- No label or relation exceeds the cap once it is escaped. -/
structure Graph.ExportShort (g : Graph) : Prop where
  labels : ∀ n ∈ g.nodes, (exportedLabel n.label).length ≤ maxLabelLen
  relations : ∀ e ∈ g.edges, (exportedLabel e.relation).length ≤ maxLabelLen

/-- Loading what was exported and exporting it again gives the same text. -/
def ReexportsSame (serde : SerdeJson) (tables : UnicodeTables) (g : Graph) : Prop :=
  ∃ text loaded, serde.toNodeLink g = .ok text ∧ fromNodeLink serde tables text = .ok loaded ∧
    serde.toNodeLink loaded = .ok text

/-- Summands that are at most others of the same sum are those. -/
theorem eq_of_sum_map_eq {α : Type*} {f h : α → Nat} {xs : List α} (hle : ∀ x ∈ xs, f x ≤ h x)
    (hsum : (xs.map f).sum = (xs.map h).sum) : ∀ x ∈ xs, f x = h x := by
  induction xs with
  | nil => simp
  | cons y ys ih =>
      rw [List.forall_mem_cons] at hle ⊢
      have htail : (ys.map f).sum ≤ (ys.map h).sum := List.sum_le_sum hle.2
      rw [List.map_cons, List.map_cons, List.sum_cons, List.sum_cons] at hsum
      have hhead := hle.1
      exact ⟨by omega, ih hle.2 (by omega)⟩

/-- Lists that one function maps alike are mapped alike by what it determines. -/
theorem map_eq_of_map_eq {α β γ : Type*} {f : α → β} {k : α → γ}
    (hk : ∀ x y, f x = f y → k x = k y) {xs ys : List α} (h : xs.map f = ys.map f) :
    xs.map k = ys.map k := by
  induction xs generalizing ys with
  | nil => simp_all
  | cons x xs ih =>
      cases ys with
      | nil => simp at h
      | cons y ys =>
          rw [List.map_cons, List.map_cons, List.cons.injEq] at h ⊢
          exact ⟨hk x y h.1, ih h.2⟩

/-! ## Entries -/

theorem nodeLinkEnvelope_eq_iff {g h : Graph} : nodeLinkEnvelope g = nodeLinkEnvelope h ↔
    (g.nodes.map fun n => nodeEntry (communityMap g.communities n.id) n) =
        (h.nodes.map fun n => nodeEntry (communityMap h.communities n.id) n) ∧
      g.edges.map linkEntry = h.edges.map linkEntry := by
  simp [nodeLinkEnvelope]

theorem nodeEntry_loadedNode_iff (community : Option UInt32) (n : Node) :
    nodeEntry community (loadedNode n) = nodeEntry community n ↔
      (exportedLabel n.label).length ≤ maxLabelLen := by
  rw [← exportedLabel_exportedLabel_iff]
  constructor
  · intro heq
    have hget := congrArg (JsonValue.get "label") heq
    exact JsonValue.string.inj (Option.some.inj hget)
  · intro hlabel
    unfold exportedLabel at hlabel
    simp only [nodeEntry, loadedNode, exportedLabel, hlabel, displaySafe_displaySafe]

theorem linkEntry_congr {e f : Edge} (hsource : e.source = f.source) (htarget : e.target = f.target)
    (hrelation : exportedLabel e.relation = exportedLabel f.relation)
    (hconfidence : e.confidence = f.confidence) : linkEntry e = linkEntry f := by
  unfold exportedLabel at hrelation
  simp only [linkEntry, hsource, htarget, hrelation, hconfidence]

theorem linkEntry_loadedEdge {e : Edge} (h : (exportedLabel e.relation).length ≤ maxLabelLen) :
    linkEntry (loadedEdge e) = linkEntry e := by
  apply linkEntry_congr (loadedEdge_source e) (loadedEdge_target e) _ (loadedEdge_confidence e)
  rw [loadedEdge_relation]
  exact (exportedLabel_exportedLabel_iff e.relation).mpr h

/-- The number an id is written as. -/
def idNumber (id : NodeId) : Option JsonValue := some (.number (.integer id.get.toNat))

theorem idNumber_injective : Function.Injective idNumber := by
  intro a b h
  unfold idNumber at h
  rw [Option.some.injEq, JsonValue.number.injEq, JsonNumber.integer.injEq] at h
  exact NodeId.toNat_injective h

theorem get_id_nodeEntry (community : Option UInt32) (n : Node) :
    (nodeEntry community n).get "id" = idNumber n.id := rfl

theorem get_label_nodeEntry (community : Option UInt32) (n : Node) :
    (nodeEntry community n).get "label" = some (.string (exportedLabel n.label)) := rfl

theorem get_source_linkEntry (e : Edge) : (linkEntry e).get "source" = idNumber e.source := rfl

theorem get_target_linkEntry (e : Edge) : (linkEntry e).get "target" = idNumber e.target := rfl

theorem get_relation_linkEntry (e : Edge) :
    (linkEntry e).get "relation" = some (.string (exportedLabel e.relation)) := rfl

/-- The length of the relation an entry shows. -/
def relationLength (v : JsonValue) : Nat :=
  (((v.get "relation").bind JsonValue.asStr).getD "").length

theorem relationLength_linkEntry (e : Edge) :
    relationLength (linkEntry e) = (exportedLabel e.relation).length := by
  rw [relationLength, get_relation_linkEntry]
  rfl

/-- The entry of an edge shows the key the edge is sorted by when it is loaded. -/
theorem key_loadedEdge_of_linkEntry {e f : Edge} (h : linkEntry e = linkEntry f) :
    (loadedEdge e).key = (loadedEdge f).key := by
  have hsource := congrArg (JsonValue.get "source") h
  have htarget := congrArg (JsonValue.get "target") h
  have hrelation := congrArg (JsonValue.get "relation") h
  rw [get_source_linkEntry, get_source_linkEntry] at hsource
  rw [get_target_linkEntry, get_target_linkEntry] at htarget
  rw [get_relation_linkEntry, get_relation_linkEntry] at hrelation
  rw [Option.some.injEq, JsonValue.string.injEq] at hrelation
  simp only [Edge.key_eq_iff, loadedEdge_source, loadedEdge_target, loadedEdge_relation]
  exact ⟨idNumber_injective hsource, idNumber_injective htarget, hrelation⟩

/-! ## The whole graph -/

/-- The entries of the nodes come back as they were when the nodes are in order
and their labels short. -/
theorem nodeEntries_loadedGraph_iff (g : Graph) :
    ((loadedGraph g).nodes.map fun n =>
        nodeEntry (communityMap (loadedGraph g).communities n.id) n) =
      (g.nodes.map fun n => nodeEntry (communityMap g.communities n.id) n) ↔
    (g.nodes.Pairwise fun n m => n.id ≤ m.id) ∧
      ∀ n ∈ g.nodes, (exportedLabel n.label).length ≤ maxLabelLen := by
  have hloaded : ((loadedGraph g).nodes.map fun n =>
      nodeEntry (communityMap (loadedGraph g).communities n.id) n) =
        (sortByKey Node.id g.nodes).map fun n =>
          nodeEntry (communityMap g.communities n.id) (loadedNode n) := by
    change (sortByKey Node.id (g.nodes.map loadedNode)).map _ = _
    rw [sortByKey_map loadedNode loadedNode_id, List.map_map]
    apply List.map_congr_left
    intro n hn
    rw [Function.comp_apply, loadedNode_id, communityMap_loadedGraph (mem_sortByKey.mp hn)]
  rw [hloaded]
  constructor
  · intro heq
    have hordered : g.nodes.Pairwise fun n m => n.id ≤ m.id := by
      apply pairwise_of_map_sortByKey
      have hids := congrArg (List.map (JsonValue.get "id")) heq
      simp only [List.map_map, Function.comp_def, get_id_nodeEntry, loadedNode_id] at hids
      apply idNumber_injective.list_map
      rw [List.map_map, List.map_map]
      exact hids
    rw [sortByKey_eq_self hordered] at heq
    refine ⟨hordered, fun n hn => ?_⟩
    exact (nodeEntry_loadedNode_iff _ n).mp (List.map_inj_left.mp heq n hn)
  · intro ⟨hordered, hshort⟩
    rw [sortByKey_eq_self hordered]
    apply List.map_congr_left
    intro n hn
    exact (nodeEntry_loadedNode_iff _ n).mpr (hshort n hn)

/-- The entries of the edges come back as they were when they are in the order
of what is written, and their relations short. -/
theorem linkEntries_loadedGraph_iff (g : Graph) :
    (loadedGraph g).edges.map linkEntry = g.edges.map linkEntry ↔
      (g.edges.Pairwise fun e f => (loadedEdge e).key ≤ (loadedEdge f).key) ∧
        ∀ e ∈ g.edges, (exportedLabel e.relation).length ≤ maxLabelLen := by
  have hloaded : (loadedGraph g).edges.map linkEntry =
      (sortByKey (fun e => (loadedEdge e).key) g.edges).map fun e => linkEntry (loadedEdge e) := by
    change (sortByKey Edge.key (g.edges.map loadedEdge)).map linkEntry = _
    rw [sortByKey_map loadedEdge fun _ => rfl, List.map_map]
    rfl
  have hentries : (∀ e ∈ g.edges, (exportedLabel e.relation).length ≤ maxLabelLen) →
      (sortByKey (fun e => (loadedEdge e).key) g.edges).map (fun e => linkEntry (loadedEdge e)) =
        (sortByKey (fun e => (loadedEdge e).key) g.edges).map linkEntry := by
    intro hshort
    apply List.map_congr_left
    intro e he
    exact linkEntry_loadedEdge (hshort e (mem_sortByKey.mp he))
  rw [hloaded]
  constructor
  · intro heq
    have hshort : ∀ e ∈ g.edges, (exportedLabel e.relation).length ≤ maxLabelLen := by
      -- a cap that bites makes the relations shorter in total
      have hlengths := congrArg (fun entries => (entries.map relationLength).sum) heq
      simp only [List.map_map, Function.comp_def, relationLength_linkEntry, loadedEdge_relation,
        ((sortByKey_perm g.edges).map _).sum_eq, length_exportedLabel_exportedLabel] at hlengths
      intro e he
      have hlength := eq_of_sum_map_eq (fun _ _ => Nat.min_le_right _ _) hlengths e he
      exact min_eq_right_iff.mp hlength
    rw [hentries hshort] at heq
    exact ⟨pairwise_of_map_sortByKey
      (map_eq_of_map_eq (fun _ _ => key_loadedEdge_of_linkEntry) heq), hshort⟩
  · intro ⟨hordered, hshort⟩
    rw [hentries hshort, sortByKey_eq_self hordered]

/-- Loading leaves the exported form alone exactly for ordered graphs of short
texts. -/
theorem nodeLinkEnvelope_loadedGraph_iff (g : Graph) :
    nodeLinkEnvelope (loadedGraph g) = nodeLinkEnvelope g ↔ g.ExportOrdered ∧ g.ExportShort := by
  rw [nodeLinkEnvelope_eq_iff, nodeEntries_loadedGraph_iff, linkEntries_loadedGraph_iff]
  constructor
  · intro ⟨hnodes, hedges⟩
    exact ⟨⟨hnodes.1, hedges.1⟩, hnodes.2, hedges.2⟩
  · intro ⟨hordered, hshort⟩
    exact ⟨⟨hordered.nodes, hshort.labels⟩, hordered.edges, hshort.relations⟩

/-! ## The text -/

namespace SerdeJson

variable {serde : SerdeJson}

theorem toNodeLink_eq_ok_iff {g : Graph} {text : String} :
    serde.toNodeLink g = .ok text ↔ serde.toStringPretty (nodeLinkEnvelope g) = .ok text := by
  unfold toNodeLink
  cases serde.toStringPretty (nodeLinkEnvelope g) <;> simp [Except.mapError]

/-- Values that parse back are told apart by their texts. -/
theorem RoundTrips.eq_of_toStringPretty_eq {v w : JsonValue} (hv : serde.RoundTrips v)
    (hw : serde.RoundTrips w) (h : serde.toStringPretty v = serde.toStringPretty w) : v = w := by
  obtain ⟨text, hprint, hparse⟩ := hv
  obtain ⟨text', hprint', hparse'⟩ := hw
  rw [hprint, hprint', Except.ok.injEq] at h
  subst h
  rw [hparse, Except.ok.injEq] at hparse'
  exact hparse'

end SerdeJson

theorem reexportsSame_iff {serde : SerdeJson} {tables : UnicodeTables} {g : Graph}
    (hserde : serde.RoundTrips (nodeLinkEnvelope g))
    (hloaded : serde.RoundTrips (nodeLinkEnvelope (loadedGraph g))) :
    ReexportsSame serde tables g ↔ g.ExportOrdered ∧ g.ExportShort := by
  rw [← nodeLinkEnvelope_loadedGraph_iff]
  constructor
  · intro ⟨text, loaded, hprint, hload, hagain⟩
    rw [SerdeJson.toNodeLink_eq_ok_iff] at hprint hagain
    obtain ⟨text', hprint', hparse⟩ := hserde
    rw [hprint, Except.ok.injEq] at hprint'
    subst hprint'
    rw [fromNodeLink_of_envelope hparse, Except.ok.injEq] at hload
    subst hload
    exact hloaded.eq_of_toStringPretty_eq ⟨text, hprint, hparse⟩ (hagain.trans hprint.symm)
  · intro henvelope
    obtain ⟨text, hprint, hparse⟩ := hserde
    refine ⟨text, loadedGraph g, SerdeJson.toNodeLink_eq_ok_iff.mpr hprint,
      fromNodeLink_of_envelope hparse, SerdeJson.toNodeLink_eq_ok_iff.mpr ?_⟩
    rw [henvelope, hprint]

/-- Where escaped labels and relations stay within the cap, loading and exporting
again changes nothing exactly when the graph is in order. Ids, labels and edges may
repeat, and communities may be any; the library round trips the two documents. -/
theorem reexportsSame_iff_ordered (serde : SerdeJson) (tables : UnicodeTables) {g : Graph}
    (hshort : g.ExportShort) (hserde : serde.RoundTrips (nodeLinkEnvelope g))
    (hloaded : serde.RoundTrips (nodeLinkEnvelope (loadedGraph g))) :
    ReexportsSame serde tables g ↔ g.ExportOrdered :=
  (reexportsSame_iff hserde hloaded).trans (and_iff_left hshort)

/-- A JSON library that parses what `g` is exported to before and after loading. -/
def SerdeJson.knowingBoth (g : Graph) : SerdeJson :=
  SerdeJson.knowing [nodeLinkEnvelope g, nodeLinkEnvelope (loadedGraph g)]

theorem SerdeJson.knowingBoth_roundTrips (g : Graph) :
    (SerdeJson.knowingBoth g).RoundTrips (nodeLinkEnvelope g) :=
  SerdeJson.knowing_roundTrips (by simp)

theorem SerdeJson.knowingBoth_roundTrips_loaded {g : Graph}
    (h : (nodeLinkEnvelope g).pretty [] ≠ (nodeLinkEnvelope (loadedGraph g)).pretty []) :
    (SerdeJson.knowingBoth g).RoundTrips (nodeLinkEnvelope (loadedGraph g)) := by
  apply SerdeJson.knowing_roundTrips
  simp [String.ofList_inj, h]

theorem reexportsSame_iff_ordered_caller :
    ReexportsSame (SerdeJson.knowing [nodeLinkEnvelope callerGraph]) asciiTables callerGraph ↔
      callerGraph.ExportOrdered := by
  have hsame : nodeLinkEnvelope (loadedGraph callerGraph) = nodeLinkEnvelope callerGraph :=
    (nodeLinkEnvelope_loadedGraph_iff callerGraph).mpr
      ⟨⟨by decide, by decide⟩, by decide, by decide⟩
  exact reexportsSame_iff_ordered _ asciiTables ⟨by decide, by decide⟩
    (SerdeJson.knowing_roundTrips (by simp))
    (hsame ▸ SerdeJson.knowing_roundTrips (by simp))

/-- The nodes of `callerGraph` in descending order. -/
def descendingGraph : Graph := { Graph.new with
  nodes := [⟨⟨2⟩, "Lexer", "a.rs", ⟨12, 20, 30, 40⟩⟩, ⟨⟨1⟩, "parse", "a.rs", ⟨0, 10, 7, 9⟩⟩] }

/-- One node in order, whose label takes 264 characters to escape. -/
def overriddenGraph : Graph := { Graph.new with
  nodes := [⟨⟨1⟩, String.ofList (List.replicate 33 (Char.ofNat 0x202E)), "a.rs", ⟨0, 10, 7, 9⟩⟩] }

theorem not_exportShort_overriddenGraph : ¬ overriddenGraph.ExportShort := by
  intro hshort
  have hlabel := hshort.labels _ List.mem_cons_self
  rw [← String.length_toList] at hlabel
  simp only [exportedLabel, toList_displaySafe, toList_sanitizeLabel,
    String.toList_ofList] at hlabel
  exact absurd hlabel (by decide +kernel)

/-- A graph out of order changes when it is loaded and exported again, and so
does one in order whose label is too long once it is escaped. -/
theorem reexport_changes_text :
    ((descendingGraph.nodes.map Node.id).Nodup ∧ descendingGraph.communities = [] ∧
      (SerdeJson.knowingBoth descendingGraph).RoundTrips (nodeLinkEnvelope descendingGraph) ∧
      (SerdeJson.knowingBoth descendingGraph).RoundTrips
        (nodeLinkEnvelope (loadedGraph descendingGraph)) ∧
      ¬ ReexportsSame (SerdeJson.knowingBoth descendingGraph) asciiTables descendingGraph) ∧
    ((overriddenGraph.nodes.map Node.id).Nodup ∧ overriddenGraph.communities = [] ∧
      overriddenGraph.sorted = overriddenGraph ∧
      ∀ serde tables, serde.RoundTrips (nodeLinkEnvelope overriddenGraph) →
        serde.RoundTrips (nodeLinkEnvelope (loadedGraph overriddenGraph)) →
          ¬ ReexportsSame serde tables overriddenGraph) := by
  have hloaded := @SerdeJson.knowingBoth_roundTrips_loaded descendingGraph (by decide +kernel)
  constructor
  · refine ⟨by decide, rfl, SerdeJson.knowingBoth_roundTrips _, hloaded, ?_⟩
    rw [reexportsSame_iff (SerdeJson.knowingBoth_roundTrips _) hloaded]
    intro ⟨hordered, _⟩
    exact absurd hordered.nodes (by decide)
  · refine ⟨by decide, rfl, rfl, fun serde tables hserde hloaded => ?_⟩
    rw [reexportsSame_iff hserde hloaded]
    intro ⟨_, hshort⟩
    exact not_exportShort_overriddenGraph hshort

end HabitatGraph
