import HabitatGraph.Analyze.Cluster
import HabitatGraph.Build.SelfMerge
import HabitatGraph.Serve.Reexport

/-! # The merge driver command

Git calls the driver on three files. Each is loaded, the graphs are merged and
the merge is written back. On three copies of one artifact this is the identity
only when exporting changes nothing that the merge identifies by: a label that
is escaped is a new label to it, with another id.
-/

namespace HabitatGraph

open KeyedList StableSort

/-- The files the driver works on: how their paths are shown, what reading one
gives and what writing one returns. -/
structure DriverFiles (Path : Type) where
  display : Path → String
  read : Path → Except String String
  write : Path → String → Except String Unit

section Command

variable {Path : Type} (files : DriverFiles Path) (serde : SerdeJson) (tables : UnicodeTables)
  (contentId : String → UInt32)

/-- Load a `graph.json`. -/
def loadFile (path : Path) : Except GraphError Graph := do
  let text ← (files.read path).mapError fun e =>
    GraphError.io ("read " ++ files.display path ++ ": " ++ e)
  fromNodeLink serde tables text

/-- Merge three files into `ours` and return the text written there. `none`
stands for a merge that never ends. -/
def merge3ToOurs (base ours theirs : Path) : Except GraphError (Option String) := do
  let baseGraph ← loadFile files serde tables base
  let oursGraph ← loadFile files serde tables ours
  let theirsGraph ← loadFile files serde tables theirs
  match merge3 contentId baseGraph oursGraph theirsGraph with
  | none => .ok none
  | some merged => do
      let json ← serde.toNodeLink merged
      (files.write ours json).mapError fun e =>
        GraphError.io ("write " ++ files.display ours ++ ": " ++ e)
      .ok (some json)

end Command

/-! ## Detected communities are recorded -/

theorem communityLabel_injective : Function.Injective communityLabel := by
  intro c d h
  have hnumber : toString c.get.toNat = toString d.get.toNat := by
    apply String.toList_inj.mp
    simpa [communityLabel, ← String.toList_inj] using h
  have hparse := congrArg parseU32 hnumber
  rw [parseU32_toString, parseU32_toString] at hparse
  cases c
  cases d
  cases hparse
  rfl

namespace Numbered

variable {g : Graph}

theorem pairwise_ids (h : Numbered (g.nodes.map Node.id) g.communities) :
    g.communities.Pairwise fun c d => c.id < d.id := by
  have hrange := List.pairwise_lt_range (n := g.communities.length)
  rw [← h.ids_eq, List.pairwise_map] at hrange
  exact hrange

theorem nodup_flatMap (h : Numbered (g.nodes.map Node.id) g.communities)
    (hids : (g.nodes.map Node.id).Nodup) : (g.communities.flatMap Community.members).Nodup := by
  rcases h.cover with hnil | hperm
  · simp [hnil]
  · exact hperm.nodup_iff.mpr hids

/-- Numbered communities are read back as they were written. -/
theorem clustered (h : Numbered (g.nodes.map Node.id) g.communities)
    (hids : (g.nodes.map Node.id).Nodup) : g.Clustered where
  nodup_ids := hids
  sorted_communities := by
    have hsorted : ∀ c ∈ g.communities, c.sorted = id c := by
      intro c hc
      simp only [Community.sorted, sortByKey_eq_self (h.sorted_members c hc), id]
    rw [sortCommunities, sortByKey_eq_self (h.pairwise_ids.imp le_of_lt),
      List.map_congr_left hsorted, List.map_id]
  community_ids := List.pairwise_map.mpr (h.pairwise_ids.imp ne_of_lt)
  members_ne_nil := h.members_ne_nil
  nodup_members := by
    have hnodup := h.nodup_flatMap hids
    rw [List.nodup_flatMap] at hnodup
    exact hnodup.1
  disjoint_members := by
    have hnodup := h.nodup_flatMap hids
    rw [List.nodup_flatMap] at hnodup
    exact hnodup.2
  members_ids := by
    intro c hc m hm
    rcases h.cover with hnil | hperm
    · simp [hnil] at hc
    · exact hperm.mem_iff.mp (List.mem_flatMap.mpr ⟨c, hc, hm⟩)
  community_label := h.label

end Numbered

/-! ## The loaded graph merged with itself -/

/-- The exported labels are distinct and decide the ids, the exported links are
in strictly ascending order, and no escape made a text too long. -/
structure Graph.MergeStable (contentId : String → UInt32) (g : Graph) : Prop where
  labels_distinct : (g.nodes.map fun n => exportedLabel n.label).Nodup
  ids_follow : ∀ n ∈ g.nodes, contentId (exportedLabel n.label) ≤ n.id.get ∧
    ∀ v, contentId (exportedLabel n.label) ≤ v → v < n.id.get → ⟨v⟩ ∈ g.nodes.map Node.id
  edges_ascending : g.edges.Pairwise fun e f => (loadedEdge e).key < (loadedEdge f).key
  short : g.ExportShort

section Loaded

variable {g : Graph}

theorem loadedGraph_nodes (hg : g.WellFormed) : (loadedGraph g).nodes = g.nodes.map loadedNode := by
  change sortByKey Node.id (g.nodes.map loadedNode) = _
  rw [sortByKey_map loadedNode loadedNode_id, sortByKey_eq_self hg.sorted_nodes]

theorem map_id_loadedGraph (hg : g.WellFormed) :
    (loadedGraph g).nodes.map Node.id = g.nodes.map Node.id := by
  rw [loadedGraph_nodes hg, List.map_map]
  simp only [Function.comp_def, loadedNode_id]

theorem loadedNode_label (n : Node) : (loadedNode n).label = exportedLabel n.label := by
  simp only [loadedNode]

theorem map_label_loadedGraph (hg : g.WellFormed) :
    (loadedGraph g).nodes.map Node.label = g.nodes.map fun n => exportedLabel n.label := by
  rw [loadedGraph_nodes hg, List.map_map]
  simp only [Function.comp_def, loadedNode_label]

theorem loadedGraph_communities (hg : g.WellFormed)
    (hnumbered : Numbered (g.nodes.map Node.id) g.communities) :
    (loadedGraph g).communities = g.communities :=
  (hnumbered.clustered hg.nodup_ids).groupCommunities_eq

theorem canonical_loadedGraph (hg : g.WellFormed)
    (hnumbered : Numbered (g.nodes.map Node.id) g.communities)
    (hlabels : (g.nodes.map fun n => exportedLabel n.label).Nodup) : (loadedGraph g).Canonical := by
  have hcommunities := loadedGraph_communities hg hnumbered
  have hclustered := hnumbered.clustered hg.nodup_ids
  have hids := map_id_loadedGraph hg
  have hdistinct : (loadedGraph g).Distinct := by
    constructor
    · rw [hids]
      exact hg.nodup_ids
    · rw [map_label_loadedGraph hg]
      exact hlabels
  refine ⟨hdistinct, ?_, pairwise_sortByKey _, pairwise_sortByKey _, ?_, ?_, ?_, ?_⟩
  · intro e he
    obtain ⟨f, hf, rfl⟩ := List.mem_map.mp (mem_sortByKey.mp he)
    rw [hids, loadedEdge_source, loadedEdge_target]
    exact hg.closed f hf
  · rw [hcommunities, hclustered.sorted_communities]
  · rw [hcommunities, hnumbered.ids_eq]
  · rw [hcommunities]
    have hnodup := hclustered.community_ids.map communityLabel_injective
    rw [List.map_map] at hnodup
    rwa [List.map_congr_left fun c hc => hclustered.community_label c hc]
  · rw [hcommunities, hids]
    exact hclustered.members_ids

theorem idsFollow_loadedGraph_iff {contentId : String → UInt32} (hg : g.WellFormed) :
    (loadedGraph g).IdsFollow contentId ↔ ∀ n ∈ g.nodes,
      contentId (exportedLabel n.label) ≤ n.id.get ∧
        ∀ v, contentId (exportedLabel n.label) ≤ v → v < n.id.get → ⟨v⟩ ∈ g.nodes.map Node.id := by
  simp only [Graph.IdsFollow, map_id_loadedGraph hg]
  rw [loadedGraph_nodes hg, List.forall_mem_map]
  simp only [loadedNode_id, loadedNode_label]

theorem loadedGraph_edges_perm (g : Graph) :
    (loadedGraph g).edges.Perm (g.edges.map loadedEdge) := sortByKey_perm _

/-- Strictly ascending written keys are ascending and distinct. -/
theorem pairwise_lt_loadedEdge_iff :
    (g.edges.Pairwise fun e f => (loadedEdge e).key < (loadedEdge f).key) ↔
      (g.edges.Pairwise fun e f => (loadedEdge e).key ≤ (loadedEdge f).key) ∧
        ((loadedGraph g).edges.map Edge.key).Nodup := by
  have hperm : ((loadedGraph g).edges.map Edge.key).Perm
      (g.edges.map fun e => (loadedEdge e).key) := by
    have hkeys := (loadedGraph_edges_perm g).map Edge.key
    rwa [List.map_map] at hkeys
  rw [hperm.nodup_iff]
  constructor
  · intro h
    exact ⟨h.imp le_of_lt, List.pairwise_map.mpr (h.imp ne_of_lt)⟩
  · intro ⟨hle, hnodup⟩
    exact @pairwise_lt_of_nodup _ _ (fun e => (loadedEdge e).key) _ _ hle hnodup

theorem nodeLinkEnvelope_congr {g h : Graph} (hnodes : g.nodes = h.nodes)
    (hedges : g.edges = h.edges) (hcommunities : g.communities = h.communities) :
    nodeLinkEnvelope g = nodeLinkEnvelope h := by
  rw [nodeLinkEnvelope_eq_iff, hnodes, hedges, hcommunities]
  exact ⟨rfl, rfl⟩

/-- A merge-stable graph is exported alike after it was loaded and merged. -/
theorem envelope_of_mergeStable {contentId : String → UInt32} (hg : g.WellFormed)
    (hnumbered : Numbered (g.nodes.map Node.id) g.communities) (hstable : g.MergeStable contentId) :
    ∃ merged, merge3 contentId (loadedGraph g) (loadedGraph g) (loadedGraph g) = some merged ∧
      nodeLinkEnvelope merged = nodeLinkEnvelope g := by
  have hcanonical := canonical_loadedGraph hg hnumbered hstable.labels_distinct
  have hfollow := (idsFollow_loadedGraph_iff hg).mpr hstable.ids_follow
  obtain ⟨hordered, hnodup⟩ := pairwise_lt_loadedEdge_iff.mp hstable.edges_ascending
  refine ⟨_, hcanonical.merge3_self hfollow, ?_⟩
  rw [← (nodeLinkEnvelope_loadedGraph_iff g).mpr ⟨⟨hg.sorted_nodes, hordered⟩, hstable.short⟩]
  exact nodeLinkEnvelope_congr rfl (firsts_eq_self hnodup) rfl

/-- The ids and the written labels, which an exported node shows. -/
theorem map_id_label_of_envelope {h : Graph} (henvelope : nodeLinkEnvelope h = nodeLinkEnvelope g) :
    (h.nodes.map fun n => (n.id, exportedLabel n.label)) =
      g.nodes.map fun n => (n.id, exportedLabel n.label) := by
  obtain ⟨hentries, -⟩ := nodeLinkEnvelope_eq_iff.mp henvelope
  have hshown := congrArg (List.map fun v => (v.get "id", v.get "label")) hentries
  simp only [List.map_map, Function.comp_def, get_id_nodeEntry, get_label_nodeEntry] at hshown
  have hinjective : Function.Injective fun p : NodeId × String =>
      (idNumber p.1, some (JsonValue.string p.2)) := by
    intro p q hpq
    rw [Prod.mk.injEq, Option.some.injEq, JsonValue.string.injEq] at hpq
    exact Prod.ext (idNumber_injective hpq.1) hpq.2
  apply hinjective.list_map
  rw [List.map_map, List.map_map]
  exact hshown

/-- A merge that writes labels as they were written did not have to cap them. -/
theorem labels_short_of_merge3 {contentId : String → UInt32} (hg : g.WellFormed) {merged : Graph}
    (hcanonical : (loadedGraph g).Canonical)
    (hmerged : merge3 contentId (loadedGraph g) (loadedGraph g) (loadedGraph g) = some merged)
    (hlabels : (merged.nodes.map fun n => exportedLabel n.label) =
      g.nodes.map fun n => exportedLabel n.label) :
    ∀ n ∈ g.nodes, (exportedLabel n.label).length ≤ maxLabelLen := by
  have hperm := hcanonical.labels_perm_of_merge3_self hmerged
  rw [map_label_loadedGraph hg] at hperm
  have htwice := hperm.map fun label => (exportedLabel label).length
  have hwritten := congrArg (List.map String.length) hlabels
  rw [List.map_map, List.map_map] at htwice hwritten
  simp only [Function.comp_def, length_exportedLabel_exportedLabel] at htwice hwritten
  have hsum := htwice.sum_eq
  rw [hwritten] at hsum
  intro n hn
  have hlength := eq_of_sum_map_eq (fun _ _ => Nat.min_le_right _ _) hsum.symm n hn
  exact min_eq_right_iff.mp hlength

/-- Short labels that come back under their ids follow from the loaded labels. -/
theorem idsFollow_of_shown {contentId : String → UInt32} (hg : g.WellFormed) {merged : Graph}
    (hcanonical : (loadedGraph g).Canonical)
    (hmerged : merge3 contentId (loadedGraph g) (loadedGraph g) (loadedGraph g) = some merged)
    (hshown : (merged.nodes.map fun n => (n.id, exportedLabel n.label)) =
      g.nodes.map fun n => (n.id, exportedLabel n.label))
    (hlabels : ∀ n ∈ g.nodes, (exportedLabel n.label).length ≤ maxLabelLen) :
    (loadedGraph g).IdsFollow contentId := by
  apply hcanonical.idsFollow_of_merge3_self hmerged
  have hloaded : ((loadedGraph g).nodes.map fun n => (n.id, n.label)) =
      g.nodes.map fun n => (n.id, exportedLabel n.label) := by
    rw [loadedGraph_nodes hg, List.map_map]
    simp only [Function.comp_def, loadedNode_id, loadedNode_label]
  rw [hloaded, ← hshown]
  apply List.map_congr_left
  intro n hn
  -- a merged label was written before, so it is written as it is
  have hmem := (hcanonical.labels_perm_of_merge3_self hmerged).mem_iff.mp
    (List.mem_map_of_mem hn)
  rw [map_label_loadedGraph hg] at hmem
  obtain ⟨m, hm, hlabel⟩ := List.mem_map.mp hmem
  rw [← hlabel, (exportedLabel_exportedLabel_iff m.label).mpr (hlabels m hm)]

/-- No link is lost between the loaded links and those written, so none repeats
another. -/
theorem nodup_keys_of_links
    (hlinks : (firsts Edge.key (loadedGraph g).edges).map linkEntry = g.edges.map linkEntry) :
    ((loadedGraph g).edges.map Edge.key).Nodup := by
  apply nodup_of_length_le
  have hwritten := congrArg List.length hlinks
  have hloaded : (loadedGraph g).edges.length = g.edges.length := by
    rw [(loadedGraph_edges_perm g).length_eq, List.length_map]
  rw [List.length_map, List.length_map] at hwritten
  omega

/-- Only a merge-stable graph is exported alike after it was loaded and merged. -/
theorem mergeStable_of_envelope {contentId : String → UInt32} (hg : g.WellFormed)
    (hnumbered : Numbered (g.nodes.map Node.id) g.communities) {merged : Graph}
    (hmerged : merge3 contentId (loadedGraph g) (loadedGraph g) (loadedGraph g) = some merged)
    (henvelope : nodeLinkEnvelope merged = nodeLinkEnvelope g) : g.MergeStable contentId := by
  have hshown := map_id_label_of_envelope henvelope
  have hlength : (loadedGraph g).nodes.length ≤ merged.nodes.length := by
    have heq := congrArg List.length hshown
    rw [List.length_map, List.length_map] at heq
    rw [loadedGraph_nodes hg, List.length_map, heq]
  have hdistinct := nodup_labels_of_merge3_self hmerged hlength
  rw [map_label_loadedGraph hg] at hdistinct
  have hcanonical := canonical_loadedGraph hg hnumbered hdistinct
  have hlabels : ∀ n ∈ g.nodes, (exportedLabel n.label).length ≤ maxLabelLen := by
    apply labels_short_of_merge3 hg hcanonical hmerged
    have hsnd := congrArg (List.map Prod.snd) hshown
    rwa [List.map_map, List.map_map] at hsnd
  have hfollow := idsFollow_of_shown hg hcanonical hmerged hshown hlabels
  rw [hcanonical.merge3_self hfollow, Option.some.injEq] at hmerged
  have hlinks : (firsts Edge.key (loadedGraph g).edges).map linkEntry = g.edges.map linkEntry := by
    rw [← (nodeLinkEnvelope_eq_iff.mp henvelope).2, ← hmerged]
  have hnodup := nodup_keys_of_links hlinks
  rw [firsts_eq_self hnodup, linkEntries_loadedGraph_iff] at hlinks
  exact ⟨hdistinct, (idsFollow_loadedGraph_iff hg).mp hfollow,
    pairwise_lt_loadedEdge_iff.mpr ⟨hlinks.1, hnodup⟩, hlabels, hlinks.2⟩

end Loaded

/-! ## Three copies of one artifact -/

section Unchanged

variable {Path : Type} {files : DriverFiles Path} {serde : SerdeJson} {tables : UnicodeTables}
  {contentId : String → UInt32} {g : Graph} {text : String} {base ours theirs : Path}

theorem loadFile_of_toNodeLink {path : Path} (htext : serde.toNodeLink g = .ok text)
    (hserde : serde.RoundTrips (nodeLinkEnvelope g)) (hread : files.read path = .ok text) :
    loadFile files serde tables path = .ok (loadedGraph g) := by
  obtain ⟨text', hprint, hparse⟩ := hserde
  rw [SerdeJson.toNodeLink_eq_ok_iff, hprint, Except.ok.injEq] at htext
  subst htext
  rw [loadFile, hread]
  exact fromNodeLink_of_envelope hparse

theorem merge3ToOurs_of_copies {loaded : Graph}
    (hbase : loadFile files serde tables base = .ok loaded)
    (hours : loadFile files serde tables ours = .ok loaded)
    (htheirs : loadFile files serde tables theirs = .ok loaded)
    (hwrite : files.write ours text = .ok ()) :
    merge3ToOurs files serde tables contentId base ours theirs = .ok (some text) ↔
      ∃ merged, merge3 contentId loaded loaded loaded = some merged ∧
        serde.toNodeLink merged = .ok text := by
  unfold merge3ToOurs
  simp only [hbase, hours, htheirs, ok_bind]
  cases hmerge : merge3 contentId loaded loaded loaded with
  | none => simp
  | some merged =>
      cases hjson : serde.toNodeLink merged with
      | error e => simp [bind, Except.bind, hjson]
      | ok json =>
          simp only [ok_bind, Option.some.injEq, exists_eq_left', hjson, Except.ok.injEq]
          constructor
          · intro h
            cases hwritten : files.write ours json with
            | error e => simp [hwritten, Except.mapError, bind, Except.bind] at h
            | ok u => simpa [hwritten, Except.mapError] using h
          · intro h
            subst h
            simp [hwrite, Except.mapError]

/-- Copies of one exported graph with numbered communities are merged into the
same text when the graph is merge-stable. -/
theorem merge3ToOurs_copies_iff (hg : g.WellFormed)
    (hnumbered : Numbered (g.nodes.map Node.id) g.communities)
    (htext : serde.toNodeLink g = .ok text) (hserde : serde.RoundTrips (nodeLinkEnvelope g))
    (hmerged : ∀ merged,
      merge3 contentId (loadedGraph g) (loadedGraph g) (loadedGraph g) = some merged →
        serde.RoundTrips (nodeLinkEnvelope merged))
    (hbase : files.read base = .ok text) (hours : files.read ours = .ok text)
    (htheirs : files.read theirs = .ok text) (hwrite : files.write ours text = .ok ()) :
    merge3ToOurs files serde tables contentId base ours theirs = .ok (some text) ↔
      g.MergeStable contentId := by
  rw [merge3ToOurs_of_copies (loadFile_of_toNodeLink htext hserde hbase)
    (loadFile_of_toNodeLink htext hserde hours) (loadFile_of_toNodeLink htext hserde htheirs)
    hwrite]
  constructor
  · intro ⟨merged, hmerge, hjson⟩
    apply mergeStable_of_envelope hg hnumbered hmerge
    rw [SerdeJson.toNodeLink_eq_ok_iff] at htext hjson
    exact (hmerged merged hmerge).eq_of_toStringPretty_eq hserde (hjson.trans htext.symm)
  · intro hstable
    obtain ⟨merged, hmerge, henvelope⟩ := envelope_of_mergeStable hg hnumbered hstable
    refine ⟨merged, hmerge, ?_⟩
    rw [SerdeJson.toNodeLink_eq_ok_iff, henvelope]
    exact SerdeJson.toNodeLink_eq_ok_iff.mp htext

/-- The driver leaves three copies of an assembled and clustered graph as they
are exactly when the graph is merge-stable. Any clustering algorithm will do that parts
the nodes; the library is asked to round trip the graph and the graph loaded from it. -/
theorem merge3ToOurs_unchanged_iff {leiden : Leiden} (hleiden : leiden.Covers)
    {extractions : List Extraction} {assembled clustered : Graph}
    (hassemble : assemble contentId extractions = some assembled)
    (hclustered : clustered.nodes = assembled.nodes)
    (hg : g = { assembled with communities := detectCommunities leiden clustered })
    (htext : serde.toNodeLink g = .ok text) (hserde : serde.RoundTrips (nodeLinkEnvelope g))
    (hmerged : ∀ merged,
      merge3 contentId (loadedGraph g) (loadedGraph g) (loadedGraph g) = some merged →
        serde.RoundTrips (nodeLinkEnvelope merged))
    (hbase : files.read base = .ok text) (hours : files.read ours = .ok text)
    (htheirs : files.read theirs = .ok text) (hwrite : files.write ours text = .ok ()) :
    merge3ToOurs files serde tables contentId base ours theirs = .ok (some text) ↔
      g.MergeStable contentId := by
  have hassembled := assemble_wellFormed hassemble
  have hwell : g.WellFormed := hassembled.congr (by rw [hg]) (by rw [hg])
  have hnumbered : Numbered (g.nodes.map Node.id) g.communities := by
    have hdetected := @numbered_detectCommunities _ hleiden clustered
    rw [hclustered] at hdetected
    rw [hg]
    exact hdetected hassembled.nodup_ids
  exact merge3ToOurs_copies_iff hwell hnumbered htext hserde hmerged hbase hours htheirs hwrite

end Unchanged

/-! ## Examples -/

/-- Files that all hold `text` and can be written. -/
def copiesOf (text : String) : DriverFiles Unit where
  display _ := "graph.json"
  read _ := .ok text
  write _ _ := .ok ()

/-- Every node is a community of its own. -/
def singletons : Leiden := fun nodeCount _ => some ((List.range nodeCount).map fun idx => [idx])

theorem singletons_covers : singletons.Covers := by
  intro nodeCount pairs groups hgroups
  cases hgroups
  constructor
  · rw [← List.flatMap_def, List.flatMap_singleton']
  · simp

/-- The content ids of the labels below. -/
def recordedId (label : String) : UInt32 :=
  if label = "f" then 3196629914
  else if label = "go" then 110748096
  else if label = "\u202Ex" then 1611530533
  else if label = "\\u\x7b202E\x7dx" then 1419733000
  else 0

/-- One function that calls another. -/
def plainFile : Extraction where
  nodes := [⟨"f", "a.rs", ⟨0, 10, 1, 2⟩⟩, ⟨"go", "a.rs", ⟨12, 20, 4, 5⟩⟩]
  edges := [⟨"go", "f", "calls", .extracted⟩]

def plainGraph : Graph := { Graph.new with
  nodes := [⟨⟨110748096⟩, "go", "a.rs", ⟨12, 20, 4, 5⟩⟩,
    ⟨⟨3196629914⟩, "f", "a.rs", ⟨0, 10, 1, 2⟩⟩]
  edges := [⟨⟨110748096⟩, ⟨3196629914⟩, "calls", .extracted⟩]
  communities := [⟨⟨0⟩, "community-0", [⟨110748096⟩]⟩,
    ⟨⟨1⟩, "community-1", [⟨3196629914⟩]⟩] }

theorem assemble_plainFile :
    assemble recordedId [plainFile] = some { plainGraph with communities := [] } := by
  decide +kernel

theorem detectCommunities_plainGraph :
    detectCommunities singletons plainGraph = plainGraph.communities := by
  decide +kernel

theorem mergeStable_plainGraph : plainGraph.MergeStable recordedId where
  labels_distinct := by decide +kernel
  ids_follow := by
    have hown : ∀ n ∈ plainGraph.nodes, recordedId (exportedLabel n.label) = n.id.get := by
      decide +kernel
    intro n hn
    rw [hown n hn]
    refine ⟨UInt32.le_refl _, fun v hv hlt => ?_⟩
    exact absurd (UInt32.lt_of_le_of_lt hv hlt) (UInt32.lt_irrefl _)
  edges_ascending := by decide +kernel
  short := ⟨by decide +kernel, by decide +kernel⟩

theorem merge3ToOurs_unchanged_iff_plainGraph :
    ∃ text, (SerdeJson.knowing [nodeLinkEnvelope plainGraph]).toNodeLink plainGraph = .ok text ∧
      (merge3ToOurs (copiesOf text) (SerdeJson.knowing [nodeLinkEnvelope plainGraph]) asciiTables
          recordedId () () () = .ok (some text) ↔ plainGraph.MergeStable recordedId) := by
  have hserde : (SerdeJson.knowing [nodeLinkEnvelope plainGraph]).RoundTrips
      (nodeLinkEnvelope plainGraph) := SerdeJson.knowing_roundTrips (by simp)
  have hwell : plainGraph.WellFormed :=
    (assemble_wellFormed assemble_plainFile).congr (by rfl) (by rfl)
  have hnumbered : Numbered (plainGraph.nodes.map Node.id) plainGraph.communities := by
    rw [← detectCommunities_plainGraph]
    exact numbered_detectCommunities singletons_covers (by decide)
  have hnodes : plainGraph.nodes = { plainGraph with communities := [] }.nodes := rfl
  refine ⟨_, rfl, merge3ToOurs_unchanged_iff singletons_covers assemble_plainFile hnodes ?_ rfl
    hserde (fun merged hmerge => ?_) rfl rfl rfl rfl⟩
  · rw [detectCommunities_plainGraph]
  · obtain ⟨merged', hmerge', henvelope⟩ :=
      envelope_of_mergeStable hwell hnumbered mergeStable_plainGraph
    rw [hmerge, Option.some.injEq] at hmerge'
    rw [hmerge', henvelope]
    exact hserde

/-- One function whose name carries a bidi override. -/
def bidiFile : Extraction := ⟨[⟨"\u202Ex", "a.rs", ⟨0, 10, 1, 2⟩⟩], []⟩

def bidiGraph : Graph := { Graph.new with
  nodes := [⟨⟨1611530533⟩, "\u202Ex", "a.rs", ⟨0, 10, 1, 2⟩⟩]
  communities := [⟨⟨0⟩, "community-0", [⟨1611530533⟩]⟩] }

/-- What the driver makes of it: the escaped name has another id. -/
def renumberedGraph : Graph := { Graph.new with
  nodes := [⟨⟨1419733000⟩, "\\u\x7b202E\x7dx", "a.rs", ⟨0, 0, 1, 1⟩⟩]
  communities := [⟨⟨0⟩, "community-0", [⟨1419733000⟩]⟩] }

theorem merge3_bidiGraph :
    merge3 recordedId (loadedGraph bidiGraph) (loadedGraph bidiGraph) (loadedGraph bidiGraph) =
      some renumberedGraph := by
  decide +kernel

/-- The driver changes an artifact nobody edited when a name was escaped in it. -/
theorem merge3ToOurs_renumbers :
    ∃ serde extractions assembled g text,
      assemble recordedId extractions = some assembled ∧
        g = { assembled with communities := detectCommunities singletons assembled } ∧
        serde.toNodeLink g = .ok text ∧ serde.RoundTrips (nodeLinkEnvelope g) ∧
        (∀ merged, merge3 recordedId (loadedGraph g) (loadedGraph g) (loadedGraph g) = some merged →
          serde.RoundTrips (nodeLinkEnvelope merged)) ∧
        merge3ToOurs (copiesOf text) serde asciiTables recordedId () () () ≠ .ok (some text) := by
  let values := [nodeLinkEnvelope bidiGraph, nodeLinkEnvelope renumberedGraph]
  have hserde : (SerdeJson.knowing values).RoundTrips (nodeLinkEnvelope bidiGraph) :=
    SerdeJson.knowing_roundTrips (by simp [values])
  have hmerged : ∀ merged,
      merge3 recordedId (loadedGraph bidiGraph) (loadedGraph bidiGraph) (loadedGraph bidiGraph) =
        some merged → (SerdeJson.knowing values).RoundTrips (nodeLinkEnvelope merged) := by
    intro merged hmerge
    rw [merge3_bidiGraph, Option.some.injEq] at hmerge
    subst hmerge
    have hpretty : (nodeLinkEnvelope bidiGraph).pretty [] ≠
        (nodeLinkEnvelope renumberedGraph).pretty [] := by decide +kernel
    exact SerdeJson.knowing_roundTrips (by simp [values, String.ofList_inj, hpretty])
  have hassemble : assemble recordedId [bidiFile] = some { bidiGraph with communities := [] } := by
    decide +kernel
  have hdetect : detectCommunities singletons { bidiGraph with communities := [] } =
      bidiGraph.communities := by decide +kernel
  refine ⟨_, _, _, bidiGraph, _, hassemble, by rw [hdetect], rfl, hserde, hmerged, ?_⟩
  have hwell : bidiGraph.WellFormed := (assemble_wellFormed hassemble).congr (by rfl) (by rfl)
  have hnumbered : Numbered (bidiGraph.nodes.map Node.id) bidiGraph.communities := by
    rw [← hdetect]
    exact numbered_detectCommunities singletons_covers (by decide)
  rw [ne_eq, merge3ToOurs_copies_iff hwell hnumbered rfl hserde hmerged rfl rfl rfl rfl]
  intro hstable
  -- no other id is in use that could lead from the one id to the other
  have hfollow := (hstable.ids_follow _ List.mem_cons_self).2 1419733000
  exact absurd (hfollow (by decide +kernel) (by decide +kernel)) (by decide +kernel)

end HabitatGraph
