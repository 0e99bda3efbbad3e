import HabitatGraph.Build.MergeAlgebra

/-! # The three-way merge driver

Two branches are merged against their common ancestor. Identity is by label: a
label, an edge key or a community label survives when it is new or kept on both
sides, and the data of `ours` wins. Ids are assigned afresh to the surviving
labels, and edges and members follow their labels into the new id space.
-/

namespace HabitatGraph

open KeyedList

variable (contentId : String → UInt32)

/-! ## Lookup tables -/

/-- Every label among `nodes`. -/
def nodeLabelSet (nodes : List Node) : List String := nodes.map Node.label

/-- Labels by id; of two nodes with one id the later one counts. -/
def nodeIdToLabelMap (nodes : List Node) : PartialMap NodeId String :=
  PartialMap.ofEntries (nodes.map fun n => (n.id, n.label))

/-- The end labels and relation of an edge, unless an end has no label. -/
def edgeLabelKey (idToLabel : PartialMap NodeId String) (e : Edge) : Option EdgeKey :=
  match idToLabel e.source, idToLabel e.target with
  | some src, some tgt => some (src, tgt, e.relation)
  | _, _ => none

/-- Every label key among `edges`. -/
def edgeKeySet (edges : List Edge) (idToLabel : PartialMap NodeId String) : List EdgeKey :=
  edges.filterMap (edgeLabelKey idToLabel)

/-- Every label among `communities`. -/
def communityLabelSet (communities : List Community) : List String :=
  communities.map Community.label

/-- Base-aware deletion: keep what is new or kept on both sides. -/
def keeps {κ : Type*} [DecidableEq κ] (base ours theirs : List κ) (k : κ) : Bool :=
  k ∉ base || (k ∈ ours && k ∈ theirs)

/-! ## Nodes -/

/-- Nodes that survive, under their original ids. -/
def selectWinningNodes (oursNodes theirsNodes : List Node)
    (baseLabels oursLabels theirsLabels : List String)
    (oursLabelToNode : PartialMap String Node) : List Node :=
  ((firsts Node.label (oursNodes ++ theirsNodes)).filter fun node =>
      keeps baseLabels oursLabels theirsLabels node.label).map fun node =>
    (oursLabelToNode node.label).getD node

/-- Give every node a free content-addressed id and record it under its label. -/
def assignNodeIds : List UInt32 → PartialMap String NodeId → List Node →
    Option (List Node × PartialMap String NodeId)
  | _, labelToNewId, [] => some ([], labelToNewId)
  | used, labelToNewId, node :: nodes =>
      (assignUniqueContentId contentId node.label used).bind fun raw =>
        (assignNodeIds (raw :: used) (labelToNewId.insert node.label ⟨raw⟩) nodes).map fun p =>
          ({ node with id := ⟨raw⟩ } :: p.1, p.2)

/-! ## Edges -/

/-- An edge with its label key, moved to the new ids; the policy and both ends
must let it survive. -/
def moveEdge (keep : EdgeKey → Bool) (labelToNewId : PartialMap String NodeId)
    (idToLabel : PartialMap NodeId String) (e : Edge) : Option (EdgeKey × Edge) :=
  match idToLabel e.source, idToLabel e.target with
  | some srcLabel, some tgtLabel =>
      if keep (srcLabel, tgtLabel, e.relation) then
        match labelToNewId srcLabel, labelToNewId tgtLabel with
        | some src, some tgt =>
            some ((srcLabel, tgtLabel, e.relation), ⟨src, tgt, e.relation, e.confidence⟩)
        | _, _ => none
      else none
  | _, _ => none

/-- Surviving edges of `ours`, then of `theirs`. A key counts as seen once an
edge of it has survived. -/
def mergeGraphEdges (ours theirs : Graph) (oursIdToLabel theirsIdToLabel : PartialMap NodeId String)
    (baseEdgeKeys : List EdgeKey) (labelToNewId : PartialMap String NodeId) : List Edge :=
  let oursEdgeKeys := edgeKeySet ours.edges oursIdToLabel
  let theirsEdgeKeys := edgeKeySet theirs.edges theirsIdToLabel
  let keep := keeps baseEdgeKeys oursEdgeKeys theirsEdgeKeys
  (firsts Prod.fst (ours.edges.filterMap (moveEdge keep labelToNewId oursIdToLabel) ++
    theirs.edges.filterMap (moveEdge keep labelToNewId theirsIdToLabel))).map Prod.snd

/-! ## Communities -/

/-- The id after `id`, staying at the largest one. -/
def saturatingSucc (id : UInt32) : UInt32 := if id = UInt32.ofNat (2 ^ 32 - 1) then id else id + 1

/-- The new id of a member, unless its node did not survive. -/
def moveMember (idToLabel : PartialMap NodeId String) (labelToNewId : PartialMap String NodeId)
    (member : NodeId) : Option NodeId :=
  (idToLabel member).bind labelToNewId

/-- Number the surviving communities from `nextId` on. -/
def numberCommunities : UInt32 → List (String × List NodeId) → List Community
  | _, [] => []
  | nextId, (label, members) :: rest =>
      ⟨⟨nextId⟩, label, members⟩ :: numberCommunities (saturatingSucc nextId) rest

/-- Surviving communities by label, the members of `ours` when it has the label. -/
def mergeGraphCommunities (ours theirs : Graph) (baseCommLabels : List String)
    (oursIdToLabel theirsIdToLabel : PartialMap NodeId String)
    (labelToNewId : PartialMap String NodeId) : List Community :=
  let oursCommLabels := communityLabelSet ours.communities
  let theirsCommLabels := communityLabelSet theirs.communities
  let oursCommMap := PartialMap.ofEntries (ours.communities.map fun c => (c.label, c))
  numberCommunities 0
    (((firsts Community.label (ours.communities ++ theirs.communities)).filter fun community =>
        keeps baseCommLabels oursCommLabels theirsCommLabels community.label).map fun community =>
      match oursCommMap community.label with
      | some comm => (comm.label, comm.members.filterMap (moveMember oursIdToLabel labelToNewId))
      | none => (community.label,
          community.members.filterMap (moveMember theirsIdToLabel labelToNewId)))

/-! ## The merge -/

/-- The nodes that survive the merge. -/
def preNodes (base ours theirs : Graph) : List Node :=
  selectWinningNodes ours.nodes theirs.nodes (nodeLabelSet base.nodes) (nodeLabelSet ours.nodes)
    (nodeLabelSet theirs.nodes) (PartialMap.ofEntries (ours.nodes.map fun n => (n.label, n)))

/-- What is built around the surviving nodes once they have their ids. -/
def assembleMerge (base ours theirs : Graph) (nodes : List Node)
    (labelToNewId : PartialMap String NodeId) : Graph :=
  let oursIdToLabel := nodeIdToLabelMap ours.nodes
  let theirsIdToLabel := nodeIdToLabelMap theirs.nodes
  (dedup {
    schema := ours.schema
    nodes := nodes
    edges := mergeGraphEdges ours theirs oursIdToLabel theirsIdToLabel
      (edgeKeySet base.edges (nodeIdToLabelMap base.nodes)) labelToNewId
    communities := mergeGraphCommunities ours theirs (communityLabelSet base.communities)
      oursIdToLabel theirsIdToLabel labelToNewId
    manifest := mergeManifest ours.manifest theirs.manifest }).sorted

/-- Merge `ours` and `theirs` against their common ancestor `base`. `none`
stands for a run that never ends, which takes more than 2^32 surviving labels. -/
def merge3 (base ours theirs : Graph) : Option Graph :=
  (assignNodeIds contentId [] PartialMap.empty (preNodes base ours theirs)).map fun p =>
    assembleMerge base ours theirs p.1 p.2

variable {contentId}

/-! ## Lookups in graphs with distinct ids -/

theorem keeps_iff {κ : Type*} [DecidableEq κ] {base ours theirs : List κ} {k : κ} :
    keeps base ours theirs k ↔ k ∉ base ∨ k ∈ ours ∧ k ∈ theirs := by
  simp [keeps]

/-- The policy applied to the entries of both sides is the three-way table. -/
theorem ite_keeps {κ ν : Type*} [DecidableEq κ] {base ours theirs : List κ} {k : κ}
    {b x y : Option ν} (hbase : k ∈ base ↔ b.isSome) (hours : k ∈ ours ↔ x.isSome)
    (htheirs : k ∈ theirs ↔ y.isSome) :
    (if keeps base ours theirs k then x.or y else none) = LabelledGraph.threeWayEntry b x y := by
  have hkeeps : keeps base ours theirs k = (!b.isSome || (x.isSome && y.isSome)) := by
    cases b <;> simp [keeps, hbase, hours, htheirs]
  rw [hkeeps]
  cases b <;> cases x <;> cases y <;> rfl

theorem nodeIdToLabelMap_eq {g : Graph} (hids : (g.nodes.map Node.id).Nodup) :
    nodeIdToLabelMap g.nodes = g.labelOf := by
  funext id
  refine Option.ext fun label => ?_
  have hfst : ((g.nodes.map fun n => (n.id, n.label)).map Prod.fst).Nodup := by
    rw [List.map_map]
    exact hids
  rw [nodeIdToLabelMap, PartialMap.ofEntries_eq_some_iff hfst, Graph.labelOf_eq_some_iff hids,
    List.mem_map]
  simp only [Prod.mk.injEq]

theorem edgeLabelKey_labelOf (g : Graph) (e : Edge) : edgeLabelKey g.labelOf e = g.labelKey e := by
  unfold edgeLabelKey Graph.labelKey
  cases g.labelOf e.source <;> cases g.labelOf e.target <;> rfl

theorem edgeKeySet_labelOf (g : Graph) : edgeKeySet g.edges g.labelOf = g.labelKeys := by
  unfold edgeKeySet Graph.labelKeys
  exact congrArg (List.filterMap · g.edges) (funext (edgeLabelKey_labelOf g))

/-! ## The surviving nodes -/

theorem winner_label {nodes : List Node} (node : Node) :
    ((PartialMap.ofEntries (nodes.map fun n => (n.label, n)) node.label).getD node).label =
      node.label := by
  cases h : PartialMap.ofEntries (nodes.map fun n => (n.label, n)) node.label with
  | none => rfl
  | some m => exact (PartialMap.mem_of_ofEntries_map_eq_some h).2

/-- The surviving labels, in order of first appearance. -/
theorem map_label_preNodes (base ours theirs : Graph) :
    (preNodes base ours theirs).map Node.label =
      ((firsts Node.label (ours.nodes ++ theirs.nodes)).map Node.label).filter
        (keeps base.labels ours.labels theirs.labels) := by
  rw [preNodes, selectWinningNodes, List.map_map, List.filter_map]
  exact List.map_congr_left fun node _ => winner_label node

theorem nodup_preNodes (base ours theirs : Graph) :
    ((preNodes base ours theirs).map Node.label).Nodup := by
  rw [map_label_preNodes]
  exact (nodup_map_firsts _).filter _

theorem mem_map_label_preNodes {base ours theirs : Graph} {label : String} :
    label ∈ (preNodes base ours theirs).map Node.label ↔
      (label ∈ ours.labels ∨ label ∈ theirs.labels) ∧
        keeps base.labels ours.labels theirs.labels label := by
  rw [map_label_preNodes, List.mem_filter, mem_map_firsts, List.map_append, List.mem_append]
  rfl

/-- A surviving node is the one of `ours`, when `ours` has its label once. -/
theorem preNodes_eq {base ours theirs : Graph} (hours : ours.Distinct) :
    preNodes base ours theirs = (firsts Node.label (ours.nodes ++ theirs.nodes)).filter fun node =>
      keeps base.labels ours.labels theirs.labels node.label := by
  refine (List.map_congr_left fun node hnode => ?_).trans (List.map_id _)
  cases h : PartialMap.ofEntries (ours.nodes.map fun n => (n.label, n)) node.label with
  | none => rfl
  | some n =>
      obtain ⟨hm, hlabel⟩ := PartialMap.mem_of_ofEntries_map_eq_some h
      -- `firsts` takes the node of a label in `ours` from `ours`
      have hfound : (ours.nodes ++ theirs.nodes).find? (fun n => decide (n.label = node.label)) =
          some n := by
        rw [List.find?_append, (find?_key_eq_some_iff hours.nodup_labels).mpr ⟨hm, hlabel⟩]
        rfl
      have hfirst : (firsts Node.label (ours.nodes ++ theirs.nodes)).find?
          (fun n => decide (n.label = node.label)) = some node :=
        (find?_key_eq_some_iff (nodup_map_firsts _)).mpr ⟨(List.mem_filter.mp hnode).1, rfl⟩
      rw [find?_firsts _ fun x _ y _ h => by simp only [h], hfound] at hfirst
      exact Option.some.inj hfirst

/-- What the surviving nodes say of each label, by the three-way table. -/
theorem firstBy_preNodes {base ours theirs : Graph} (hours : ours.Distinct) :
    firstBy (fun n => some n.label) Node.location (preNodes base ours theirs) =
      fun label => LabelledGraph.threeWayEntry (base.view.node label) (ours.view.node label)
        (theirs.view.node label) := by
  funext label
  rw [preNodes_eq hours, firstBy_filter, firstBy_firsts, firstBy_append]
  exact ite_keeps Graph.mem_labels_iff Graph.mem_labels_iff Graph.mem_labels_iff

/-! ## Fresh ids -/

/-- On new labels, assigning ids is interning. -/
theorem internAll_eq_assignNodeIds {st : Interner} {nodes : List Node}
    (hnodup : (nodes.map Node.label).Nodup) (hnew : ∀ n ∈ nodes, st.table n.label = none) :
    (st.internAll contentId (nodes.map Node.toRaw)).map (fun st' => (st'.nodes, st'.table)) =
      (assignNodeIds contentId st.used st.table nodes).map fun p => (st.nodes ++ p.1, p.2) := by
  induction nodes generalizing st with
  | nil => simp [Interner.internAll, assignNodeIds]
  | cons node nodes ih =>
      obtain ⟨hnode, hnodup⟩ := List.nodup_cons.mp hnodup
      have htable : st.table node.toRaw.label = none := hnew node List.mem_cons_self
      simp only [List.map_cons, Interner.internAll, Interner.intern, htable, assignNodeIds]
      change ((Option.map _ (assignUniqueContentId contentId node.label st.used)).bind _).map _ = _
      cases assignUniqueContentId contentId node.label st.used with
      | none => rfl
      | some value =>
          simp only [Option.map_some, Option.bind_some]
          refine (ih hnodup fun n hn => ?_).trans ?_
          · have hne : n.label ≠ node.label := fun h => hnode (h ▸ List.mem_map_of_mem hn)
            exact (PartialMap.insert_of_ne _ _ hne).trans (hnew n (List.mem_cons_of_mem node hn))
          · rw [Option.map_map]
            refine congrArg (Option.map · _) (funext fun p => ?_)
            simp [Node.toRaw]

theorem exists_interner_of_assignNodeIds {nodes nodes' : List Node}
    {labelToNewId : PartialMap String NodeId} (hnodup : (nodes.map Node.label).Nodup)
    (h : assignNodeIds contentId [] PartialMap.empty nodes = some (nodes', labelToNewId)) :
    ∃ st, Interner.empty.internAll contentId (nodes.map Node.toRaw) = some st ∧ st.Valid ∧
      st.nodes = nodes' ∧ st.table = labelToNewId := by
  have hmap := @internAll_eq_assignNodeIds contentId Interner.empty nodes hnodup fun _ _ => rfl
  change _ = (assignNodeIds contentId [] PartialMap.empty nodes).map _ at hmap
  rw [h, Option.map_some] at hmap
  obtain ⟨st, hst, heq⟩ := Option.map_eq_some_iff.mp hmap
  obtain ⟨hnodes, htable⟩ := Prod.mk.inj heq
  exact ⟨st, hst, Interner.valid_empty.internAll hst, hnodes, htable⟩

/-- Merging goes through one interner of the surviving nodes. -/
theorem exists_interner_of_merge3 {base ours theirs g : Graph}
    (h : merge3 contentId base ours theirs = some g) :
    ∃ st, Interner.empty.internAll contentId ((preNodes base ours theirs).map Node.toRaw) =
        some st ∧ st.Valid ∧ g = assembleMerge base ours theirs st.nodes st.table := by
  obtain ⟨⟨nodes, labelToNewId⟩, hassign, rfl⟩ := Option.map_eq_some_iff.mp h
  obtain ⟨st, hst, hvalid, rfl, rfl⟩ :=
    exists_interner_of_assignNodeIds (nodup_preNodes base ours theirs) hassign
  exact ⟨st, hst, hvalid, rfl⟩

/-- The labels of the merged graph are the surviving ones. -/
theorem mem_labels_of_merge3 {base ours theirs g : Graph}
    (h : merge3 contentId base ours theirs = some g) {label : String} :
    label ∈ g.labels ↔ label ∈ (preNodes base ours theirs).map Node.label := by
  obtain ⟨st, hintern, hst, rfl⟩ := exists_interner_of_merge3 h
  rw [Graph.labels, assembleMerge,
    ((Graph.dedup_sorted_nodes_perm hst.nodup_ids).map Node.label).mem_iff,
    Interner.mem_labels_of_internAll hintern, List.map_map]
  rfl

/-- Merging returns when at most 2^32 labels survive, and only then. -/
theorem merge3_isSome_iff (contentId : String → UInt32) (base ours theirs : Graph) :
    (merge3 contentId base ours theirs).isSome ↔ (preNodes base ours theirs).length ≤ 2 ^ 32 := by
  have hnodup := nodup_preNodes base ours theirs
  have hmap := congrArg Option.isSome
    (@internAll_eq_assignNodeIds contentId Interner.empty _ hnodup fun _ _ => rfl)
  have hraw : (((preNodes base ours theirs).map Node.toRaw).map RawNode.label).Nodup := by
    rw [List.map_map]
    exact hnodup
  rw [Option.isSome_map, Option.isSome_map] at hmap
  rw [merge3, Option.isSome_map]
  change (assignNodeIds contentId Interner.empty.used Interner.empty.table _).isSome = true ↔ _
  rw [← hmap, Interner.internAll_isSome_iff, firsts_eq_self hraw, List.length_map]

/-! ## The merged edges -/

theorem moveEdge_eq_some_iff {keep : EdgeKey → Bool} {labelToNewId : PartialMap String NodeId}
    {idToLabel : PartialMap NodeId String} {e f : Edge} {k : EdgeKey} :
    moveEdge keep labelToNewId idToLabel e = some (k, f) ↔
      edgeLabelKey idToLabel e = some k ∧ keep k ∧ labelToNewId k.1 = some f.source ∧
        labelToNewId k.2.1 = some f.target ∧ f.relation = k.2.2 ∧ f.confidence = e.confidence := by
  unfold moveEdge edgeLabelKey
  cases f
  cases idToLabel e.source with
  | none => simp
  | some s =>
      cases idToLabel e.target with
      | none => simp
      | some t => grind

/-- Moving one side's edges keeps the keys that survive, with their first
confidence. -/
theorem firstBy_moveEdge (keep : EdgeKey → Bool) (labelToNewId : PartialMap String NodeId)
    (idToLabel : PartialMap NodeId String) (edges : List Edge) (k : EdgeKey) :
    firstBy (fun p => some p.1) (fun p => p.2.confidence)
        (edges.filterMap (moveEdge keep labelToNewId idToLabel)) k =
      if keep k && (labelToNewId k.1).isSome && (labelToNewId k.2.1).isSome then
        firstBy (edgeLabelKey idToLabel) Edge.confidence edges k
      else none := by
  rw [← firstBy_filterKey
    (fun k => keep k && (labelToNewId k.1).isSome && (labelToNewId k.2.1).isSome)]
  refine congrFun (firstBy_filterMap edges ?_ ?_) k
  · -- an edge that is moved asserts its key before and after
    rintro e - ⟨k, f⟩ hmove
    obtain ⟨hk, hkeep, hs, ht, -, hconf⟩ := moveEdge_eq_some_iff.mp hmove
    refine ⟨?_, hconf⟩
    rw [hk, Option.filter_some_pos]
    simp [hkeep, hs, ht]
  · -- an edge that is not moved asserts no key that survives
    intro e _ hnone
    refine Option.eq_none_iff_forall_ne_some.mpr fun k hk => ?_
    obtain ⟨hk, hsurvives⟩ := Option.filter_eq_some_iff.mp hk
    simp only [Bool.and_eq_true] at hsurvives
    obtain ⟨⟨hkeep, hs⟩, ht⟩ := hsurvives
    obtain ⟨src, hsrc⟩ := Option.isSome_iff_exists.mp hs
    obtain ⟨tgt, htgt⟩ := Option.isSome_iff_exists.mp ht
    have hmove : moveEdge keep labelToNewId idToLabel e =
        some (k, ⟨src, tgt, k.2.2, e.confidence⟩) :=
      moveEdge_eq_some_iff.mpr ⟨hk, hkeep, hsrc, htgt, rfl, rfl⟩
    rw [hnone] at hmove
    cases hmove

/-- A moved edge asserts in the merged graph the key it was moved under. -/
theorem labelKey_of_moveEdge {st : Interner} (hst : st.Valid) {merged : Graph}
    (hmerged : merged.nodes = st.nodes) {keep : EdgeKey → Bool}
    {idToLabel : PartialMap NodeId String} {e f : Edge} {k : EdgeKey}
    (h : moveEdge keep st.table idToLabel e = some (k, f)) : merged.labelKey f = some k := by
  obtain ⟨-, -, hs, ht, hr, -⟩ := moveEdge_eq_some_iff.mp h
  exact Graph.labelKey_eq_some_iff.mpr
    ⟨labelOf_of_table hst hs hmerged, labelOf_of_table hst ht hmerged, hr⟩

/-- What survives of the moved edges was moved from one side. -/
theorem exists_moveEdge_of_mem_firsts {keep : EdgeKey → Bool}
    {labelToNewId : PartialMap String NodeId} {idToLabel idToLabel' : PartialMap NodeId String}
    {edges edges' : List Edge} {p : EdgeKey × Edge}
    (hp : p ∈ firsts Prod.fst (edges.filterMap (moveEdge keep labelToNewId idToLabel) ++
      edges'.filterMap (moveEdge keep labelToNewId idToLabel'))) :
    ∃ idToLabel e, moveEdge keep labelToNewId idToLabel e = some p := by
  rcases List.mem_append.mp (mem_of_mem_firsts hp) with hp | hp
  · obtain ⟨e, -, he⟩ := List.mem_filterMap.mp hp
    exact ⟨idToLabel, e, he⟩
  · obtain ⟨e, -, he⟩ := List.mem_filterMap.mp hp
    exact ⟨idToLabel', e, he⟩

theorem exists_moveEdge_of_mem {ours theirs : Graph}
    {oursIdToLabel theirsIdToLabel : PartialMap NodeId String} {baseEdgeKeys : List EdgeKey}
    {labelToNewId : PartialMap String NodeId} {f : Edge}
    (hf : f ∈ mergeGraphEdges ours theirs oursIdToLabel theirsIdToLabel baseEdgeKeys
      labelToNewId) :
    ∃ keep idToLabel e k, moveEdge keep labelToNewId idToLabel e = some (k, f) := by
  obtain ⟨⟨k, f⟩, hp, rfl⟩ := List.mem_map.mp hf
  obtain ⟨idToLabel, e, he⟩ := exists_moveEdge_of_mem_firsts hp
  exact ⟨_, idToLabel, e, k, he⟩

/-- Read in the merged graph, moved edges assert the keys they were moved under. -/
theorem firstBy_map_snd {st : Interner} (hst : st.Valid) {merged : Graph}
    (hmerged : merged.nodes = st.nodes) {keep : EdgeKey → Bool} {moved : List (EdgeKey × Edge)}
    (hmoved : ∀ p ∈ moved, ∃ idToLabel e, moveEdge keep st.table idToLabel e = some p) :
    firstBy merged.labelKey Edge.confidence (moved.map Prod.snd) =
      firstBy (fun p => some p.1) (fun p => p.2.confidence) moved := by
  rw [← List.filterMap_eq_map]
  refine firstBy_filterMap moved ?_ fun _ _ h => by cases h
  rintro ⟨k, f⟩ hp _ ⟨⟩
  obtain ⟨idToLabel, e, he⟩ := hmoved (k, f) hp
  exact ⟨labelKey_of_moveEdge hst hmerged he, rfl⟩

/-- What the surviving edges assert: the three-way table among the keys whose
ends survive. -/
theorem firstBy_mergeGraphEdges {st : Interner} (hst : st.Valid) {merged : Graph}
    (hmerged : merged.nodes = st.nodes) {base ours theirs : Graph} (hbase : base.Distinct)
    (hours : ours.Distinct) (htheirs : theirs.Distinct) (k : EdgeKey) :
    firstBy merged.labelKey Edge.confidence (mergeGraphEdges ours theirs
        (nodeIdToLabelMap ours.nodes) (nodeIdToLabelMap theirs.nodes)
        (edgeKeySet base.edges (nodeIdToLabelMap base.nodes)) st.table) k =
      if (st.table k.1).isSome ∧ (st.table k.2.1).isSome then
        LabelledGraph.threeWayEntry (base.view.edge k) (ours.view.edge k) (theirs.view.edge k)
      else none := by
  rw [nodeIdToLabelMap_eq hbase.nodup_ids, nodeIdToLabelMap_eq hours.nodup_ids,
    nodeIdToLabelMap_eq htheirs.nodup_ids, edgeKeySet_labelOf]
  unfold mergeGraphEdges
  simp only [edgeKeySet_labelOf]
  have hview : ∀ g : Graph, firstBy (edgeLabelKey g.labelOf) Edge.confidence g.edges =
      g.view.edge := fun g => by
    rw [funext (edgeLabelKey_labelOf g)]
    rfl
  refine (congrFun (@firstBy_map_snd st hst merged hmerged
    (keeps base.labelKeys ours.labelKeys theirs.labelKeys) _ ?_) k).trans ?_
  · exact fun p => exists_moveEdge_of_mem_firsts
  · rw [firstBy_firsts, firstBy_append, PartialMap.overlay_apply, firstBy_moveEdge,
      firstBy_moveEdge, hview, hview,
      ← ite_keeps Graph.mem_labelKeys_iff Graph.mem_labelKeys_iff Graph.mem_labelKeys_iff]
    -- both sides drop a key for the same reason
    by_cases hends : (st.table k.1).isSome ∧ (st.table k.2.1).isSome
    · simp only [hends, and_self, Bool.and_true, ↓reduceIte]
      split <;> rfl
    · rw [if_neg hends]
      simp only [Bool.and_eq_true, and_assoc, hends, and_false, ↓reduceIte, Option.or_none]

/-! ## The merged graph -/

theorem merge3_wellFormed {base ours theirs g : Graph}
    (h : merge3 contentId base ours theirs = some g) : g.WellFormed := by
  obtain ⟨st, -, hst, rfl⟩ := exists_interner_of_merge3 h
  refine Graph.wellFormed_dedup_sorted hst.nodup_ids hst.nodup_labels fun f hf => ?_
  obtain ⟨keep, idToLabel, e, k, he⟩ := exists_moveEdge_of_mem hf
  obtain ⟨-, -, hs, ht, -, -⟩ := moveEdge_eq_some_iff.mp he
  exact ⟨mem_ids_of_table hst hs, mem_ids_of_table hst ht⟩

/-- Merging denotes merging what the three graphs denote. -/
theorem merge3_view {base ours theirs g : Graph}
    (h : merge3 contentId base ours theirs = some g) (hbase : base.Distinct)
    (hours : ours.Distinct) (htheirs : theirs.Distinct) :
    g.view = LabelledGraph.threeWay base.view ours.view theirs.view := by
  obtain ⟨st, hintern, hst, rfl⟩ := exists_interner_of_merge3 h
  unfold assembleMerge
  rw [Graph.view_dedup_sorted hst.nodup_ids hst.nodup_labels]
  have hnode : firstBy (fun n => some n.label) Node.location st.nodes =
      (LabelledGraph.threeWay base.view ours.view theirs.view).node := by
    rw [Interner.firstBy_location_of_internAll hintern, firstBy_label_map_toRaw,
      firstBy_preNodes hours]
    rfl
  have htable : ∀ label, (st.table label).isSome ↔
      ((LabelledGraph.threeWay base.view ours.view theirs.view).node label).isSome := by
    intro label
    rw [← hnode, hst.table_isSome_iff, firstBy_isSome_iff]
    simp [List.mem_map]
  refine LabelledGraph.eq_of_maps hnode (funext fun k => ?_)
  refine (firstBy_mergeGraphEdges hst rfl hbase hours htheirs k).trans ?_
  exact if_congr (and_congr (htable _) (htable _)) rfl rfl

/-! ## The merge table -/

/-- On both sides, or on exactly one side and not in the ancestor. -/
def Survives (inBase inOurs inTheirs : Prop) : Prop :=
  (inOurs ∧ inTheirs) ∨ ((inOurs ∧ ¬ inTheirs ∨ ¬ inOurs ∧ inTheirs) ∧ ¬ inBase)

/-- `g` keeps the labels and edge keys that the table keeps, each once, with the
attributes of `ours` where `ours` has them. -/
structure MergesByTable (base ours theirs g : Graph) : Prop where
  wellFormed : g.WellFormed
  mem_labels : ∀ label, label ∈ g.labels ↔
    Survives (label ∈ base.labels) (label ∈ ours.labels) (label ∈ theirs.labels)
  mem_labelKeys : ∀ k, k ∈ g.labelKeys ↔
    Survives (k ∈ base.labelKeys) (k ∈ ours.labelKeys) (k ∈ theirs.labelKeys) ∧
      k.1 ∈ g.labels ∧ k.2.1 ∈ g.labels
  nodup_labels : g.labels.Nodup
  nodup_labelKeys : g.labelKeys.Nodup
  node_eq : ∀ label ∈ g.labels, g.view.node label =
    if label ∈ ours.labels then ours.view.node label else theirs.view.node label
  edge_eq : ∀ k ∈ g.labelKeys, g.view.edge k =
    if k ∈ ours.labelKeys then ours.view.edge k else theirs.view.edge k

theorem survives_iff {ν : Type*} {b x y : Option ν} {inBase inOurs inTheirs : Prop}
    (hbase : inBase ↔ b.isSome) (hours : inOurs ↔ x.isSome) (htheirs : inTheirs ↔ y.isSome) :
    Survives inBase inOurs inTheirs ↔ (LabelledGraph.threeWayEntry b x y).isSome := by
  rw [LabelledGraph.threeWayEntry_isSome_iff, Survives, hbase, hours, htheirs]

theorem threeWayEntry_eq_ite {ν : Type*} {b x y : Option ν} {inOurs : Prop} [Decidable inOurs]
    (hours : inOurs ↔ x.isSome) (h : (LabelledGraph.threeWayEntry b x y).isSome) :
    LabelledGraph.threeWayEntry b x y = if inOurs then x else y := by
  rw [LabelledGraph.threeWayEntry_eq h]
  split
  next hin =>
    obtain ⟨v, hv⟩ := Option.isSome_iff_exists.mp (hours.mp hin)
    rw [hv, Option.some_or]
  next hout => rw [Option.not_isSome_iff_eq_none.mp (mt hours.mpr hout), Option.none_or]

theorem mergesByTable_of_view {base ours theirs g : Graph} (hg : g.WellFormed)
    (hview : g.view = LabelledGraph.threeWay base.view ours.view theirs.view) :
    MergesByTable base ours theirs g := by
  have hnode : ∀ label, g.view.node label = LabelledGraph.threeWayEntry (base.view.node label)
      (ours.view.node label) (theirs.view.node label) := fun label => by
    rw [hview]
    rfl
  have hedge : ∀ k, g.view.edge k = if (g.view.node k.1).isSome ∧ (g.view.node k.2.1).isSome then
      LabelledGraph.threeWayEntry (base.view.edge k) (ours.view.edge k) (theirs.view.edge k)
      else none := fun k => by
    rw [hview]
    rfl
  have hkeys : ∀ k, k ∈ g.labelKeys ↔
      (LabelledGraph.threeWayEntry (base.view.edge k) (ours.view.edge k)
        (theirs.view.edge k)).isSome ∧ k.1 ∈ g.labels ∧ k.2.1 ∈ g.labels := by
    intro k
    rw [Graph.mem_labelKeys_iff, hedge, Graph.mem_labels_iff, Graph.mem_labels_iff]
    split
    next hends => simp only [hends, and_self, and_true]
    next hends => simp only [hends, and_false, Option.isSome_none, Bool.false_eq_true]
  refine ⟨hg, fun label => ?_, fun k => ?_, hg.nodup_labels, hg.nodup_labelKeys,
    fun label hlabel => ?_, fun k hk => ?_⟩
  · rw [survives_iff Graph.mem_labels_iff Graph.mem_labels_iff Graph.mem_labels_iff, ← hnode]
    exact Graph.mem_labels_iff
  · rw [survives_iff Graph.mem_labelKeys_iff Graph.mem_labelKeys_iff Graph.mem_labelKeys_iff]
    exact hkeys k
  · rw [Graph.mem_labels_iff, hnode] at hlabel
    rw [hnode]
    exact threeWayEntry_eq_ite Graph.mem_labels_iff hlabel
  · obtain ⟨hsome, hs, ht⟩ := (hkeys k).mp hk
    rw [hedge, if_pos ⟨Graph.mem_labels_iff.mp hs, Graph.mem_labels_iff.mp ht⟩]
    exact threeWayEntry_eq_ite Graph.mem_labelKeys_iff hsome

/-- Unless more than 2^32 nodes survive, the merge returns and follows the
table. Labels and ids are distinct within each of the three graphs and unrelated across
them, and edges may dangle or repeat. -/
theorem merge3_table (contentId : String → UInt32) {base ours theirs : Graph}
    (hbase : base.Distinct) (hours : ours.Distinct) (htheirs : theirs.Distinct) :
    (2 ^ 32 < (preNodes base ours theirs).length ∧ merge3 contentId base ours theirs = none) ∨
      ∃ g, merge3 contentId base ours theirs = some g ∧ MergesByTable base ours theirs g := by
  rcases eq_none_or_exists_of_isSome_iff (merge3_isSome_iff contentId base ours theirs) with
    hnone | ⟨g, hg⟩
  · exact Or.inl hnone
  · refine Or.inr ⟨g, hg, ?_⟩
    apply mergesByTable_of_view (merge3_wellFormed hg)
    exact merge3_view hg hbase hours htheirs

/-- `ours` drops one end of the ancestor's edge, `theirs` moves it and adds an
edge to it. -/
def tableBase : Graph := { Graph.new with
  nodes := [⟨⟨1⟩, "a", "a.rs", ⟨0, 10, 1, 2⟩⟩, ⟨⟨2⟩, "bb", "a.rs", ⟨0, 10, 1, 2⟩⟩]
  edges := [⟨⟨1⟩, ⟨2⟩, "calls", .extracted⟩] }

def tableOurs : Graph := { Graph.new with
  nodes := [⟨⟨1⟩, "a", "a.rs", ⟨4, 14, 2, 3⟩⟩, ⟨⟨3⟩, "ccc", "a.rs", ⟨0, 10, 1, 2⟩⟩]
  edges := [⟨⟨1⟩, ⟨3⟩, "calls", .inferred⟩] }

def tableTheirs : Graph := { Graph.new with
  nodes := [⟨⟨7⟩, "bb", "b.rs", ⟨0, 10, 1, 2⟩⟩, ⟨⟨1⟩, "a", "a.rs", ⟨0, 10, 1, 2⟩⟩]
  edges := [⟨⟨1⟩, ⟨7⟩, "calls", .extracted⟩, ⟨⟨1⟩, ⟨1⟩, "calls", .ambiguous⟩] }

theorem merge3_table_sample : ∃ g, merge3 lengthId tableBase tableOurs tableTheirs = some g ∧
    MergesByTable tableBase tableOurs tableTheirs g :=
  (merge3_table lengthId ⟨by decide, by decide⟩ ⟨by decide, by decide⟩
    ⟨by decide, by decide⟩).resolve_left fun h => absurd h.1 (by decide)

end HabitatGraph
