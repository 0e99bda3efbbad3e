import HabitatGraph.Serve.Load

/-! # Exporting and loading again

The exporter writes the community of a node into its entry and its line into a
marker, and rewrites labels, file names and relations; the loader undoes the
first two and sorts. Loading an exported graph therefore always succeeds, and
`loadedGraph` says what it yields.
-/

namespace HabitatGraph

open StableSort

/-! ## One field -/

theorem dropPlus_toDigits (n : Nat) : dropPlus (Nat.toDigits 10 n) = Nat.toDigits 10 n := by
  unfold dropPlus
  split
  next rest heq =>
    have hplus : '+' ∈ Nat.toDigits 10 n := by simp [heq]
    have hdigit := Nat.isDigit_of_mem_toDigits (by decide) (by decide) hplus
    exact absurd hdigit (by decide)
  next => rfl

theorem parseU32_toString (n : UInt32) : parseU32 (toString n.toNat) = some n := by
  have hall : (Nat.toDigits 10 n.toNat).all Char.isDigit := List.all_eq_true.mpr fun ch hch =>
    Nat.isDigit_of_mem_toDigits (by decide) (by decide) hch
  have htext : (toString n.toNat).toList = Nat.toDigits 10 n.toNat := Nat.toList_repr
  unfold parseU32
  dsimp only
  rw [htext, dropPlus_toDigits, Nat.ofDigitChars_ten_toDigits]
  simp [Nat.toDigits_ne_nil, hall, n.toNat_lt]

/-- The line written as a marker is the line read. -/
theorem lineOf_marker (line : UInt32) : lineOf ("L" ++ toString line.toNat) = line := by
  have hstrip : stripPrefix 'L' ("L" ++ toString line.toNat) = some (toString line.toNat) := by
    simp [stripPrefix, Nat.repr_eq_ofList_toDigits]
  rw [lineOf, hstrip, Option.getD_some, parseU32_toString, Option.getD_some]

theorem asU64_uint32 (n : UInt32) :
    (JsonValue.number (.integer n.toNat)).asU64 = some n.toNat := by
  have := n.toNat_lt
  exact if_pos (by omega)

theorem toU32_uint32 (entry : String) (i : Nat) (key : String) (n : UInt32) :
    toU32 entry i key n.toNat = .ok n := by
  simp [toU32, n.toNat_lt]

theorem readU32_of_get {entry key : String} {i : Nat} {v : JsonValue} {n : UInt32}
    (h : v.get key = some (.number (.integer n.toNat))) : readU32 entry i key v = .ok n := by
  simp only [readU32, readField, h, Option.bind_some, asU64_uint32, okOrSchema]
  exact toU32_uint32 entry i key n

theorem readStr_of_get {entry key : String} {i : Nat} {v : JsonValue} {s : String}
    (h : v.get key = some (.string s)) : readField entry i key JsonValue.asStr v = .ok s := by
  rw [readField, h]
  rfl

/-! ## One entry -/

/-- A node as it comes back. -/
def loadedNode (n : Node) : Node where
  id := n.id
  label := exportedLabel n.label
  sourceFile := displaySafe n.sourceFile
  sourceLocation := ⟨0, 0, n.sourceLocation.startLine, n.sourceLocation.startLine⟩

@[simp] theorem loadedNode_id (n : Node) : (loadedNode n).id = n.id := by simp only [loadedNode]

/-- An edge as it comes back. -/
def loadedEdge (e : Edge) : Edge := { e with relation := exportedLabel e.relation }

@[simp] theorem loadedEdge_source (e : Edge) : (loadedEdge e).source = e.source := by
  simp only [loadedEdge]

@[simp] theorem loadedEdge_target (e : Edge) : (loadedEdge e).target = e.target := by
  simp only [loadedEdge]

@[simp] theorem loadedEdge_confidence (e : Edge) : (loadedEdge e).confidence = e.confidence := by
  simp only [loadedEdge]

@[simp] theorem loadedEdge_relation (e : Edge) :
    (loadedEdge e).relation = exportedLabel e.relation := by simp only [loadedEdge]

theorem readCommunity_nodeEntry (i : Nat) (community : Option UInt32) (n : Node) :
    readCommunity i (nodeEntry community n) = .ok community := by
  cases community with
  | none => rfl
  | some cid =>
      have hget : (nodeEntry (some cid) n).get "community" =
          some (.number (.integer cid.toNat)) := rfl
      simp only [readCommunity, hget, asU64_uint32, okOrSchema, ok_bind, toU32_uint32]

theorem parseNode_nodeEntry (i : Nat) (community : Option UInt32) (n : Node) :
    parseNode i (nodeEntry community n) = .ok (loadedNode n, community) := by
  have hid : readU32 "node" i "id" (nodeEntry community n) = .ok n.id.get := readU32_of_get rfl
  have hlabel : readField "node" i "label" JsonValue.asStr (nodeEntry community n) =
      .ok (exportedLabel n.label) := readStr_of_get rfl
  have hfile : readField "node" i "source_file" JsonValue.asStr (nodeEntry community n) =
      .ok (displaySafe n.sourceFile) := readStr_of_get rfl
  have hlocation : readField "node" i "source_location" JsonValue.asStr (nodeEntry community n) =
      .ok ("L" ++ toString n.sourceLocation.startLine.toNat) := readStr_of_get rfl
  unfold parseNode
  simp only [hid, hlabel, hfile, hlocation, readCommunity_nodeEntry, ok_bind, lineOf_marker]
  rfl

theorem parseConfidence_asStr (tables : UnicodeTables) (i : Nat) (c : Confidence) :
    parseConfidence tables i c.asStr = .ok c := by
  cases c <;> rfl

theorem parseEdge_linkEntry (tables : UnicodeTables) (i : Nat) (e : Edge) :
    parseEdge tables i (linkEntry e) = .ok (loadedEdge e) := by
  have hsource : readU32 "link" i "source" (linkEntry e) = .ok e.source.get := readU32_of_get rfl
  have htarget : readU32 "link" i "target" (linkEntry e) = .ok e.target.get := readU32_of_get rfl
  have hrelation : readField "link" i "relation" JsonValue.asStr (linkEntry e) =
      .ok (exportedLabel e.relation) := readStr_of_get rfl
  have hconfidence : readField "link" i "confidence" JsonValue.asStr (linkEntry e) =
      .ok e.confidence.asStr := readStr_of_get rfl
  unfold parseEdge
  simp only [hsource, htarget, hrelation, hconfidence, parseConfidence_asStr, ok_bind]
  rfl

/-! ## The document -/

/-- Entries that all parse are parsed one by one. -/
theorem mapM_zipIdx_map {α β γ ε : Type} {f : α → β} {g : α → γ} {parse : Nat → β → Except ε γ}
    (h : ∀ i x, parse i (f x) = .ok (g x)) (xs : List α) (k : Nat) :
    ((xs.map f).zipIdx k).mapM (fun entry => parse entry.2 entry.1) = .ok (xs.map g) := by
  induction xs generalizing k with
  | nil => rfl
  | cons x xs ih =>
      rw [List.map_cons, List.zipIdx_cons, List.mapM_cons, h, ih]
      rfl

theorem okOrSchema_eq_ok_iff {α : Type} {message : String} {o : Option α} {a : α} :
    okOrSchema message o = .ok a ↔ o = some a := by
  cases o <;> simp [okOrSchema]

/-- Entries that all parse are read as what they are parsed as. -/
theorem filterMap_of_mapM_zipIdx {β γ δ ε : Type} (parse : ℕ → β → Except ε γ)
    {read : β → Option δ} {f : γ → Option δ} (h : ∀ i v p, parse i v = .ok p → read v = f p)
    {xs : List β} {ys : List γ} {k : ℕ}
    (hparse : (xs.zipIdx k).mapM (fun entry => parse entry.2 entry.1) = .ok ys) :
    xs.filterMap read = ys.filterMap f := by
  induction xs generalizing ys k with
  | nil =>
      cases hparse
      rfl
  | cons x xs ih =>
      rw [List.zipIdx_cons, List.mapM_cons] at hparse
      obtain ⟨y, hy, hrest⟩ := bind_eq_ok_iff.mp hparse
      obtain ⟨rest, htail, heq⟩ := bind_eq_ok_iff.mp hrest
      cases heq
      rw [List.filterMap_cons, List.filterMap_cons, h _ _ _ hy, ih htail]

/-- The nodes as they are read, with the communities written for them. -/
def exportedMembers (g : Graph) : List (CommunityId × NodeId) :=
  memberEntries (g.nodes.map fun n => (loadedNode n, communityMap g.communities n.id))

/-- What loading an exported graph yields. -/
def loadedGraph (g : Graph) : Graph where
  schema := schemaVersion
  nodes := sortByKey Node.id (g.nodes.map loadedNode)
  edges := sortByKey Edge.key (g.edges.map loadedEdge)
  communities := groupCommunities (exportedMembers g)
  manifest := Manifest.default

theorem fromNodeLink_of_envelope {serde : SerdeJson} {tables : UnicodeTables} {g : Graph}
    {text : String} (h : serde.fromStr text = .ok (nodeLinkEnvelope g)) :
    fromNodeLink serde tables text = .ok (loadedGraph g) := by
  have hnodes : readArray "nodes" (nodeLinkEnvelope g) = .ok (g.nodes.map fun node =>
      nodeEntry (communityMap g.communities node.id) node) := rfl
  have hlinks : readArray "links" (nodeLinkEnvelope g) = .ok (g.edges.map linkEntry) := rfl
  unfold fromNodeLink
  rw [h]
  simp only [Except.mapError, ok_bind, hnodes, hlinks]
  rw [mapM_zipIdx_map fun i n => parseNode_nodeEntry i (communityMap g.communities n.id) n,
    mapM_zipIdx_map fun i e => parseEdge_linkEntry tables i e]
  simp only [ok_bind, List.map_map]
  rfl

/-! ## Communities -/

theorem mem_memberEntries {parsed : List (Node × Option UInt32)} {cid : CommunityId}
    {id : NodeId} : (cid, id) ∈ memberEntries parsed ↔
      ∃ p ∈ parsed, p.1.id = id ∧ p.2 = some cid.get := by
  simp only [memberEntries, List.mem_filterMap, Option.map_eq_some_iff, Prod.mk.injEq]
  constructor
  · rintro ⟨p, hp, raw, hraw, rfl, hid⟩
    exact ⟨p, hp, hid, hraw⟩
  · intro ⟨p, hp, hid, hraw⟩
    exact ⟨p, hp, cid.get, hraw, rfl, hid⟩

theorem memberEntries_ids_sublist (parsed : List (Node × Option UInt32)) :
    ((memberEntries parsed).map Prod.snd).Sublist (parsed.map fun p => p.1.id) := by
  induction parsed with
  | nil => exact List.Sublist.slnil
  | cons p parsed ih =>
      cases hcommunity : p.2 with
      | none => simpa [memberEntries, hcommunity] using ih.cons p.1.id
      | some cid => simpa [memberEntries, hcommunity] using ih.cons_cons p.1.id

theorem mem_exportedMembers {g : Graph} {cid : CommunityId} {id : NodeId} :
    (cid, id) ∈ exportedMembers g ↔
      id ∈ g.nodes.map Node.id ∧ communityMap g.communities id = some cid.get := by
  rw [exportedMembers, mem_memberEntries, List.mem_map]
  constructor
  · intro ⟨p, hp, hid, hcid⟩
    obtain ⟨n, hn, rfl⟩ := List.mem_map.mp hp
    dsimp only at hid hcid
    rw [loadedNode_id] at hid
    subst hid
    exact ⟨⟨n, hn, rfl⟩, hcid⟩
  · intro ⟨⟨n, hn, hid⟩, hcid⟩
    subst hid
    refine ⟨(loadedNode n, communityMap g.communities n.id), ?_, loadedNode_id n, hcid⟩
    exact List.mem_map.mpr ⟨n, hn, rfl⟩

theorem exportedMembers_ids_sublist (g : Graph) :
    ((exportedMembers g).map Prod.snd).Sublist (g.nodes.map Node.id) := by
  have hids := memberEntries_ids_sublist
    (g.nodes.map fun n => (loadedNode n, communityMap g.communities n.id))
  simp only [List.map_map, Function.comp_def, loadedNode_id] at hids
  exact hids

theorem mem_communityEntries {cs : List Community} {id : NodeId} {raw : UInt32} :
    (id, raw) ∈ cs.flatMap (fun c => c.members.map fun member => (member, c.id.get)) ↔
      ∃ c ∈ cs, id ∈ c.members ∧ c.id.get = raw := by
  simp only [List.mem_flatMap, List.mem_map, Prod.mk.injEq]
  constructor
  · rintro ⟨c, hc, member, hmember, rfl, hraw⟩
    exact ⟨c, hc, hmember, hraw⟩
  · intro ⟨c, hc, hmember, hraw⟩
    exact ⟨c, hc, id, hmember, rfl, hraw⟩

theorem communityMap_eq_some_iff {cs : List Community} {id : NodeId} {raw : UInt32}
    (hunique : ∀ c ∈ cs, ∀ d ∈ cs, id ∈ c.members → id ∈ d.members → c.id = d.id) :
    communityMap cs id = some raw ↔ ∃ c ∈ cs, id ∈ c.members ∧ c.id.get = raw := by
  rw [← mem_communityEntries]
  apply PartialMap.ofEntries_eq_some_iff_of_unique
  intro raw' hraw hraw'
  obtain ⟨c, hc, hid, rfl⟩ := mem_communityEntries.mp hraw
  obtain ⟨d, hd, hid', rfl⟩ := mem_communityEntries.mp hraw'
  rw [hunique d hd c hc hid' hid]

theorem mem_groupCommunities {entries : List (CommunityId × NodeId)} {c : Community} :
    c ∈ groupCommunities entries ↔ ∃ cid ∈ entries.map Prod.fst,
      loadedCommunity (PartialMap.grouped entries) cid = c := by
  simp only [groupCommunities, List.mem_map, SortedList.mem_sortDedup]

theorem mem_members_loadedCommunity {entries : List (CommunityId × NodeId)} {cid : CommunityId}
    {id : NodeId} : id ∈ (loadedCommunity (PartialMap.grouped entries) cid).members ↔
      (cid, id) ∈ entries := by
  rw [loadedCommunity, mem_sortByKey, PartialMap.mem_getD_grouped]

theorem mem_members_of_groupCommunities {entries : List (CommunityId × NodeId)} {c : Community}
    (hc : c ∈ groupCommunities entries) {id : NodeId} :
    id ∈ c.members ↔ (c.id, id) ∈ entries := by
  obtain ⟨cid, -, rfl⟩ := mem_groupCommunities.mp hc
  exact mem_members_loadedCommunity

/-- Communities are read in ascending order. -/
theorem pairwise_groupCommunities (entries : List (CommunityId × NodeId)) :
    (groupCommunities entries).Pairwise fun c d => c.id < d.id := by
  rw [groupCommunities, List.pairwise_map]
  exact SortedList.pairwise_sortDedup _

theorem pairwise_communities_of_fromNodeLink {serde : SerdeJson} {tables : UnicodeTables}
    {text : String} {g : Graph} (h : fromNodeLink serde tables text = .ok g) :
    g.communities.Pairwise fun c d => c.id < d.id := by
  unfold fromNodeLink at h
  obtain ⟨root, -, h⟩ := bind_eq_ok_iff.mp h
  obtain ⟨nodesArr, -, h⟩ := bind_eq_ok_iff.mp h
  obtain ⟨linksArr, -, h⟩ := bind_eq_ok_iff.mp h
  obtain ⟨parsed, -, h⟩ := bind_eq_ok_iff.mp h
  obtain ⟨edges, -, h⟩ := bind_eq_ok_iff.mp h
  cases h
  exact pairwise_groupCommunities (memberEntries parsed)

/-- Members that are listed under one community each are found there again. -/
theorem communityMap_groupCommunities {entries : List (CommunityId × NodeId)} {id : NodeId}
    (hunique : ∀ c d, (c, id) ∈ entries → (d, id) ∈ entries → c = d) {raw : UInt32} :
    communityMap (groupCommunities entries) id = some raw ↔ (⟨raw⟩, id) ∈ entries := by
  rw [communityMap_eq_some_iff]
  · constructor
    · rintro ⟨c, hc, hid, rfl⟩
      exact (mem_members_of_groupCommunities hc).mp hid
    · intro hmem
      have hkey : (⟨raw⟩ : CommunityId) ∈ entries.map Prod.fst :=
        List.mem_map_of_mem (f := Prod.fst) hmem
      have hc := mem_groupCommunities.mpr ⟨⟨raw⟩, hkey, rfl⟩
      exact ⟨_, hc, mem_members_loadedCommunity.mpr hmem, rfl⟩
  · intro c hc d hd hidc hidd
    apply hunique
    · exact (mem_members_of_groupCommunities hc).mp hidc
    · exact (mem_members_of_groupCommunities hd).mp hidd

/-- Every node is in the community that was written for it. -/
theorem communityMap_loadedGraph {g : Graph} {n : Node} (hn : n ∈ g.nodes) :
    communityMap (loadedGraph g).communities n.id = communityMap g.communities n.id := by
  apply Option.ext
  intro raw
  refine (communityMap_groupCommunities ?_).trans ?_
  · intro c d hc hd
    have hraw := (mem_exportedMembers.mp hc).2.symm.trans (mem_exportedMembers.mp hd).2
    cases c
    cases d
    cases hraw
    rfl
  · rw [mem_exportedMembers]
    exact and_iff_right (List.mem_map_of_mem hn)

/-! ## Regrouped communities -/

/-- Communities in canonical order that are disjoint sets of nodes. -/
structure Graph.Clustered (g : Graph) : Prop where
  nodup_ids : (g.nodes.map Node.id).Nodup
  sorted_communities : sortCommunities g.communities = g.communities
  community_ids : (g.communities.map Community.id).Nodup
  members_ne_nil : ∀ c ∈ g.communities, c.members ≠ []
  nodup_members : ∀ c ∈ g.communities, c.members.Nodup
  disjoint_members : g.communities.Pairwise fun c d => c.members.Disjoint d.members
  members_ids : ∀ c ∈ g.communities, ∀ m ∈ c.members, m ∈ g.nodes.map Node.id
  community_label : ∀ c ∈ g.communities, c.label = communityLabel c.id

namespace Graph.Clustered

variable {g : Graph}

theorem eq_of_mem_members (hg : g.Clustered) {c d : Community} (hc : c ∈ g.communities)
    (hd : d ∈ g.communities) {id : NodeId} (hidc : id ∈ c.members) (hidd : id ∈ d.members) :
    c = d := by
  have : Std.Symm fun c d : Community => c.members.Disjoint d.members :=
    ⟨fun _ _ h => h.symm⟩
  by_contra hne
  exact hg.disjoint_members.forall hc hd hne hidc hidd

theorem sorted_members (hg : g.Clustered) {c : Community} (hc : c ∈ g.communities) :
    sortByKey (fun m => m) c.members = c.members := by
  have hmap : g.communities.map Community.sorted = g.communities.map id := by
    rw [List.map_id, ← hg.sorted_communities]
    exact map_sorted_sortCommunities g.communities
  exact congrArg Community.members (List.map_inj_left.mp hmap c hc)

theorem pairwise_communities (hg : g.Clustered) :
    g.communities.Pairwise fun c d => c.id < d.id := by
  apply pairwise_lt_of_nodup _ hg.community_ids
  rw [← hg.sorted_communities, sortCommunities_eq]
  exact pairwise_sortByKey _

theorem communityMap_iff (hg : g.Clustered) {id : NodeId} {raw : UInt32} :
    communityMap g.communities id = some raw ↔
      ∃ c ∈ g.communities, id ∈ c.members ∧ c.id.get = raw := by
  apply communityMap_eq_some_iff
  intro c hc d hd hidc hidd
  rw [hg.eq_of_mem_members hc hd hidc hidd]

/-- A member is written with the community that holds it. -/
theorem mem_exportedMembers_iff (hg : g.Clustered) {c : Community} (hc : c ∈ g.communities)
    {id : NodeId} : (c.id, id) ∈ exportedMembers g ↔ id ∈ c.members := by
  rw [mem_exportedMembers, hg.communityMap_iff]
  constructor
  · rintro ⟨-, d, hd, hid, hget⟩
    have hids : d.id = c.id := congrArg CommunityId.mk hget
    rwa [← KeyedList.eq_of_mem_of_key_eq hg.community_ids hd hc hids]
  · intro hid
    exact ⟨hg.members_ids c hc id hid, c, hc, hid, rfl⟩

theorem grouped_perm (hg : g.Clustered) {c : Community} (hc : c ∈ g.communities) :
    ((PartialMap.grouped (exportedMembers g) c.id).getD []).Perm c.members := by
  apply (List.perm_ext_iff_of_nodup _ (hg.nodup_members c hc)).mpr
  · intro id
    rw [PartialMap.mem_getD_grouped, hg.mem_exportedMembers_iff hc]
  · rw [PartialMap.getD_grouped]
    have hnodup := hg.nodup_ids.sublist (exportedMembers_ids_sublist g)
    exact hnodup.sublist (List.filter_sublist.map Prod.snd)

theorem loadedCommunity_eq (hg : g.Clustered) {c : Community} (hc : c ∈ g.communities) :
    loadedCommunity (PartialMap.grouped (exportedMembers g)) c.id = c := by
  have hmembers : sortByKey (fun m => m)
      ((PartialMap.grouped (exportedMembers g) c.id).getD []) = sortByKey (fun m => m) c.members :=
    sortByKey_eq_of_perm (hg.grouped_perm hc) fun x _ y _ h => h
  rw [loadedCommunity, hmembers, hg.sorted_members hc, ← hg.community_label c hc]

/-- The communities are regrouped from what is written for their members. -/
theorem groupCommunities_eq (hg : g.Clustered) :
    groupCommunities (exportedMembers g) = g.communities := by
  apply eq_of_pairwise_lt_of_mem_iff _ hg.pairwise_communities
  · intro c
    rw [mem_groupCommunities]
    constructor
    · rintro ⟨cid, hcid, rfl⟩
      obtain ⟨⟨cid, id⟩, hentry, rfl⟩ := List.mem_map.mp hcid
      obtain ⟨c, hc, -, hget⟩ := hg.communityMap_iff.mp (mem_exportedMembers.mp hentry).2
      have hcid : c.id = cid := congrArg CommunityId.mk hget
      rwa [← hcid, hg.loadedCommunity_eq hc]
    · intro hc
      refine ⟨c.id, ?_, hg.loadedCommunity_eq hc⟩
      obtain ⟨id, hid⟩ := List.exists_mem_of_ne_nil _ (hg.members_ne_nil c hc)
      exact List.mem_map_of_mem (f := Prod.fst) ((hg.mem_exportedMembers_iff hc).mpr hid)
  · exact pairwise_groupCommunities _

end Graph.Clustered

/-! ## Graphs recorded without loss -/

/-- A canonical graph of plain texts whose communities are disjoint sets of its
nodes. -/
structure Graph.Exportable (g : Graph) : Prop where
  sorted : g.sorted = g
  nodup_ids : (g.nodes.map Node.id).Nodup
  community_ids : (g.communities.map Community.id).Nodup
  members_ne_nil : ∀ c ∈ g.communities, c.members ≠ []
  nodup_members : ∀ c ∈ g.communities, c.members.Nodup
  disjoint_members : g.communities.Pairwise fun c d => c.members.Disjoint d.members
  members_ids : ∀ c ∈ g.communities, ∀ m ∈ c.members, m ∈ g.nodes.map Node.id
  community_label : ∀ c ∈ g.communities, c.label = communityLabel c.id
  plain_nodes : ∀ n ∈ g.nodes,
    RenderSafe n.label ∧ n.label.length ≤ maxLabelLen ∧ RenderSafe n.sourceFile
  plain_edges : ∀ e ∈ g.edges, RenderSafe e.relation ∧ e.relation.length ≤ maxLabelLen

/-- What the node-link form holds of a node. -/
def Node.recorded (n : Node) : NodeId × String × String × UInt32 :=
  (n.id, n.label, n.sourceFile, n.sourceLocation.startLine)

namespace Graph.Exportable

variable {g : Graph}

theorem clustered (hg : g.Exportable) : g.Clustered where
  nodup_ids := hg.nodup_ids
  sorted_communities := congrArg Graph.communities hg.sorted
  community_ids := hg.community_ids
  members_ne_nil := hg.members_ne_nil
  nodup_members := hg.nodup_members
  disjoint_members := hg.disjoint_members
  members_ids := hg.members_ids
  community_label := hg.community_label

theorem loadedEdges_eq (hg : g.Exportable) : (loadedGraph g).edges = g.edges := by
  have hplain : g.edges.map loadedEdge = g.edges.map id := by
    apply List.map_congr_left
    intro e he
    obtain ⟨hsafe, hlength⟩ := hg.plain_edges e he
    rw [loadedEdge, (exportedLabel_eq_self_iff hsafe).mpr hlength]
    rfl
  change sortByKey Edge.key (g.edges.map loadedEdge) = g.edges
  rw [hplain, List.map_id]
  exact congrArg Graph.edges hg.sorted

theorem recorded_loadedNode (hg : g.Exportable) {n : Node} (hn : n ∈ g.nodes) :
    (loadedNode n).recorded = n.recorded := by
  obtain ⟨hlabel, hlength, hfile⟩ := hg.plain_nodes n hn
  rw [loadedNode, Node.recorded, (exportedLabel_eq_self_iff hlabel).mpr hlength,
    displaySafe_eq_self hfile]
  rfl

theorem recorded_loadedNodes (hg : g.Exportable) :
    (loadedGraph g).nodes.map Node.recorded = g.nodes.map Node.recorded := by
  have hnodes : sortByKey Node.id g.nodes = g.nodes := congrArg Graph.nodes hg.sorted
  change (sortByKey Node.id (g.nodes.map loadedNode)).map Node.recorded = _
  rw [sortByKey_map loadedNode loadedNode_id, hnodes, List.map_map]
  exact List.map_congr_left fun n hn => hg.recorded_loadedNode hn

end Graph.Exportable

/-- What an exported graph holds is recovered by loading it: its nodes as far as the
export records them, its edges and its communities. The graph is canonical, of plain
texts and with disjoint communities, and the library round trips its document. -/
theorem fromNodeLink_toNodeLink (serde : SerdeJson) (tables : UnicodeTables) {g : Graph}
    (hg : g.Exportable) (hserde : serde.RoundTrips (nodeLinkEnvelope g)) :
    ∃ text loaded, serde.toNodeLink g = .ok text ∧ fromNodeLink serde tables text = .ok loaded ∧
      loaded.nodes.map Node.recorded = g.nodes.map Node.recorded ∧ loaded.edges = g.edges ∧
      loaded.communities = g.communities := by
  obtain ⟨text, hprint, hparse⟩ := hserde
  refine ⟨text, loadedGraph g, ?_, fromNodeLink_of_envelope hparse, ?_⟩
  · rw [SerdeJson.toNodeLink, hprint]
    rfl
  · exact ⟨hg.recorded_loadedNodes, hg.loadedEdges_eq, hg.clustered.groupCommunities_eq⟩

/-- A JSON library that parses the texts of `values`. -/
def SerdeJson.knowing (values : List JsonValue) : SerdeJson where
  toStringPretty value := .ok (String.ofList (value.pretty []))
  fromStr text := match values.find? fun value => String.ofList (value.pretty []) = text with
    | some value => .ok value
    | none => .error "expected value at line 1 column 1"

theorem SerdeJson.knowing_roundTrips {values : List JsonValue} {value : JsonValue}
    (h : values.find? (fun v => String.ofList (v.pretty []) = String.ofList (value.pretty [])) =
      some value) : (SerdeJson.knowing values).RoundTrips value := by
  refine ⟨_, rfl, ?_⟩
  simp only [knowing, h]

/-- A caller in a community of its own. -/
def callerGraph : Graph := { Graph.new with
  nodes := [⟨⟨1⟩, "parse", "a.rs", ⟨0, 10, 7, 9⟩⟩, ⟨⟨2⟩, "Lexer", "a.rs", ⟨12, 20, 30, 40⟩⟩]
  edges := [⟨⟨2⟩, ⟨1⟩, "calls", .inferred⟩]
  communities := [⟨⟨4⟩, "community-4", [⟨2⟩]⟩] }

theorem exportable_callerGraph : callerGraph.Exportable where
  sorted := by decide
  nodup_ids := by decide
  community_ids := by decide
  members_ne_nil := by decide
  nodup_members := by decide
  disjoint_members := by simp [callerGraph]
  members_ids := by decide
  community_label := by decide
  plain_nodes := by decide
  plain_edges := by decide

theorem fromNodeLink_toNodeLink_caller :
    ∃ text loaded, (SerdeJson.knowing [nodeLinkEnvelope callerGraph]).toNodeLink callerGraph =
        .ok text ∧
      fromNodeLink (SerdeJson.knowing [nodeLinkEnvelope callerGraph]) asciiTables text =
        .ok loaded ∧
      loaded.nodes.map Node.recorded = callerGraph.nodes.map Node.recorded ∧
      loaded.edges = callerGraph.edges ∧ loaded.communities = callerGraph.communities :=
  fromNodeLink_toNodeLink (SerdeJson.knowing [nodeLinkEnvelope callerGraph]) asciiTables
    exportable_callerGraph (SerdeJson.knowing_roundTrips (by simp))

end HabitatGraph
