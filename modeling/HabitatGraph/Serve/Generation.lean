import HabitatGraph.Foundation.SelfDelimiting
import HabitatGraph.Source.Manifest

/-! # The generation id

A generation id is the short hash of a byte stream written from the sorted
nodes, edges and communities of a graph, every section and record behind its tag
and every variable-length field behind its length. The schema and the manifest
are not part of the stream.
-/

namespace HabitatGraph

open SelfDelimiting StableSort

def generationLen : Nat := 16

def tagNodes : Bytes := asBytes "NODES\x00"

def tagEdges : Bytes := asBytes "EDGES\x00"

def tagComms : Bytes := asBytes "COMMS\x00"

def tagNode : Bytes := asBytes "N\x00"

def tagEdge : Bytes := asBytes "E\x00"

def tagComm : Bytes := asBytes "C\x00"

/-- A fixed byte for every confidence. -/
def confidenceOrd : Confidence → UInt8
  | .extracted => 0
  | .inferred => 1
  | .ambiguous => 2

def u32Le (n : UInt32) : Bytes := leBytes 4 n.toNat

/-- A string behind its length in bytes. -/
def hashStr (s : String) : Bytes := framed 8 (asBytes s)

def hashNode (node : Node) : Bytes :=
  tagNode ++ (u32Le node.id.get ++ (hashStr node.label ++ (hashStr node.sourceFile ++
    (u32Le node.sourceLocation.startByte ++ (u32Le node.sourceLocation.endByte ++
      (u32Le node.sourceLocation.startLine ++ u32Le node.sourceLocation.endLine))))))

def hashEdge (edge : Edge) : Bytes :=
  tagEdge ++ (u32Le edge.source.get ++ (u32Le edge.target.get ++ (hashStr edge.relation ++
    [confidenceOrd edge.confidence])))

def hashCommunity (comm : Community) : Bytes :=
  tagComm ++ (u32Le comm.id.get ++ (hashStr comm.label ++
    counted 8 (fun m => u32Le m.get) (sortByKey (fun m => m) comm.members)))

/-- What edges are sorted by before hashing. -/
def edgeOrder (edge : Edge) : NodeId ×ₗ NodeId ×ₗ String ×ₗ Nat :=
  toLex (edge.source, toLex (edge.target, toLex (edge.relation,
    (confidenceOrd edge.confidence).toNat)))

/-- The bytes fed to the hasher. -/
def generationStream (graph : Graph) : Bytes :=
  tagNodes ++ (counted 8 hashNode (sortByKey Node.id graph.nodes) ++
    (tagEdges ++ (counted 8 hashEdge (sortByKey edgeOrder graph.edges) ++
      (tagComms ++ counted 8 hashCommunity (sortByKey Community.id graph.communities)))))

/-- The first hex digits of the digest of a graph. -/
def generationId (blake3Hex : Bytes → String) (graph : Graph) : String :=
  String.ofList ((blake3Hex (generationStream graph)).toList.take generationLen)

/-! ## Records determine their fields -/

/-- A length that a `u64` can hold. -/
def FitsU64 (n : Nat) : Prop := n < 2 ^ 64

theorem selfDelimiting_u32Le : SelfDelimitingOn Set.univ u32Le := by
  intro a _ b _ rest rest' heq
  have ha := a.toNat_lt
  have hb := b.toNat_lt
  obtain ⟨hn, hrest⟩ := selfDelimitingOn_leBytes 4 (by simp only [Set.mem_ofPred_eq]; omega)
    (by simp only [Set.mem_ofPred_eq]; omega) heq
  exact ⟨UInt32.toNat_inj.mp hn, hrest⟩

theorem selfDelimiting_hashStr :
    SelfDelimitingOn {s | FitsU64 (asBytes s).length} hashStr := by
  intro a ha b hb rest rest' heq
  obtain ⟨hbytes, hrest⟩ := selfDelimitingOn_framed 8 ha hb heq
  exact ⟨asBytes_injective hbytes, hrest⟩

theorem u32Le_append_inj {a b : UInt32} {rest rest' : Bytes}
    (heq : u32Le a ++ rest = u32Le b ++ rest') : a = b ∧ rest = rest' :=
  selfDelimiting_u32Le trivial trivial heq

theorem confidenceOrd_injective : Function.Injective confidenceOrd := by
  intro a b heq
  cases a <;> cases b <;> simp_all [confidenceOrd]

/-- The strings of a node are not longer than a `u64` counts. -/
def Node.Fits (node : Node) : Prop :=
  FitsU64 (asBytes node.label).length ∧ FitsU64 (asBytes node.sourceFile).length

def Edge.Fits (edge : Edge) : Prop := FitsU64 (asBytes edge.relation).length

def Community.Fits (comm : Community) : Prop :=
  FitsU64 (asBytes comm.label).length ∧ FitsU64 comm.members.length

theorem selfDelimiting_hashNode : SelfDelimitingOn {node | node.Fits} hashNode := by
  intro a ha b hb rest rest' heq
  simp only [hashNode, List.append_assoc] at heq
  have hid := u32Le_append_inj (List.append_cancel_left heq)
  have hlabel := selfDelimiting_hashStr ha.1 hb.1 hid.2
  have hfile := selfDelimiting_hashStr ha.2 hb.2 hlabel.2
  have hstartByte := u32Le_append_inj hfile.2
  have hendByte := u32Le_append_inj hstartByte.2
  have hstartLine := u32Le_append_inj hendByte.2
  have hendLine := u32Le_append_inj hstartLine.2
  refine ⟨?_, hendLine.2⟩
  obtain ⟨⟨aId⟩, aLabel, aFile, ⟨_, _, _, _⟩⟩ := a
  obtain ⟨⟨bId⟩, bLabel, bFile, ⟨_, _, _, _⟩⟩ := b
  simp_all

theorem selfDelimiting_hashEdge : SelfDelimitingOn {edge | edge.Fits} hashEdge := by
  intro a ha b hb rest rest' heq
  simp only [hashEdge, List.append_assoc] at heq
  have hsource := u32Le_append_inj (List.append_cancel_left heq)
  have htarget := u32Le_append_inj hsource.2
  have hrelation := selfDelimiting_hashStr ha hb htarget.2
  obtain ⟨hconfidence, hrest⟩ := List.cons_eq_cons.mp hrelation.2
  have hconfidence := confidenceOrd_injective hconfidence
  refine ⟨?_, hrest⟩
  obtain ⟨⟨aSource⟩, ⟨aTarget⟩, aRelation, aConfidence⟩ := a
  obtain ⟨⟨bSource⟩, ⟨bTarget⟩, bRelation, bConfidence⟩ := b
  simp_all

theorem selfDelimiting_member :
    SelfDelimitingOn Set.univ fun m : NodeId => u32Le m.get := by
  intro a _ b _ rest rest' heq
  obtain ⟨hget, hrest⟩ := u32Le_append_inj heq
  cases a
  cases b
  exact ⟨congrArg NodeId.mk hget, hrest⟩

/-- Communities are hashed as if their members were sorted. -/
theorem hashCommunity_sorted (comm : Community) :
    hashCommunity comm.sorted = hashCommunity comm := by
  unfold hashCommunity Community.sorted
  dsimp only
  rw [sortByKey_eq_self (pairwise_sortByKey _)]

theorem selfDelimiting_hashCommunity :
    SelfDelimitingOn {comm | comm.Fits ∧ comm.sorted = comm} hashCommunity := by
  intro a ha b hb rest rest' heq
  obtain ⟨⟨haLabel, haMembers⟩, haSorted⟩ := ha
  obtain ⟨⟨hbLabel, hbMembers⟩, hbSorted⟩ := hb
  have haLength : (sortByKey (fun m => m) a.members).length < 256 ^ 8 := by
    rw [(sortByKey_perm a.members).length_eq]
    exact haMembers
  have hbLength : (sortByKey (fun m => m) b.members).length < 256 ^ 8 := by
    rw [(sortByKey_perm b.members).length_eq]
    exact hbMembers
  simp only [hashCommunity, List.append_assoc] at heq
  have hid := u32Le_append_inj (List.append_cancel_left heq)
  have hlabel := selfDelimiting_hashStr haLabel hbLabel hid.2
  have hmembers := selfDelimiting_member.counted 8 ⟨haLength, fun _ _ => trivial⟩
    ⟨hbLength, fun _ _ => trivial⟩ hlabel.2
  refine ⟨?_, hmembers.2⟩
  rw [← haSorted, ← hbSorted]
  obtain ⟨⟨aId⟩, aLabel, aMembers⟩ := a
  obtain ⟨⟨bId⟩, bLabel, bMembers⟩ := b
  simp_all [Community.sorted]

/-! ## The stream determines the sorted sections -/

/-- Collections and strings are not longer than a `u64` counts. -/
structure Graph.Fits (graph : Graph) : Prop where
  nodes : FitsU64 graph.nodes.length
  edges : FitsU64 graph.edges.length
  communities : FitsU64 graph.communities.length
  node : ∀ node ∈ graph.nodes, node.Fits
  edge : ∀ edge ∈ graph.edges, edge.Fits
  community : ∀ comm ∈ graph.communities, comm.Fits

theorem counted_sortByKey_mem {α κ : Type} [LinearOrder κ] {key : α → κ} {xs : List α}
    {P : α → Prop} (hlength : FitsU64 xs.length) (hxs : ∀ x ∈ xs, P x) :
    sortByKey key xs ∈ {ys : List α | ys.length < 256 ^ 8 ∧ ∀ y ∈ ys, y ∈ {x | P x}} := by
  refine ⟨?_, ?_⟩
  · rw [(sortByKey_perm xs).length_eq]
    exact hlength
  · intro x hx
    exact hxs x (mem_sortByKey.mp hx)

theorem counted_hashCommunity (comms : List Community) :
    counted 8 hashCommunity (sortByKey Community.id comms) =
      counted 8 hashCommunity (sortCommunities comms) := by
  simp [counted, sortCommunities, List.flatMap_map, hashCommunity_sorted]

theorem sortCommunities_mem {comms : List Community} (hlength : FitsU64 comms.length)
    (hcomms : ∀ comm ∈ comms, comm.Fits) :
    sortCommunities comms ∈ {cs : List Community | cs.length < 256 ^ 8 ∧
      ∀ comm ∈ cs, comm ∈ {comm | comm.Fits ∧ comm.sorted = comm}} := by
  refine ⟨?_, ?_⟩
  · rw [sortCommunities, List.length_map, (sortByKey_perm comms).length_eq]
    exact hlength
  · intro comm hcomm
    obtain ⟨comm, hmem, rfl⟩ := List.mem_map.mp hcomm
    obtain ⟨hlabel, hmembers⟩ := hcomms comm (mem_sortByKey.mp hmem)
    refine ⟨⟨hlabel, ?_⟩, comm.sorted_sorted⟩
    rw [Community.sorted, (sortByKey_perm comm.members).length_eq]
    exact hmembers

theorem generationStream_eq_iff {graph graph' : Graph} (hfits : graph.Fits)
    (hfits' : graph'.Fits) : generationStream graph = generationStream graph' ↔
      sortByKey Node.id graph.nodes = sortByKey Node.id graph'.nodes ∧
      sortByKey edgeOrder graph.edges = sortByKey edgeOrder graph'.edges ∧
      sortCommunities graph.communities = sortCommunities graph'.communities := by
  constructor
  · intro heq
    simp only [generationStream, counted_hashCommunity] at heq
    have hnodes := selfDelimiting_hashNode.counted 8
      (counted_sortByKey_mem hfits.nodes hfits.node)
      (counted_sortByKey_mem hfits'.nodes hfits'.node) (List.append_cancel_left heq)
    have hedges := selfDelimiting_hashEdge.counted 8
      (counted_sortByKey_mem hfits.edges hfits.edge)
      (counted_sortByKey_mem hfits'.edges hfits'.edge) (List.append_cancel_left hnodes.2)
    have hcomms := (selfDelimiting_hashCommunity.counted 8).injOn
      (sortCommunities_mem hfits.communities hfits.community)
      (sortCommunities_mem hfits'.communities hfits'.community)
      (List.append_cancel_left hedges.2)
    exact ⟨hnodes.1, hedges.1, hcomms⟩
  · intro ⟨hnodes, hedges, hcomms⟩
    rw [generationStream, generationStream, counted_hashCommunity, counted_hashCommunity,
      hnodes, hedges, hcomms]

/-! ## Equal up to reordering -/

/-- Two communities differ in the order of their members only. -/
structure SameCommunity (comm comm' : Community) : Prop where
  id : comm.id = comm'.id
  label : comm.label = comm'.label
  members : comm.members.Perm comm'.members

/-- The nodes, edges and communities of two graphs are the same up to their order
and that of the members. -/
structure SameSections (graph graph' : Graph) : Prop where
  nodes : graph.nodes.Perm graph'.nodes
  edges : graph.edges.Perm graph'.edges
  communities : ∃ comms comms', graph.communities.Perm comms ∧
    List.Forall₂ SameCommunity comms comms' ∧ comms'.Perm graph'.communities

theorem sortedMembers_eq_iff {members members' : List NodeId} :
    sortByKey (fun m => m) members = sortByKey (fun m => m) members' ↔ members.Perm members' := by
  constructor
  · intro heq
    exact (sortByKey_perm members).symm.trans (heq ▸ sortByKey_perm members')
  · intro hperm
    exact sortByKey_eq_of_perm hperm fun _ _ _ _ h => h

theorem sameCommunity_iff {comm comm' : Community} :
    SameCommunity comm comm' ↔ comm.sorted = comm'.sorted := by
  cases comm
  cases comm'
  simp only [Community.sorted, Community.mk.injEq, sortedMembers_eq_iff]
  constructor
  · exact fun h => ⟨h.id, h.label, h.members⟩
  · exact fun h => ⟨h.1, h.2.1, h.2.2⟩

theorem forall₂_sameCommunity_iff {comms comms' : List Community} :
    List.Forall₂ SameCommunity comms comms' ↔
      comms.map Community.sorted = comms'.map Community.sorted := by
  induction comms generalizing comms' with
  | nil => simp [eq_comm]
  | cons comm comms ih =>
      cases comms' with
      | nil => simp
      | cons comm' comms' => simp [ih, sameCommunity_iff]

theorem edgeOrder_injective : Function.Injective edgeOrder := by
  intro a b heq
  obtain ⟨aSource, aTarget, aRelation, aConfidence⟩ := a
  obtain ⟨bSource, bTarget, bRelation, bConfidence⟩ := b
  simp only [edgeOrder, EmbeddingLike.apply_eq_iff_eq, Prod.mk.injEq, UInt8.toNat_inj] at heq
  obtain ⟨rfl, rfl, rfl, hconfidence⟩ := heq
  rw [confidenceOrd_injective hconfidence]

theorem sortedEdges_eq_iff {edges edges' : List Edge} :
    sortByKey edgeOrder edges = sortByKey edgeOrder edges' ↔ edges.Perm edges' := by
  constructor
  · intro heq
    exact (sortByKey_perm edges).symm.trans (heq ▸ sortByKey_perm edges')
  · intro hperm
    exact sortByKey_eq_of_perm hperm fun _ _ _ _ h => edgeOrder_injective h

theorem sortedNodes_eq_iff {nodes nodes' : List Node} (hdistinct : (nodes.map Node.id).Nodup) :
    sortByKey Node.id nodes = sortByKey Node.id nodes' ↔ nodes.Perm nodes' := by
  constructor
  · intro heq
    exact (sortByKey_perm nodes).symm.trans (heq ▸ sortByKey_perm nodes')
  · intro hperm
    exact sortByKey_eq_of_perm hperm fun _ hx _ hy h =>
      KeyedList.eq_of_mem_of_key_eq hdistinct hx hy h

theorem sortCommunities_eq_iff {comms comms' : List Community}
    (hdistinct : (comms.map Community.id).Nodup) :
    sortCommunities comms = sortCommunities comms' ↔
      ∃ ds ds', comms.Perm ds ∧ List.Forall₂ SameCommunity ds ds' ∧ ds'.Perm comms' := by
  constructor
  · intro heq
    refine ⟨sortByKey Community.id comms, sortByKey Community.id comms',
      (sortByKey_perm comms).symm, ?_, sortByKey_perm comms'⟩
    exact forall₂_sameCommunity_iff.mpr heq
  · intro ⟨ds, ds', hds, hsame, hds'⟩
    rw [forall₂_sameCommunity_iff] at hsame
    rw [sortCommunities_eq, sortCommunities_eq]
    have hperm : (comms.map Community.sorted).Perm (comms'.map Community.sorted) :=
      (hds.map Community.sorted).trans (hsame ▸ hds'.map Community.sorted)
    have hids : ((comms.map Community.sorted).map Community.id).Nodup := by
      simpa [Function.comp_def] using hdistinct
    exact sortByKey_eq_of_perm hperm fun _ hx _ hy h =>
      KeyedList.eq_of_mem_of_key_eq hids hx hy h

/-- With distinct ids the hashed bytes are equal exactly when the nodes, edges and
communities are, up to reordering, the members of a community included. Nothing is asked
of the edges; all lengths fit their prefixes. -/
theorem generationStream_canonical {graph graph' : Graph} (hfits : graph.Fits)
    (hfits' : graph'.Fits) (hnodes : (graph.nodes.map Node.id).Nodup)
    (hcomms : (graph.communities.map Community.id).Nodup) :
    generationStream graph = generationStream graph' ↔ SameSections graph graph' := by
  rw [generationStream_eq_iff hfits hfits', sortedNodes_eq_iff hnodes, sortedEdges_eq_iff,
    sortCommunities_eq_iff hcomms]
  constructor
  · exact fun h => ⟨h.1, h.2.1, h.2.2⟩
  · exact fun h => ⟨h.nodes, h.edges, h.communities⟩

/-- Three nodes in two communities, in some order of nodes, edges, communities and members,
under a schema. -/
def hashedGraph (schema : String) (order : ∀ {α : Type}, List α → List α) : Graph where
  schema := schema
  nodes := order [⟨⟨1⟩, "a", "a.rs", ⟨0, 1, 1, 1⟩⟩, ⟨⟨2⟩, "b", "b.rs", ⟨0, 1, 1, 1⟩⟩,
    ⟨⟨3⟩, "c", "b.rs", ⟨2, 3, 1, 1⟩⟩]
  edges := order [⟨⟨1⟩, ⟨2⟩, "calls", .extracted⟩, ⟨⟨2⟩, ⟨3⟩, "uses", .inferred⟩]
  communities := order [⟨⟨0⟩, "community-0", order [⟨1⟩, ⟨2⟩]⟩, ⟨⟨1⟩, "community-1", [⟨3⟩]⟩]
  manifest := Manifest.default

theorem hashedGraph_fits (schema : String) : (hashedGraph schema id).Fits := by
  constructor <;> simp [hashedGraph, FitsU64, Node.Fits, Edge.Fits, Community.Fits] <;> decide

theorem hashedGraph_fits_reverse (schema : String) :
    (hashedGraph schema List.reverse).Fits := by
  constructor <;> simp [hashedGraph, FitsU64, Node.Fits, Edge.Fits, Community.Fits] <;> decide

theorem generationStream_canonical_hashedGraph :
    generationStream (hashedGraph "v0" id) = generationStream (hashedGraph "v0" List.reverse) := by
  refine (generationStream_canonical (hashedGraph_fits "v0") (hashedGraph_fits_reverse "v0")
    (by decide) (by decide)).mpr ⟨by decide, by decide, (hashedGraph "v0" id).communities,
      [⟨⟨0⟩, "community-0", [⟨2⟩, ⟨1⟩]⟩, ⟨⟨1⟩, "community-1", [⟨3⟩]⟩], List.Perm.refl _, ?_, ?_⟩
  · exact .cons ⟨rfl, rfl, by decide⟩ (.cons ⟨rfl, rfl, List.Perm.refl _⟩ .nil)
  · exact List.Perm.swap _ _ []

/-- Graphs that differ in their schema only are hashed alike. -/
theorem generationStream_ignores_schema :
    ¬ ∀ graph graph' : Graph, graph.Fits → graph'.Fits →
      (graph.nodes.map Node.id).Nodup → (graph'.nodes.map Node.id).Nodup →
      (graph.communities.map Community.id).Nodup → (graph'.communities.map Community.id).Nodup →
      (generationStream graph = generationStream graph' ↔
        graph.schema = graph'.schema ∧ graph.manifest = graph'.manifest ∧
          SameSections graph graph') := by
  intro hcanonical
  have heq := (hcanonical (hashedGraph "v0" id) (hashedGraph "v1" id) (hashedGraph_fits "v0")
    (hashedGraph_fits "v1") (by decide) (by decide) (by decide) (by decide)).mp rfl
  exact absurd heq.1 (by decide)

end HabitatGraph
