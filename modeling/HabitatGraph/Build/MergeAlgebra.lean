import HabitatGraph.Build.Merge

/-! # Laws of merging without id collisions

When no two labels involved share a content id, every graph the build produces
is determined by what it denotes. Merging denotes overlaying, so the laws of
overlaying carry over: merging is associative, and merging two assembled halves
is assembling the whole whenever each half resolves its own edges.
-/

namespace HabitatGraph

open KeyedList

variable {contentId : String → UInt32}

/-- Every node carries the content id of its label. -/
def Graph.ContentAddressed (contentId : String → UInt32) (g : Graph) : Prop :=
  ∀ n ∈ g.nodes, n.id = ⟨contentId n.label⟩

theorem Graph.ContentAddressed.idOf_eq {g : Graph} (hg : g.ContentAddressed contentId)
    (hlabels : (g.nodes.map Node.label).Nodup) (label : String) :
    g.idOf label = if (g.view.node label).isSome then some ⟨contentId label⟩ else none := by
  split
  next hsome =>
    obtain ⟨n, hn, rfl⟩ := List.mem_map.mp (Graph.view_node_isSome_iff.mp hsome)
    exact (Graph.idOf_eq_some_iff hlabels).mpr ⟨n, hn, rfl, hg n hn⟩
  next hnone =>
    refine Option.eq_none_iff_forall_ne_some.mpr fun id hid => hnone ?_
    obtain ⟨n, hn, rfl, -⟩ := (Graph.idOf_eq_some_iff hlabels).mp hid
    exact Graph.view_node_isSome_iff.mpr (List.mem_map_of_mem hn)

/-- Content-addressed well-formed graphs that denote the same have the same
nodes and edges. -/
theorem Graph.ContentAddressed.eq_of_view_eq {g g' : Graph} (hg : g.ContentAddressed contentId)
    (hg' : g'.ContentAddressed contentId) (hwf : g.WellFormed) (hwf' : g'.WellFormed)
    (hview : g.view = g'.view) : g.nodes = g'.nodes ∧ g.edges = g'.edges := by
  refine Graph.eq_of_view_eq hwf hwf' hview fun label => ?_
  rw [hg.idOf_eq hwf.nodup_labels, hg'.idOf_eq hwf'.nodup_labels, hview]

theorem contentAddressed_dedup_sorted {g : Graph} (hids : (g.nodes.map Node.id).Nodup)
    (hg : g.ContentAddressed contentId) : (dedup g).sorted.ContentAddressed contentId :=
  fun n hn => hg n ((Graph.mem_dedup_sorted_nodes hids).mp hn)

/-- Labels without a shared content id are few enough to be interned. -/
theorem length_firsts_le {raws : List RawNode}
    (hinj : Set.InjOn contentId {label | label ∈ raws.map RawNode.label}) :
    (firsts RawNode.label raws).length ≤ 2 ^ 32 := by
  simpa [card_uint32] using (Interner.nodup_contentIds hinj).length_le_card

theorem assemble_contentAddressed {extractions : List Extraction} {g : Graph}
    (h : assemble contentId extractions = some g)
    (hinj : Set.InjOn contentId
      {label | label ∈ (extractions.flatMap Extraction.nodes).map RawNode.label}) :
    g.ContentAddressed contentId := by
  obtain ⟨st, hintern, hst, rfl⟩ := exists_interner_of_assemble h
  exact contentAddressed_dedup_sorted hst.nodup_ids
    (Interner.id_eq_contentId_of_internAll hintern hinj)

theorem merge_contentAddressed {a b g : Graph} (h : merge contentId a b = some g)
    (hinj : Set.InjOn contentId {label | label ∈ (a.nodes ++ b.nodes).map Node.label}) :
    g.ContentAddressed contentId := by
  obtain ⟨st, _, _, hintern, hst, -, -, rfl⟩ := exists_interner_of_merge h
  refine contentAddressed_dedup_sorted hst.nodup_ids
    (Interner.id_eq_contentId_of_internAll hintern ?_)
  rwa [List.map_map]

theorem exists_assemble {extractions : List Extraction}
    (hinj : Set.InjOn contentId
      {label | label ∈ (extractions.flatMap Extraction.nodes).map RawNode.label}) :
    ∃ g, assemble contentId extractions = some g :=
  Option.isSome_iff_exists.mp ((assemble_isSome_iff contentId extractions).mpr
    (length_firsts_le hinj))

theorem exists_merge {a b : Graph}
    (hinj : Set.InjOn contentId {label | label ∈ (a.nodes ++ b.nodes).map Node.label}) :
    ∃ g, merge contentId a b = some g := by
  refine Option.isSome_iff_exists.mp ((merge_isSome_iff contentId a b).mpr ?_)
  refine @length_firsts_le contentId _ ?_
  rwa [List.map_map]

/-! ## Associativity -/

theorem merge_schema {a b g : Graph} (h : merge contentId a b = some g) : g.schema = a.schema := by
  obtain ⟨_, _, _, -, -, -, -, rfl⟩ := exists_interner_of_merge h
  rfl

theorem merge_manifest {a b g : Graph} (h : merge contentId a b = some g) :
    g.manifest = mergeManifest a.manifest b.manifest := by
  obtain ⟨_, _, _, -, -, -, -, rfl⟩ := exists_interner_of_merge h
  rfl

theorem merge_communities {a b g : Graph} (h : merge contentId a b = some g) :
    g.communities = sortCommunities (a.communities ++ b.communities) := by
  obtain ⟨_, _, _, -, -, -, -, rfl⟩ := exists_interner_of_merge h
  rfl

theorem mergeManifest_assoc (a b c : Manifest) :
    mergeManifest (mergeManifest a b) c = mergeManifest a (mergeManifest b c) := by
  simp [mergeManifest, Option.or_assoc]

/-- Merging loses and invents no label. -/
theorem mem_labels_of_merge {a b g : Graph} (h : merge contentId a b = some g) {label : String} :
    label ∈ g.nodes.map Node.label ↔ label ∈ (a.nodes ++ b.nodes).map Node.label := by
  obtain ⟨st, _, _, hintern, hst, -, -, rfl⟩ := exists_interner_of_merge h
  rw [((Graph.dedup_sorted_nodes_perm hst.nodup_ids).map Node.label).mem_iff,
    Interner.mem_labels_of_internAll hintern, List.map_map]
  rfl

/-- Merging three graphs is the same in either grouping: nodes, edges,
communities, manifest and schema, in the same order. Each graph has distinct ids, and
labels have content ids of their own; labels may repeat, edges dangle and repeat. -/
theorem merge_assoc {a b c : Graph}
    (hinj : Set.InjOn contentId {label | label ∈ (a.nodes ++ b.nodes ++ c.nodes).map Node.label})
    (ha : (a.nodes.map Node.id).Nodup) (hb : (b.nodes.map Node.id).Nodup)
    (hc : (c.nodes.map Node.id).Nodup) :
    ∃ ab bc g, merge contentId a b = some ab ∧ merge contentId b c = some bc ∧
      merge contentId ab c = some g ∧ merge contentId a bc = some g := by
  have hsub : ∀ {p q : Graph}, (∀ label, label ∈ (p.nodes ++ q.nodes).map Node.label →
      label ∈ (a.nodes ++ b.nodes ++ c.nodes).map Node.label) →
      Set.InjOn contentId {label | label ∈ (p.nodes ++ q.nodes).map Node.label} :=
    fun h => hinj.mono h
  obtain ⟨ab, hab⟩ := exists_merge (hsub (p := a) (q := b) (by grind))
  obtain ⟨bc, hbc⟩ := exists_merge (hsub (p := b) (q := c) (by grind))
  have habLabels : ∀ label, label ∈ ab.nodes.map Node.label ↔
      label ∈ (a.nodes ++ b.nodes).map Node.label := fun _ => mem_labels_of_merge hab
  have hbcLabels : ∀ label, label ∈ bc.nodes.map Node.label ↔
      label ∈ (b.nodes ++ c.nodes).map Node.label := fun _ => mem_labels_of_merge hbc
  have habc := hsub (p := ab) (q := c) (by grind)
  have habc' := hsub (p := a) (q := bc) (by grind)
  obtain ⟨g, hg⟩ := exists_merge habc
  obtain ⟨g', hg'⟩ := exists_merge habc'
  have hview : g.view = g'.view := by
    rw [merge_view hg (merge_wellFormed hab).nodup_ids hc, merge_view hab ha hb,
      merge_view hg' ha (merge_wellFormed hbc).nodup_ids, merge_view hbc hb hc,
      LabelledGraph.overlay_assoc]
  obtain ⟨hnodes, hedges⟩ := (merge_contentAddressed hg habc).eq_of_view_eq
    (merge_contentAddressed hg' habc') (merge_wellFormed hg) (merge_wellFormed hg') hview
  have hcommunities : g.communities = g'.communities := by
    rw [merge_communities hg, merge_communities hab, merge_communities hg', merge_communities hbc,
      sortCommunities_append_left, sortCommunities_append_right, List.append_assoc]
  have hmanifest : g.manifest = g'.manifest := by
    rw [merge_manifest hg, merge_manifest hab, merge_manifest hg', merge_manifest hbc,
      mergeManifest_assoc]
  have hschema : g.schema = g'.schema := by
    rw [merge_schema hg, merge_schema hab, merge_schema hg']
  have heq : g = g' := Graph.ext hschema hnodes hedges hcommunities hmanifest
  exact ⟨ab, bc, g, hab, hbc, hg, heq ▸ hg'⟩

/-- A content id for small examples: the length of the label. -/
def lengthId (label : String) : UInt32 := UInt32.ofNat label.length

/-- Two labels, three ids for them over the three graphs, a duplicated edge and
a dangling one. -/
def tripleLeft : Graph := { Graph.new with
  nodes := [⟨⟨7⟩, "a", "a.rs", ⟨0, 10, 1, 2⟩⟩, ⟨⟨3⟩, "bb", "a.rs", ⟨0, 10, 1, 2⟩⟩]
  edges := [⟨⟨7⟩, ⟨3⟩, "calls", .inferred⟩, ⟨⟨7⟩, ⟨3⟩, "calls", .extracted⟩,
    ⟨⟨7⟩, ⟨9⟩, "calls", .extracted⟩]
  communities := [⟨⟨0⟩, "community-0", [⟨7⟩, ⟨3⟩]⟩] }

def tripleMiddle : Graph := { Graph.new with
  nodes := [⟨⟨0⟩, "bb", "b.rs", ⟨4, 9, 1, 1⟩⟩, ⟨⟨1⟩, "ccc", "b.rs", ⟨0, 3, 1, 1⟩⟩]
  communities := [⟨⟨0⟩, "community-0", [⟨0⟩]⟩] }

def tripleRight : Graph := { Graph.new with
  nodes := [⟨⟨5⟩, "a", "c.rs", ⟨0, 10, 1, 2⟩⟩, ⟨⟨6⟩, "ccc", "c.rs", ⟨0, 10, 1, 2⟩⟩]
  edges := [⟨⟨6⟩, ⟨5⟩, "calls", .ambiguous⟩] }

theorem merge_assoc_triple : ∃ ab bc g, merge lengthId tripleLeft tripleMiddle = some ab ∧
    merge lengthId tripleMiddle tripleRight = some bc ∧
    merge lengthId ab tripleRight = some g ∧ merge lengthId tripleLeft bc = some g := by
  have hinj : ∀ l ∈ (tripleLeft.nodes ++ tripleMiddle.nodes ++ tripleRight.nodes).map Node.label,
      ∀ l' ∈ (tripleLeft.nodes ++ tripleMiddle.nodes ++ tripleRight.nodes).map Node.label,
        lengthId l = lengthId l' → l = l' := by decide
  exact merge_assoc (fun l hl l' hl' heq => hinj l hl l' hl' heq)
    (by decide) (by decide) (by decide)

/-! ## Merging assembled halves -/

/-- The labels declared by a list of extractions. -/
def declaredLabels (extractions : List Extraction) : List String :=
  (extractions.flatMap Extraction.nodes).map RawNode.label

/-- Edges of `part` that `whole` can resolve, `part` can resolve alone. -/
def SelfContained (part whole : List Extraction) : Prop :=
  ∀ e ∈ part.flatMap Extraction.edges,
    e.source ∈ declaredLabels whole → e.target ∈ declaredLabels whole →
      e.source ∈ declaredLabels part ∧ e.target ∈ declaredLabels part

theorem ofExtractions_node_isSome_iff {extractions : List Extraction} {label : String} :
    ((SymbolGraph.ofExtractions extractions).node label).isSome ↔
      label ∈ declaredLabels extractions := by
  refine firstBy_isSome_iff.trans ?_
  simp only [declaredLabels, List.mem_map, Option.some.injEq]

/-- Edge assertions that resolve in the whole resolve in the part that makes them. -/
theorem SelfContained.hasEnds {part whole : List Extraction} (h : SelfContained part whole)
    {k : EdgeKey} (hends : (SymbolGraph.ofExtractions whole).HasEnds k)
    (hsome : (firstBy (fun e => some e.key) RawEdge.confidence
      (part.flatMap Extraction.edges) k).isSome) :
    (SymbolGraph.ofExtractions part).HasEnds k := by
  obtain ⟨e, he, hk⟩ := firstBy_isSome_iff.mp hsome
  obtain rfl := Option.some.inj hk
  obtain ⟨hs, ht⟩ := h e he (ofExtractions_node_isSome_iff.mp hends.1)
    (ofExtractions_node_isSome_iff.mp hends.2)
  exact ⟨ofExtractions_node_isSome_iff.mpr hs, ofExtractions_node_isSome_iff.mpr ht⟩

theorem overlay_ofExtractions {xs ys : List Extraction} (hxs : SelfContained xs (xs ++ ys))
    (hys : SelfContained ys (xs ++ ys)) :
    (SymbolGraph.ofExtractions xs).overlay (SymbolGraph.ofExtractions ys) =
      SymbolGraph.ofExtractions (xs ++ ys) := by
  have hnode : ((SymbolGraph.ofExtractions xs).overlay (SymbolGraph.ofExtractions ys)).node =
      (SymbolGraph.ofExtractions (xs ++ ys)).node := by
    unfold SymbolGraph.ofExtractions LabelledGraph.ofDeclarations LabelledGraph.overlay
    dsimp only
    rw [List.flatMap_append, firstBy_append]
  refine LabelledGraph.eq_of_maps hnode (funext fun k => ?_)
  have hedge : (SymbolGraph.ofExtractions (xs ++ ys)).edge k =
      if (SymbolGraph.ofExtractions (xs ++ ys)).HasEnds k then
        (firstBy (fun e => some e.key) RawEdge.confidence (xs.flatMap Extraction.edges) k).or
          (firstBy (fun e => some e.key) RawEdge.confidence (ys.flatMap Extraction.edges) k)
      else none := by
    refine if_congr Iff.rfl ?_ rfl
    rw [List.flatMap_append, firstBy_append]
    rfl
  have hpart : ∀ part, SelfContained part (xs ++ ys) →
      (SymbolGraph.ofExtractions (xs ++ ys)).HasEnds k →
      (SymbolGraph.ofExtractions part).edge k =
        firstBy (fun e => some e.key) RawEdge.confidence (part.flatMap Extraction.edges) k := by
    intro part hself hends
    by_cases hpartEnds : (SymbolGraph.ofExtractions part).HasEnds k
    · exact if_pos hpartEnds
    · rw [LabelledGraph.edge_eq_none_of_not_hasEnds _ hpartEnds]
      exact (Option.not_isSome_iff_eq_none.mp fun hsome =>
        hpartEnds (hself.hasEnds hends hsome)).symm
  rw [hedge]
  split
  next hends => rw [← hpart xs hxs hends, ← hpart ys hys hends]; rfl
  next hends =>
    refine Option.not_isSome_iff_eq_none.mp fun hsome => hends ?_
    have hclosed := LabelledGraph.closed _ hsome
    rwa [hnode] at hclosed

theorem assemble_fields {extractions : List Extraction} {g : Graph}
    (h : assemble contentId extractions = some g) :
    g.schema = schemaVersion ∧ g.communities = [] ∧ g.manifest = Manifest.default := by
  obtain ⟨_, -, -, rfl⟩ := exists_interner_of_assemble h
  exact ⟨rfl, rfl, rfl⟩

/-- Assembling loses and invents no label. -/
theorem mem_labels_of_assemble {extractions : List Extraction} {g : Graph}
    (h : assemble contentId extractions = some g) {label : String} :
    label ∈ g.nodes.map Node.label ↔ label ∈ declaredLabels extractions := by
  rw [← Graph.view_node_isSome_iff, assemble_view h, ofExtractions_node_isSome_iff]

/-- A graph that denotes what some extractions declare has few enough labels for
them to be assembled. -/
theorem assemble_isSome_of_view {extractions : List Extraction} {g : Graph} (hg : g.WellFormed)
    (hview : g.view = SymbolGraph.ofExtractions extractions) :
    (assemble contentId extractions).isSome := by
  rw [assemble_isSome_iff, ← List.length_map RawNode.label]
  have hsubset : (firsts RawNode.label (extractions.flatMap Extraction.nodes)).map RawNode.label ⊆
      g.labels := by
    intro label hlabel
    rw [Graph.mem_labels_iff, hview, ofExtractions_node_isSome_iff]
    exact mem_map_firsts.mp hlabel
  calc ((firsts RawNode.label (extractions.flatMap Extraction.nodes)).map RawNode.label).length
      ≤ g.labels.length :=
        (List.subperm_of_subset (nodup_map_firsts _) hsubset).length_le
    _ = ((g.nodes.map Node.id).map NodeId.get).length := by simp [Graph.labels]
    _ ≤ Fintype.card UInt32 := by
        refine (hg.nodup_ids.map ?_).length_le_card
        rintro ⟨a⟩ ⟨b⟩ h
        exact congrArg NodeId.mk h
    _ = 2 ^ 32 := card_uint32

/-- When each half resolves its own edges, merging the assembled halves is
assembling the whole: the first occurrence wins across the seam as inside. The declared
labels have content ids of their own; declarations and edges may repeat or compete. -/
theorem merge_assemble_assemble {xs ys : List Extraction}
    (hinj : Set.InjOn contentId {label | label ∈ declaredLabels (xs ++ ys)})
    (hxs : SelfContained xs (xs ++ ys)) (hys : SelfContained ys (xs ++ ys)) :
    ∃ a b g, assemble contentId xs = some a ∧ assemble contentId ys = some b ∧
      merge contentId a b = some g ∧ assemble contentId (xs ++ ys) = some g := by
  have hlabels : ∀ label, label ∈ declaredLabels (xs ++ ys) ↔
      label ∈ declaredLabels xs ∨ label ∈ declaredLabels ys := fun label => by
    simp only [declaredLabels, List.flatMap_append, List.map_append, List.mem_append]
  obtain ⟨a, ha⟩ := exists_assemble (hinj.mono fun l hl => (hlabels l).mpr (Or.inl hl))
  obtain ⟨b, hb⟩ := exists_assemble (hinj.mono fun l hl => (hlabels l).mpr (Or.inr hl))
  have hab : Set.InjOn contentId {label | label ∈ (a.nodes ++ b.nodes).map Node.label} := by
    refine hinj.mono fun label (hlabel : label ∈ (a.nodes ++ b.nodes).map Node.label) => ?_
    rw [List.map_append, List.mem_append] at hlabel
    exact (hlabels label).mpr
      (hlabel.imp (mem_labels_of_assemble ha).mp (mem_labels_of_assemble hb).mp)
  obtain ⟨m, hm⟩ := exists_merge hab
  obtain ⟨g, hg⟩ := exists_assemble hinj
  have hview : m.view = g.view := by
    rw [merge_view hm (assemble_wellFormed ha).nodup_ids (assemble_wellFormed hb).nodup_ids,
      assemble_view ha, assemble_view hb, assemble_view hg, overlay_ofExtractions hxs hys]
  obtain ⟨hnodes, hedges⟩ := (merge_contentAddressed hm hab).eq_of_view_eq
    (assemble_contentAddressed hg hinj) (merge_wellFormed hm) (assemble_wellFormed hg) hview
  obtain ⟨haSchema, haComm, haManifest⟩ := assemble_fields ha
  obtain ⟨hbSchema, hbComm, hbManifest⟩ := assemble_fields hb
  obtain ⟨hgSchema, hgComm, hgManifest⟩ := assemble_fields hg
  have hschema : m.schema = g.schema := by rw [merge_schema hm, haSchema, hgSchema]
  have hcommunities : m.communities = g.communities := by
    rw [merge_communities hm, haComm, hbComm, hgComm]
    rfl
  have hmanifest : m.manifest = g.manifest := by
    rw [merge_manifest hm, haManifest, hbManifest, hgManifest]
    rfl
  have heq : m = g := Graph.ext hschema hnodes hedges hcommunities hmanifest
  exact ⟨a, b, m, ha, hb, hm, heq ▸ hg⟩

/-- One file declares a label that the other declares again. -/
def seamLeft : List Extraction :=
  [⟨[⟨"a", "a.rs", ⟨0, 10, 1, 2⟩⟩, ⟨"bb", "a.rs", ⟨12, 20, 3, 4⟩⟩],
    [⟨"a", "bb", "calls", .inferred⟩]⟩]

def seamRight : List Extraction :=
  [⟨[⟨"bb", "b.rs", ⟨0, 10, 1, 2⟩⟩], [⟨"bb", "std", "imports", .extracted⟩]⟩]

theorem merge_assemble_assemble_seam : ∃ a b g, assemble lengthId seamLeft = some a ∧
    assemble lengthId seamRight = some b ∧ merge lengthId a b = some g ∧
    assemble lengthId (seamLeft ++ seamRight) = some g := by
  have hinj : ∀ l ∈ declaredLabels (seamLeft ++ seamRight),
      ∀ l' ∈ declaredLabels (seamLeft ++ seamRight), lengthId l = lengthId l' → l = l' := by
    decide
  refine merge_assemble_assemble (fun l hl l' hl' heq => hinj l hl l' hl' heq) ?_ ?_
  · unfold SelfContained
    decide
  · unfold SelfContained
    decide

end HabitatGraph
