import HabitatGraph.Export.Obsidian
import HabitatGraph.Foundation.InlineLinks

/-! # Wiki export

The wiki has an article for each node and an index. An article links the nodes its edges
lead to and come from; the index links every article. Files are named by the ids of the
nodes, so that what a link leads to does not depend on a label.
-/

namespace HabitatGraph

open PartialMap StableSort InlineLinks

def nodeFilename (id : NodeId) : String := "node-" ++ toString id.get.toNat ++ ".md"

/-- A label as the text of a link. -/
def mdLinkText (label : String) : String :=
  String.ofList ((displaySafe label).toList.flatMap fun ch =>
    if ch = '[' then ['\\', '['] else if ch = ']' then ['\\', ']'] else [ch])

/-- The edges whose ends are both nodes of the graph. -/
def presentEdges (graph : Graph) : List Edge :=
  graph.edges.filter fun e =>
    (collectLabels graph e.source).isSome && (collectLabels graph e.target).isSome

/-- The edges that leave each node, by relation and then by target. -/
def outboundMap (graph : Graph) : PartialMap NodeId (List (String × NodeId)) := fun id =>
  (grouped ((presentEdges graph).map fun e => (e.source, e.relation, e.target)) id).map
    (sortByKey fun entry => toLex (entry.1, entry.2))

/-- The edges that enter each node, by relation and then by source. -/
def inboundMap (graph : Graph) : PartialMap NodeId (List (String × NodeId)) := fun id =>
  (grouped ((presentEdges graph).map fun e => (e.target, e.relation, e.source)) id).map
    (sortByKey fun entry => toLex (entry.1, entry.2))

/-- The link to the article of a node. -/
def articleLink (labelMap : PartialMap NodeId String) (id : NodeId) : String :=
  "- [" ++ mdLinkText (sanitizeLabel ((labelMap id).getD "")) ++ "](" ++ nodeFilename id ++ ")"

/-- The line of an edge. -/
def edgeLine (labelMap : PartialMap NodeId String) (entry : String × NodeId) : String :=
  articleLink labelMap entry.2 ++ " (" ++ displaySafe (sanitizeLabel entry.1) ++ ")"

def edgeLines (labelMap : PartialMap NodeId String) (entries : List (String × NodeId)) :
    List String :=
  if entries.isEmpty then ["_none_"] else entries.map (edgeLine labelMap)

def renderIndex (graph : Graph) (labelMap : PartialMap NodeId String) : String :=
  unlines (["# Index", ""] ++ graph.nodes.map fun node => articleLink labelMap node.id)

/-- The article of a node. -/
def renderNodeArticle (id : NodeId) (label sourceFile : String) (startLine : UInt32)
    (outbound inbound : PartialMap NodeId (List (String × NodeId)))
    (labelMap : PartialMap NodeId String) : String :=
  unlines
    (["# " ++ displaySafe (sanitizeLabel label), "",
        "Source: `" ++ displaySafe sourceFile ++ "` line " ++ toString startLine.toNat, "",
        "## Outbound", ""] ++
      edgeLines labelMap ((outbound id).getD []) ++ ["", "## Inbound", ""] ++
      edgeLines labelMap ((inbound id).getD []))

def wikiArticle (graph : Graph) (node : Node) : String :=
  renderNodeArticle node.id node.label node.sourceFile node.sourceLocation.startLine
    (outboundMap graph) (inboundMap graph) (collectLabels graph)

/-- The wiki: the articles in the order of the nodes, and the index last. -/
def renderWiki (graph : Graph) : List (String × String) :=
  graph.nodes.map (fun node => (nodeFilename node.id, wikiArticle graph node)) ++
    [("index.md", renderIndex graph (collectLabels graph))]

/-! ## Closed links -/

/-- The edges with both ends in the graph that leave a node, and those that enter it. -/
def outDegree (graph : Graph) (id : NodeId) : Nat :=
  (graph.edges.filter fun e => e.source ∈ graph.nodes.map Node.id ∧
    e.target ∈ graph.nodes.map Node.id ∧ e.source = id).length

def inDegree (graph : Graph) (id : NodeId) : Nat :=
  (graph.edges.filter fun e => e.source ∈ graph.nodes.map Node.id ∧
    e.target ∈ graph.nodes.map Node.id ∧ e.target = id).length

/-- Every link leads to a file of the wiki, and an article has one link for each edge that
leaves its node and one for each that enters it. -/
structure WikiClosed (graph : Graph) : Prop where
  closed : ∀ file ∈ renderWiki graph, ∀ dest ∈ fileLinks file.2.toList,
    dest ∈ (renderWiki graph).map fun file => file.1.toList
  counted : ∀ node ∈ graph.nodes, (fileLinks (wikiArticle graph node).toList).length =
    outDegree graph node.id + inDegree graph node.id

/-- The text of every link, that of the index and of the bullets, keeps to itself: each
escape, code span, autolink and tag that begins in it ends in it, and it has no other
bracket. -/
def LinkTextsKept (graph : Graph) : Prop :=
  ∀ id ∈ graph.nodes.map Node.id,
    keepsToItself 0
      ((mdLinkText (sanitizeLabel ((collectLabels graph id).getD ""))).toList ++ [']'])

instance (graph : Graph) : Decidable (LinkTextsKept graph) :=
  inferInstanceAs (Decidable (∀ id ∈ graph.nodes.map Node.id, _))

/-- No text outside of the link texts has a link in it: no label, as a heading shows it, no
path between its backticks, no relation with the parenthesis after it. -/
structure NoOtherLinks (graph : Graph) : Prop where
  headings : ∀ node ∈ graph.nodes, links (displaySafe (sanitizeLabel node.label)).toList = []
  paths : ∀ node ∈ graph.nodes, links ('`' :: ((displaySafe node.sourceFile).toList ++ ['`'])) = []
  relations : ∀ e ∈ graph.edges, e.source ∈ graph.nodes.map Node.id →
    e.target ∈ graph.nodes.map Node.id →
      links ((displaySafe (sanitizeLabel e.relation)).toList ++ [')']) = []

/-! ## Lines -/

theorem forall_mem_toString {p : Char → Bool} (hp : ∀ d < 10, p d.digitChar) (n : Nat) :
    ∀ ch ∈ (toString n).toList, p ch := by
  intro ch hch
  rw [Nat.toString_eq_ofList_toDigits, String.toList_ofList] at hch
  obtain ⟨d, hd, rfl⟩ := exists_digitChar_of_mem_toDigits (by decide) hch
  exact hp d hd

theorem nodeFilename_plain (id : NodeId) : ∀ ch ∈ (nodeFilename id).toList, isDestChar ch := by
  have hname : (nodeFilename id).toList =
      "node-".toList ++ (toString id.get.toNat).toList ++ ".md".toList := by
    simp [nodeFilename]
  rw [hname, List.forall_mem_append, List.forall_mem_append]
  refine ⟨⟨?_, forall_mem_toString (by decide) _⟩, ?_⟩ <;> exact List.all_eq_true.mp (by decide)

/-- A link whose text keeps to itself is one link, to the article, and what follows it is
read by itself. -/
theorem links_articleLink_append {labelMap : PartialMap NodeId String} {id : NodeId}
    (hkept : keepsToItself 0
      ((mdLinkText (sanitizeLabel ((labelMap id).getD ""))).toList ++ [']']))
    (after : List Char) :
    links ((articleLink labelMap id).toList ++ after) =
      (nodeFilename id).toList :: links after := by
  have hline : (articleLink labelMap id).toList ++ after = "- ".toList ++
      ('[' :: ((mdLinkText (sanitizeLabel ((labelMap id).getD ""))).toList ++
        ']' :: '(' :: ((nodeFilename id).toList ++ ')' :: after))) := by
    simp [articleLink]
  have hpointy : (nodeFilename id).toList.head? ≠ some '<' := by
    simp [nodeFilename]
  rw [hline, links_append_of_isPlain (by decide)]
  exact links_link hkept (nodeFilename_plain id) hpointy after

/-- The line of an edge has that link and those of the relation. -/
theorem links_edgeLine {labelMap : PartialMap NodeId String} {entry : String × NodeId}
    (hkept : keepsToItself 0
      ((mdLinkText (sanitizeLabel ((labelMap entry.2).getD ""))).toList ++ [']'])) :
    links (edgeLine labelMap entry).toList = (nodeFilename entry.2).toList ::
      links ((displaySafe (sanitizeLabel entry.1)).toList ++ [')']) := by
  have hline : (edgeLine labelMap entry).toList = (articleLink labelMap entry.2).toList ++
      (" (".toList ++ ((displaySafe (sanitizeLabel entry.1)).toList ++ [')'])) := by
    simp [edgeLine]
  rw [hline, links_articleLink_append hkept, links_append_of_isPlain (by decide)]

theorem links_heading (label : String) :
    links ("# " ++ displaySafe (sanitizeLabel label)).toList =
      links (displaySafe (sanitizeLabel label)).toList := by
  rw [String.toList_append, links_append_of_isPlain (by decide)]

theorem links_path (sourceFile : String) (line : Nat) :
    links ("Source: `" ++ displaySafe sourceFile ++ "` line " ++ toString line).toList =
      links ('`' :: ((displaySafe sourceFile).toList ++ ['`'])) := by
  have hline : ("Source: `" ++ displaySafe sourceFile ++ "` line " ++ toString line).toList =
      "Source: ".toList ++ (('`' :: ((displaySafe sourceFile).toList ++ ['`'])) ++
        (" line ".toList ++ (toString line).toList)) := by
    simp
  have hafter : ∀ ch ∈ " line ".toList ++ (toString line).toList, endsNothing ch := by
    rw [List.forall_mem_append]
    exact ⟨List.all_eq_true.mp (by decide), forall_mem_toString (by decide) line⟩
  rw [hline, links_append_of_isPlain (by decide), links, read_append hafter, links]

/-! ## Articles -/

theorem renderSafe_mdLinkText (label : String) : RenderSafe (mdLinkText label) := by
  rw [RenderSafe, mdLinkText, String.toList_ofList]
  intro shown hshown
  obtain ⟨ch, hch, hmem⟩ := List.mem_flatMap.mp hshown
  have hsafe := renderSafe_displaySafe label ch hch
  split_ifs at hmem
  next =>
    rcases List.mem_pair.mp hmem with rfl | rfl <;> decide
  next =>
    rcases List.mem_pair.mp hmem with rfl | rfl <;> decide
  next =>
    rw [List.mem_singleton.mp hmem]
    exact hsafe

theorem renderSafe_articleLink (labelMap : PartialMap NodeId String) (id : NodeId) :
    RenderSafe (articleLink labelMap id) := by
  have hmarks : RenderSafe "- [" ∧ RenderSafe "](" ∧ RenderSafe ")" ∧ RenderSafe "node-" ∧
      RenderSafe ".md" := by decide
  simp only [articleLink, nodeFilename, renderSafe_append, renderSafe_mdLinkText,
    renderSafe_toString, hmarks, and_self]

theorem renderSafe_edgeLine (labelMap : PartialMap NodeId String) (entry : String × NodeId) :
    RenderSafe (edgeLine labelMap entry) := by
  have hmarks : RenderSafe " (" ∧ RenderSafe ")" := by decide
  simp [edgeLine, renderSafe_articleLink, hmarks]

theorem fileLinks_unlines {lines : List String} (hlines : ∀ line ∈ lines, RenderSafe line) :
    fileLinks (unlines lines).toList = lines.flatMap fun line => links line.toList := by
  have hmap : (lines.flatMap fun line => line.toList ++ ['\n']) =
      (lines.map String.toList).flatMap fun line => line ++ ['\n'] := by
    rw [List.flatMap_map]
  have hnone : ∀ line ∈ lines.map String.toList, '\n' ∉ line := by
    intro line hline hmem
    obtain ⟨text, htext, rfl⟩ := List.mem_map.mp hline
    exact absurd (hlines text htext '\n' hmem) (by decide)
  rw [unlines, String.toList_ofList, hmap, fileLinks_lines hnone, List.flatMap_map]

theorem renderSafe_edgeLines (labelMap : PartialMap NodeId String)
    (entries : List (String × NodeId)) :
    ∀ line ∈ edgeLines labelMap entries, RenderSafe line := by
  intro line hline
  unfold edgeLines at hline
  split at hline
  next =>
    rw [List.mem_singleton.mp hline]
    decide
  next =>
    obtain ⟨entry, -, rfl⟩ := List.mem_map.mp hline
    exact renderSafe_edgeLine labelMap entry

theorem links_edgeLines (labelMap : PartialMap NodeId String)
    (entries : List (String × NodeId)) :
    ((edgeLines labelMap entries).flatMap fun line => links line.toList) =
      entries.flatMap fun entry => links (edgeLine labelMap entry).toList := by
  unfold edgeLines
  split
  next hempty =>
    rw [List.isEmpty_iff.mp hempty, List.flatMap_singleton, List.flatMap_nil]
    decide
  next => rw [List.flatMap_map]

/-- The links of an article are those of its heading, its path and its edges. -/
theorem links_wikiArticle (graph : Graph) (node : Node) :
    fileLinks (wikiArticle graph node).toList =
      links ("# " ++ displaySafe (sanitizeLabel node.label)).toList ++
      links ("Source: `" ++ displaySafe node.sourceFile ++ "` line " ++
        toString node.sourceLocation.startLine.toNat).toList ++
      (((outboundMap graph node.id).getD []).flatMap fun entry =>
        links (edgeLine (collectLabels graph) entry).toList) ++
      (((inboundMap graph node.id).getD []).flatMap fun entry =>
        links (edgeLine (collectLabels graph) entry).toList) := by
  have hmarks : RenderSafe "# " ∧ RenderSafe "" ∧ RenderSafe "Source: `" ∧ RenderSafe "` line " ∧
      RenderSafe "## Outbound" ∧ RenderSafe "## Inbound" := by decide
  have hblank : links "".toList = [] ∧ links "## Outbound".toList = [] ∧
      links "## Inbound".toList = [] := by decide
  rw [wikiArticle, renderNodeArticle, fileLinks_unlines]
  · simp only [List.flatMap_append, links_edgeLines, List.flatMap_cons, List.flatMap_nil, hblank,
      List.append_nil, List.nil_append, List.append_assoc]
  · simp only [List.forall_mem_append, List.forall_mem_cons, renderSafe_append,
      renderSafe_displaySafe, renderSafe_toString, hmarks]
    simp only [List.not_mem_nil, IsEmpty.forall_iff, implies_true, and_self, true_and, and_true]
    exact ⟨renderSafe_edgeLines _ _, renderSafe_edgeLines _ _⟩

/-! ## The edges of an article -/

theorem isSome_collectLabels_iff {graph : Graph} {id : NodeId} :
    (collectLabels graph id).isSome ↔ id ∈ graph.nodes.map Node.id := by
  have hnone : collectLabels graph id = none ↔ id ∉ graph.nodes.map Node.id := by
    rw [collectLabels, ofEntries_eq_none_iff, List.map_map]
    rfl
  rw [← not_iff_not, ← hnone, Option.isSome_iff_ne_none, not_not]

theorem presentEdges_eq (graph : Graph) :
    presentEdges graph = graph.edges.filter fun e =>
      e.source ∈ graph.nodes.map Node.id ∧ e.target ∈ graph.nodes.map Node.id := by
  apply List.filter_congr
  intro e _
  rw [Bool.eq_iff_iff, Bool.and_eq_true, isSome_collectLabels_iff, isSome_collectLabels_iff,
    decide_eq_true_eq]

theorem mem_presentEdges {graph : Graph} {e : Edge} :
    e ∈ presentEdges graph ↔ e ∈ graph.edges ∧ e.source ∈ graph.nodes.map Node.id ∧
      e.target ∈ graph.nodes.map Node.id := by
  rw [presentEdges_eq, List.mem_filter, decide_eq_true_eq]

/-- The edges listed at one of their ends, each with the other end. -/
theorem sorted_grouped_perm (edges : List Edge) (near far : Edge → NodeId) (id : NodeId) :
    (((grouped (edges.map fun e => (near e, e.relation, far e)) id).map
      (sortByKey fun entry => toLex (entry.1, entry.2))).getD []).Perm
      ((edges.filter fun e => near e = id).map fun e => (e.relation, far e)) := by
  have hgrouped : (grouped (edges.map fun e => (near e, e.relation, far e)) id).getD [] =
      (edges.filter fun e => near e = id).map fun e => (e.relation, far e) := by
    rw [getD_grouped, List.filter_map, List.map_map]
    rfl
  rw [← hgrouped]
  cases grouped (edges.map fun e => (near e, e.relation, far e)) id with
  | none => exact List.Perm.refl _
  | some entries => exact sortByKey_perm entries

theorem length_filter_presentEdges (graph : Graph) (p : Edge → Prop) [DecidablePred p] :
    ((presentEdges graph).filter fun e => p e).length =
      (graph.edges.filter fun e => e.source ∈ graph.nodes.map Node.id ∧
        e.target ∈ graph.nodes.map Node.id ∧ p e).length := by
  rw [presentEdges_eq, List.filter_filter]
  congr 1
  apply List.filter_congr
  intro e _
  rw [Bool.eq_iff_iff]
  simp only [Bool.and_eq_true, decide_eq_true_eq]
  tauto

theorem outbound_perm (graph : Graph) (id : NodeId) :
    ((outboundMap graph id).getD []).Perm
      (((presentEdges graph).filter fun e => e.source = id).map fun e =>
        (e.relation, e.target)) :=
  sorted_grouped_perm (presentEdges graph) Edge.source Edge.target id

theorem inbound_perm (graph : Graph) (id : NodeId) :
    ((inboundMap graph id).getD []).Perm
      (((presentEdges graph).filter fun e => e.target = id).map fun e =>
        (e.relation, e.source)) :=
  sorted_grouped_perm (presentEdges graph) Edge.target Edge.source id

theorem length_outbound (graph : Graph) (id : NodeId) :
    ((outboundMap graph id).getD []).length = outDegree graph id := by
  rw [(outbound_perm graph id).length_eq, List.length_map]
  exact length_filter_presentEdges graph fun e => e.source = id

theorem length_inbound (graph : Graph) (id : NodeId) :
    ((inboundMap graph id).getD []).length = inDegree graph id := by
  rw [(inbound_perm graph id).length_eq, List.length_map]
  exact length_filter_presentEdges graph fun e => e.target = id

/-- Lines with a link each have one for each line exactly when none has a second one. -/
theorem length_flatMap_eq_iff {α β : Type*} {f : α → List β} {xs : List α}
    (hf : ∀ x ∈ xs, f x ≠ []) :
    xs.length ≤ (xs.flatMap f).length ∧
      ((xs.flatMap f).length = xs.length ↔ ∀ x ∈ xs, (f x).length = 1) := by
  induction xs with
  | nil => simp
  | cons x xs ih =>
      obtain ⟨hx, hxs⟩ := List.forall_mem_cons.mp hf
      obtain ⟨hle, hiff⟩ := ih hxs
      have hpos : 0 < (f x).length := List.length_pos_iff.mpr hx
      rw [List.flatMap_cons, List.length_append, List.length_cons, List.forall_mem_cons, ← hiff]
      constructor
      · omega
      · constructor
        · intro htotal
          constructor <;> omega
        · intro ⟨hone, hrest⟩
          omega

/-- An entry of an article comes from an edge between present nodes. -/
theorem exists_presentEdge_of_entry {graph : Graph} {id : NodeId} {entry : String × NodeId}
    (hentry : entry ∈ (outboundMap graph id).getD [] ++ (inboundMap graph id).getD []) :
    ∃ e ∈ presentEdges graph, e.relation = entry.1 ∧ entry.2 ∈ graph.nodes.map Node.id := by
  rw [List.mem_append, (outbound_perm graph id).mem_iff, (inbound_perm graph id).mem_iff,
    List.mem_map, List.mem_map] at hentry
  rcases hentry with ⟨e, he, rfl⟩ | ⟨e, he, rfl⟩
  · have hpresent := List.mem_of_mem_filter he
    exact ⟨e, hpresent, rfl, (mem_presentEdges.mp hpresent).2.2⟩
  · have hpresent := List.mem_of_mem_filter he
    exact ⟨e, hpresent, rfl, (mem_presentEdges.mp hpresent).2.1⟩

theorem mem_outbound {graph : Graph} {e : Edge} (he : e ∈ presentEdges graph) :
    (e.relation, e.target) ∈ (outboundMap graph e.source).getD [] := by
  rw [(outbound_perm graph e.source).mem_iff]
  apply List.mem_map_of_mem (f := fun e : Edge => (e.relation, e.target))
  rw [List.mem_filter, decide_eq_true_eq]
  exact ⟨he, rfl⟩

theorem nodeFilename_mem_renderWiki {graph : Graph} {id : NodeId}
    (hid : id ∈ graph.nodes.map Node.id) :
    (nodeFilename id).toList ∈ (renderWiki graph).map fun file => file.1.toList := by
  obtain ⟨node, hnode, rfl⟩ := List.mem_map.mp hid
  rw [renderWiki, List.map_append, List.map_map, List.mem_append]
  exact Or.inl (List.mem_map.mpr ⟨node, hnode, rfl⟩)

theorem NoOtherLinks.entry {graph : Graph} (h : NoOtherLinks graph) {id : NodeId}
    {entry : String × NodeId}
    (hentry : entry ∈ (outboundMap graph id).getD [] ++ (inboundMap graph id).getD []) :
    links ((displaySafe (sanitizeLabel entry.1)).toList ++ [')']) = [] := by
  obtain ⟨e, he, hrelation, -⟩ := exists_presentEdge_of_entry hentry
  obtain ⟨hedge, hsource, htarget⟩ := mem_presentEdges.mp he
  rw [← hrelation]
  exact h.relations e hedge hsource htarget

section Kept

variable {graph : Graph} (hkept : LinkTextsKept graph)
include hkept

theorem links_edgeLine_of_entry {id : NodeId} {entry : String × NodeId}
    (hentry : entry ∈ (outboundMap graph id).getD [] ++ (inboundMap graph id).getD []) :
    links (edgeLine (collectLabels graph) entry).toList = (nodeFilename entry.2).toList ::
      links ((displaySafe (sanitizeLabel entry.1)).toList ++ [')']) := by
  obtain ⟨-, -, -, hid⟩ := exists_presentEdge_of_entry hentry
  exact links_edgeLine (hkept entry.2 hid)

/-- The lines of edges have a link each exactly when no relation adds one. -/
theorem length_edgeLinks {id : NodeId} {entries : List (String × NodeId)}
    (hentries : entries ⊆ (outboundMap graph id).getD [] ++ (inboundMap graph id).getD []) :
    entries.length ≤ (entries.flatMap fun entry =>
        links (edgeLine (collectLabels graph) entry).toList).length ∧
      ((entries.flatMap fun entry =>
          links (edgeLine (collectLabels graph) entry).toList).length = entries.length ↔
        ∀ entry ∈ entries,
          links ((displaySafe (sanitizeLabel entry.1)).toList ++ [')']) = []) := by
  have hline := fun entry (hentry : entry ∈ entries) =>
    links_edgeLine_of_entry hkept (hentries hentry)
  have hne : ∀ entry ∈ entries, links (edgeLine (collectLabels graph) entry).toList ≠ [] := by
    intro entry hentry
    rw [hline entry hentry]
    exact List.cons_ne_nil _ _
  obtain ⟨hle, hiff⟩ := length_flatMap_eq_iff hne
  refine ⟨hle, hiff.trans (forall₂_congr fun entry hentry => ?_)⟩
  rw [hline entry hentry, List.length_cons, Nat.add_eq_right, List.length_eq_zero_iff]

/-- An article has a link for each edge exactly when no other text of it has one. -/
theorem counted_iff (node : Node) :
    (fileLinks (wikiArticle graph node).toList).length =
        outDegree graph node.id + inDegree graph node.id ↔
      links (displaySafe (sanitizeLabel node.label)).toList = [] ∧
        links ('`' :: ((displaySafe node.sourceFile).toList ++ ['`'])) = [] ∧
        (∀ entry ∈ (outboundMap graph node.id).getD [],
          links ((displaySafe (sanitizeLabel entry.1)).toList ++ [')']) = []) ∧
        ∀ entry ∈ (inboundMap graph node.id).getD [],
          links ((displaySafe (sanitizeLabel entry.1)).toList ++ [')']) = [] := by
  -- every bullet has its link, so that any further link is one too many
  obtain ⟨hout, houtIff⟩ := length_edgeLinks hkept
    (List.subset_append_left ((outboundMap graph node.id).getD []) _)
  obtain ⟨hin, hinIff⟩ := length_edgeLinks hkept
    (List.subset_append_right _ ((inboundMap graph node.id).getD []))
  rw [links_wikiArticle, ← length_outbound, ← length_inbound, List.length_append,
    List.length_append, List.length_append, links_heading, links_path, ← houtIff, ← hinIff,
    ← List.length_eq_zero_iff, ← List.length_eq_zero_iff]
  omega

theorem links_articleLink {id : NodeId} (hid : id ∈ graph.nodes.map Node.id) :
    links (articleLink (collectLabels graph) id).toList = [(nodeFilename id).toList] := by
  have happend := links_articleLink_append (hkept id hid) []
  rwa [List.append_nil] at happend

theorem fileLinks_renderIndex :
    fileLinks (renderIndex graph (collectLabels graph)).toList =
      graph.nodes.map fun node => (nodeFilename node.id).toList := by
  have hmarks : RenderSafe "# Index" ∧ RenderSafe "" := by decide
  have hblank : links "# Index".toList = [] ∧ links "".toList = [] := by decide
  rw [renderIndex, fileLinks_unlines]
  · simp only [List.flatMap_append, List.flatMap_cons, List.flatMap_nil, hblank,
      List.append_nil, List.nil_append, List.flatMap_map]
    rw [List.map_eq_flatMap]
    exact List.flatMap_congr fun node hnode =>
      links_articleLink hkept (List.mem_map_of_mem hnode)
  · simp only [List.forall_mem_append, List.forall_mem_cons, hmarks, true_and]
    refine ⟨by simp, fun line hline => ?_⟩
    obtain ⟨node, -, rfl⟩ := List.mem_map.mp hline
    exact renderSafe_articleLink _ _

/-- Without other links, an article links the other ends of its edges. -/
theorem fileLinks_wikiArticle (h : NoOtherLinks graph) {node : Node} (hnode : node ∈ graph.nodes) :
    fileLinks (wikiArticle graph node).toList =
      ((outboundMap graph node.id).getD [] ++ (inboundMap graph node.id).getD []).map
        fun entry => (nodeFilename entry.2).toList := by
  rw [links_wikiArticle, links_heading, h.headings node hnode, links_path, h.paths node hnode,
    List.nil_append, List.nil_append, ← List.flatMap_append, List.map_eq_flatMap]
  apply List.flatMap_congr
  intro entry hentry
  rw [links_edgeLine_of_entry hkept hentry, h.entry hentry]

theorem closed_of_noOtherLinks (h : NoOtherLinks graph) :
    ∀ file ∈ renderWiki graph, ∀ dest ∈ fileLinks file.2.toList,
      dest ∈ (renderWiki graph).map fun file => file.1.toList := by
  intro file hfile dest hdest
  rw [renderWiki, List.mem_append, List.mem_map, List.mem_singleton] at hfile
  rcases hfile with ⟨node, hnode, rfl⟩ | rfl
  · rw [fileLinks_wikiArticle hkept h hnode, List.mem_map] at hdest
    obtain ⟨entry, hentry, rfl⟩ := hdest
    obtain ⟨-, -, -, hid⟩ := exists_presentEdge_of_entry hentry
    exact nodeFilename_mem_renderWiki hid
  · rw [fileLinks_renderIndex hkept, List.mem_map] at hdest
    obtain ⟨node, hnode, rfl⟩ := hdest
    exact nodeFilename_mem_renderWiki (List.mem_map_of_mem hnode)

end Kept

/-- Labels with brackets, backslashes, a tag and a code span, and a path that is a link. -/
def bracketLabels : Graph := { Graph.new with
  nodes := [⟨⟨1⟩, "items[0]", "[p](q).rs", ⟨0, 1, 1, 1⟩⟩, ⟨⟨2⟩, "C:\\dir", "b.rs", ⟨0, 1, 1, 1⟩⟩,
    ⟨⟨3⟩, "`Vec`<T>", "c.rs", ⟨0, 1, 1, 1⟩⟩]
  edges := [⟨⟨1⟩, ⟨2⟩, "calls", .extracted⟩, ⟨⟨3⟩, ⟨1⟩, "a < b", .extracted⟩,
    ⟨⟨1⟩, ⟨7⟩, "calls", .extracted⟩] }

/-- A label that is a link, and one that ends in a backslash. -/
def linkLabels : Graph := { Graph.new with
  nodes := [⟨⟨1⟩, "[x](evil)", "a.rs", ⟨0, 1, 1, 1⟩⟩, ⟨⟨2⟩, "a\\", "b.rs", ⟨0, 1, 1, 1⟩⟩]
  edges := [⟨⟨1⟩, ⟨2⟩, "calls", .extracted⟩] }

end HabitatGraph
