import HabitatGraph.Core.Sanitize
import HabitatGraph.Core.Schema
import HabitatGraph.Core.Text
import HabitatGraph.Foundation.PartialMap
import HabitatGraph.Foundation.SortedList
import HabitatGraph.Foundation.Splitting
import HabitatGraph.Foundation.Tally

/-! # Vault export

The vault has a note for each node and an index note. A note is named after the stem of
its label, with the id where several nodes share the stem; it links the notes of its
neighbours, and the index links every note.
-/

namespace HabitatGraph

open PartialMap SortedList StableSort Tally

def NodeId.display (id : NodeId) : String := "n" ++ toString id.get.toNat

def CommunityId.display (id : CommunityId) : String := "c" ++ toString id.get.toNat

/-! ## Filenames -/

/-- A stem without controls, slashes and blanks; never empty. -/
def makeStem (label : String) : String :=
  let stem := (sanitizeLabel label).toList.map fun c => if c = '/' || isWhitespace c then '_' else c
  if stem.isEmpty then "_" else String.ofList stem

def stems (graph : Graph) : List String := graph.nodes.map fun n => makeStem n.label

/-- How many nodes have this stem. -/
def stemCount (graph : Graph) (stem : String) : Nat :=
  countOf ((stems graph).foldl (fun counts s => addTo s 1 counts) []) stem

/-- The name of a node's note, without the extension. -/
def noteName (graph : Graph) (node : Node) : String :=
  if stemCount graph (makeStem node.label) > 1 then
    makeStem node.label ++ "_" ++ node.id.display
  else makeStem node.label

def assignFilenames (graph : Graph) : List String :=
  graph.nodes.map fun node => noteName graph node ++ ".md"

def mocFilename : String := "_MOC.md"

/-! ## What the notes are made from -/

/-- The community of each member; of several communities the last one counts. -/
def nodeCommunityMap (graph : Graph) : PartialMap NodeId CommunityId :=
  ofEntries (graph.communities.flatMap fun c => c.members.map fun id => (id, c.id))

/-- The crate a path lies in, else its first segment. -/
def crateOf (sourceFile : String) : String :=
  match sourceFile.toList.splitOn '/' with
  | first :: second :: _ =>
      if String.ofList first = "crates" then sanitizeLabel (String.ofList second)
      else if first.isEmpty then "root" else sanitizeLabel (String.ofList first)
  | [first] => if first.isEmpty then "root" else sanitizeLabel (String.ofList first)
  | [] => "root"

/-- The language of a file by its extension. -/
def langOf (sourceFile : String) : String :=
  match String.ofList ((sourceFile.toList.splitOn '.').getLastD []) with
  | "rs" => "rust"
  | "py" => "python"
  | "js" | "ts" | "tsx" | "jsx" => "js"
  | _ => "other"

def collectLabels (graph : Graph) : PartialMap NodeId String :=
  ofEntries (graph.nodes.map fun n => (n.id, n.label))

/-- What an edge adds to the neighbours of its ends; a self-loop adds one entry. -/
def edgeNeighbours (edge : Edge) : List (NodeId × String × NodeId) :=
  (edge.source, edge.relation, edge.target) ::
    if edge.source ≠ edge.target then [(edge.target, edge.relation, edge.source)] else []

/-- The neighbours of each node, by relation and then by id. -/
def buildAdjacency (graph : Graph) : PartialMap NodeId (List (String × NodeId)) := fun id =>
  (grouped (graph.edges.flatMap edgeNeighbours) id).map
    (sortByKey fun entry => toLex (entry.1, entry.2))

/-- Only what needs no quotes in YAML. -/
def yamlToken (s : String) : String :=
  String.ofList (s.toList.filter fun c => c.isAlphanum || c = '.' || c = '_' || c = '-')

/-- Escape a text between double quotes in YAML. -/
def yamlDq (s : String) : String :=
  String.ofList (s.toList.flatMap fun c =>
    if c = '\\' then ['\\', '\\'] else if c = '"' then ['\\', '"'] else [c])

/-- A relation as the key of a field, without brackets and colons. -/
def fieldKey (relation : String) : String :=
  String.ofList ((displaySafe relation).toList.filter fun c => !(c = '[' || c = ']' || c = ':'))

/-! ## The notes -/

def linkLine (safeLabel : String) : String := "- [[" ++ safeLabel ++ "]]"

/-- The link of a note to a neighbour. -/
def neighbourLine (labelMap : PartialMap NodeId String) (entry : String × NodeId) : String :=
  "- " ++ fieldKey entry.1 ++ ":: [[" ++ displaySafe ((labelMap entry.2).getD "") ++ "]]"

/-- The lines above the links of a note. -/
def noteHeader (node : Node) (degree : Nat) (community : Option CommunityId) : List String :=
  let krate := yamlToken (crateOf node.sourceFile)
  let lang := langOf node.sourceFile
  let line := toString node.sourceLocation.startLine.toNat
  ["---", "id: " ++ toString node.id.get.toNat] ++
    (community.elim [] fun cid => ["community: " ++ toString cid.get.toNat]) ++
    ["crate: " ++ krate,
      "lang: " ++ lang,
      "file: \"" ++ yamlDq (displaySafe node.sourceFile) ++ "\"",
      "line: " ++ line,
      "degree: " ++ toString degree,
      "tags: [hg/node, crate/" ++ krate ++ ", lang/" ++ lang ++
        (community.elim "" fun cid => ", community/" ++ toString cid.get.toNat) ++ "]",
      "---",
      "",
      "# " ++ displaySafe node.label,
      "",
      "> `" ++ displaySafe node.sourceFile ++ ":" ++ line ++ "` · crate `" ++ krate ++
        "` · degree " ++ toString degree,
      "",
      "## Links"]

/-- The note of a node. -/
def renderNodeNote (node : Node) (adj : PartialMap NodeId (List (String × NodeId)))
    (labelMap : PartialMap NodeId String) (nodeToComm : PartialMap NodeId CommunityId) : String :=
  let neighbours := (adj node.id).getD []
  unlines (noteHeader node neighbours.length (nodeToComm node.id) ++
    neighbours.map (neighbourLine labelMap))

/-- The communities that nodes are members of, and the members of one among the nodes. -/
def listedCommunities (graph : Graph) : List CommunityId :=
  sortDedup (graph.nodes.filterMap fun n => nodeCommunityMap graph n.id)

def listedMembers (graph : Graph) (cid : CommunityId) : List NodeId :=
  sortByKey (fun id => id)
    ((graph.nodes.filter fun n => nodeCommunityMap graph n.id = some cid).map Node.id)

def unclustered (graph : Graph) : List NodeId :=
  (graph.nodes.filter fun n => nodeCommunityMap graph n.id = none).map Node.id

/-- The index note. -/
def renderMoc (graph : Graph) (labelMap : PartialMap NodeId String) : String :=
  let bullet := fun id => linkLine (displaySafe ((labelMap id).getD ""))
  unlines (["# Map of Content"] ++
    ((listedCommunities graph).flatMap fun cid =>
      ["", "## community " ++ cid.display, ""] ++ (listedMembers graph cid).map bullet) ++
    if (unclustered graph).isEmpty then []
    else ["", "## Unclustered", ""] ++ (unclustered graph).map bullet)

/-- The vault: the notes and the index with their filenames, in their order. -/
def renderVault (graph : Graph) : List (String × String) :=
  let notes := (graph.nodes.zip (assignFilenames graph)).map fun (node, fname) =>
    (fname, renderNodeNote node (buildAdjacency graph) (collectLabels graph)
      (nodeCommunityMap graph))
  sortByKey Prod.fst (notes ++ [(mocFilename, renderMoc graph (collectLabels graph))])

/-! ## Distinct names -/

theorem stemCount_eq_count (graph : Graph) (stem : String) :
    stemCount graph stem = (stems graph).count stem := by
  suffices hfold : ∀ (ss : List String) (counts : List (String × Nat)),
      countOf (ss.foldl (fun counts s => addTo s 1 counts) counts) stem =
        countOf counts stem + ss.count stem by
    rw [stemCount, hfold, countOf_nil, Nat.zero_add]
  intro ss
  induction ss with
  | nil => intro counts; rfl
  | cons s ss ih =>
      intro counts
      rw [List.foldl_cons, ih, countOf_addTo, List.count_cons]
      simp only [beq_iff_eq]
      omega

/-- Several nodes have this stem. -/
def Shared (graph : Graph) (stem : String) : Prop := 1 < (stems graph).count stem

instance (graph : Graph) (stem : String) : Decidable (Shared graph stem) :=
  inferInstanceAs (Decidable (1 < _))

theorem noteName_of_shared {graph : Graph} {node : Node}
    (hshared : Shared graph (makeStem node.label)) :
    noteName graph node = makeStem node.label ++ "_" ++ node.id.display := by
  rw [noteName, stemCount_eq_count]
  exact if_pos hshared

theorem noteName_of_not_shared {graph : Graph} {node : Node}
    (hshared : ¬ Shared graph (makeStem node.label)) :
    noteName graph node = makeStem node.label := by
  rw [noteName, stemCount_eq_count]
  exact if_neg hshared

theorem shared_of_ne {graph : Graph} {node node' : Node} (hnode : node ∈ graph.nodes)
    (hnode' : node' ∈ graph.nodes) (hne : node ≠ node')
    (hstem : makeStem node.label = makeStem node'.label) :
    Shared graph (makeStem node.label) := by
  have hpair : [node, node'].Nodup := by simpa using hne
  have hsub : [node, node'] ⊆ graph.nodes := by simp [hnode, hnode']
  obtain ⟨pair, hperm, hsublist⟩ := hpair.subperm hsub
  have hle := (hsublist.map fun n => makeStem n.label).count_le (makeStem node.label)
  rw [(hperm.map fun n => makeStem n.label).count_eq, List.map_cons, List.map_cons, List.map_nil,
    ← hstem, List.count_cons_self, List.count_cons_self] at hle
  exact Nat.lt_of_succ_le hle

theorem notMem_toDigits (n : Nat) {ch : Char} (hch : ch.isDigit = false) :
    ch ∉ Nat.toDigits 10 n := by
  intro hmem
  rw [Nat.isDigit_of_mem_toDigits (by decide) (by decide) hmem] at hch
  cases hch

theorem toList_withId (stem : String) (id : NodeId) :
    (stem ++ "_" ++ id.display).toList =
      (stem.toList ++ ['_']) ++ 'n' :: Nat.toDigits 10 id.get.toNat := by
  simp [NodeId.display]

/-- The id can be read off a name that carries it. -/
theorem withId_inj {stem stem' : String} {id id' : NodeId}
    (h : stem ++ "_" ++ id.display = stem' ++ "_" ++ id'.display) : id = id' := by
  have hlists := congrArg String.toList h
  rw [toList_withId, toList_withId] at hlists
  have hleft := Splitting.splitLast?_eq_some_iff.mpr
    ⟨hlists, notMem_toDigits id'.get.toNat (by decide : ('n').isDigit = false)⟩
  have hright := Splitting.splitLast?_eq_some_iff.mpr
    ⟨hlists.symm, notMem_toDigits id.get.toNat (by decide : ('n').isDigit = false)⟩
  rw [hlists, hright] at hleft
  have hdigits := (Prod.mk.inj (Option.some.inj hleft)).2
  have hnat := congrArg (fun digits => Nat.ofDigitChars 10 digits 0) hdigits
  simp only [Nat.ofDigitChars_ten_toDigits] at hnat
  exact NodeId.toNat_injective hnat

/-- No note with a stem of its own is named like the index, or like the note of a node
whose stem is shared. -/
def NamesApart (graph : Graph) : Prop :=
  ∀ node ∈ graph.nodes, ¬ Shared graph (makeStem node.label) →
    makeStem node.label ≠ "_MOC" ∧
    ∀ other ∈ graph.nodes, Shared graph (makeStem other.label) →
      makeStem node.label ≠ makeStem other.label ++ "_" ++ other.id.display

theorem withId_ne_moc {stem : String} {id : NodeId} : stem ++ "_" ++ id.display ≠ "_MOC" := by
  intro h
  have hmem : 'n' ∈ "_MOC".toList := by
    rw [← h, toList_withId]
    exact List.mem_append_right _ List.mem_cons_self
  revert hmem
  decide

theorem append_md_inj {name name' : String} : name ++ ".md" = name' ++ ".md" ↔ name = name' := by
  rw [← String.toList_inj, String.toList_append, String.toList_append, List.append_left_inj,
    String.toList_inj]

theorem filenames_perm (graph : Graph) :
    ((renderVault graph).map Prod.fst).Perm (assignFilenames graph ++ [mocFilename]) := by
  have hzip : (graph.nodes.zip (assignFilenames graph)).map (fun pair => pair.2) =
      assignFilenames graph := List.map_snd_zip (by simp [assignFilenames])
  refine ((sortByKey_perm _).map Prod.fst).trans ?_
  rw [List.map_append, List.map_map]
  exact List.Perm.of_eq (congrArg (· ++ [mocFilename]) hzip)

/-- Notes of different nodes have different names exactly when no stem of its own is in
the way. -/
theorem nodup_noteName_iff {graph : Graph} (hids : (graph.nodes.map Node.id).Nodup) :
    ((graph.nodes.map (noteName graph)).Nodup ∧ "_MOC" ∉ graph.nodes.map (noteName graph)) ↔
      NamesApart graph := by
  have hnodes : graph.nodes.Nodup := hids.of_map
  rw [List.nodup_map_iff_inj_on hnodes, List.mem_map, not_exists]
  constructor
  · intro ⟨hinj, hmoc⟩ node hnode hown
    have hname := noteName_of_not_shared hown
    refine ⟨fun heq => hmoc node ⟨hnode, hname.trans heq⟩, fun other hother hshared heq => ?_⟩
    have hsame := hinj node hnode other hother (by rw [hname, noteName_of_shared hshared, heq])
    exact hown (hsame ▸ hshared)
  · intro hapart
    constructor
    · intro node hnode other hother heq
      by_cases hshared : Shared graph (makeStem node.label)
      · by_cases hshared' : Shared graph (makeStem other.label)
        · -- the ids can be read off both names
          rw [noteName_of_shared hshared, noteName_of_shared hshared'] at heq
          exact List.inj_on_of_nodup_map hids hnode hother (withId_inj heq)
        · rw [noteName_of_shared hshared, noteName_of_not_shared hshared'] at heq
          exact absurd heq.symm ((hapart other hother hshared').2 node hnode hshared)
      · by_cases hshared' : Shared graph (makeStem other.label)
        · rw [noteName_of_not_shared hshared, noteName_of_shared hshared'] at heq
          exact absurd heq ((hapart node hnode hshared).2 other hother hshared')
        · -- one stem for two nodes would be shared
          rw [noteName_of_not_shared hshared, noteName_of_not_shared hshared'] at heq
          by_contra hne
          exact hshared (shared_of_ne hnode hother hne heq)
    · intro node ⟨hnode, heq⟩
      by_cases hshared : Shared graph (makeStem node.label)
      · rw [noteName_of_shared hshared] at heq
        exact withId_ne_moc heq
      · rw [noteName_of_not_shared hshared] at heq
        exact (hapart node hnode hshared).1 heq

/-- The filenames of the vault are distinct exactly when no stem of its own is in the way
of the index or of a name with an id. The ids are distinct; the labels are arbitrary. -/
theorem nodup_filenames_iff {graph : Graph} (hids : (graph.nodes.map Node.id).Nodup) :
    ((renderVault graph).map Prod.fst).Nodup ↔ NamesApart graph := by
  have hnames : (assignFilenames graph).Nodup ↔ (graph.nodes.map (noteName graph)).Nodup := by
    have hmap : assignFilenames graph = (graph.nodes.map (noteName graph)).map (· ++ ".md") := by
      rw [assignFilenames, List.map_map]
      rfl
    rw [hmap, List.nodup_map_iff fun _ _ => append_md_inj.mp]
  have hmoc : mocFilename ∈ assignFilenames graph ↔
      "_MOC" ∈ graph.nodes.map (noteName graph) := by
    have hfile : mocFilename = "_MOC" ++ ".md" := by decide
    simp only [assignFilenames, List.mem_map, hfile, append_md_inj]
  rw [(filenames_perm graph).nodup_iff, ← nodup_noteName_iff hids, List.nodup_append_comm,
    List.singleton_append, List.nodup_cons, hnames, hmoc, and_comm]

/-- A stem between two notes that share another one. -/
def sharedStems : Graph := { Graph.new with
  nodes := [⟨⟨1⟩, "foo", "a.rs", ⟨0, 1, 1, 1⟩⟩, ⟨⟨2⟩, "foo", "b.rs", ⟨0, 1, 1, 1⟩⟩,
    ⟨⟨3⟩, "bar", "b.rs", ⟨0, 1, 1, 1⟩⟩] }

theorem nodup_filenames_sharedStems :
    ((renderVault sharedStems).map Prod.fst).Nodup ↔ NamesApart sharedStems :=
  nodup_filenames_iff (by decide)

/-- A label that is the name of the index, and one that is the name of another note. -/
def takenNames : Graph := { Graph.new with
  nodes := [⟨⟨1⟩, "foo", "a.rs", ⟨0, 1, 1, 1⟩⟩, ⟨⟨2⟩, "foo", "b.rs", ⟨0, 1, 1, 1⟩⟩,
    ⟨⟨3⟩, "foo_n1", "c.rs", ⟨0, 1, 1, 1⟩⟩, ⟨⟨4⟩, "_MOC", "d.rs", ⟨0, 1, 1, 1⟩⟩] }

theorem filenames_takenNames :
    (takenNames.nodes.map Node.id).Nodup ∧
    (renderVault takenNames).map Prod.fst =
      ["_MOC.md", "_MOC.md", "foo_n1.md", "foo_n1.md", "foo_n2.md"] := by
  constructor
  · decide
  · decide +kernel

end HabitatGraph
