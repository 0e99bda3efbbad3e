import HabitatGraph.Build.MergeKeeps
import HabitatGraph.Cli.MergeDriverCommand
import HabitatGraph.Core.Text

/-! # Adding to the output file

What was extracted from a fetched document is merged into the `graph.json` that is
there, and the file is written anew. The new graph has priority, so the recorded one
is re-identified: its labels and the edges between its nodes stay, and an id stays
when it is the content id of its label.
-/

namespace HabitatGraph

open KeyedList StableSort Utf8Lines

/-- The output file as the command finds it: what it holds, what the calls on it
answer, and what a write leaves there. A refused write may leave anything. -/
structure OutputFile where
  display : String
  parent : Option String
  content : Option (List UInt8)
  pathExists : Bool
  readToString : Except String String
  createDirAll : Except String Unit
  write : String → Except String Unit × Option (List UInt8)
  exists_of_content : content.isSome → pathExists
  content_of_read : ∀ text, readToString = .ok text → content.bind decode? = some text
  content_of_write : ∀ text, (write text).1 = .ok () → (write text).2 = some (encode text.toList)

section Command

variable (serde : SerdeJson) (tables : UnicodeTables) (contentId : String → UInt32)

/-- The graph at the output; a blank text and one that cannot be loaded count as empty. -/
def loadOutput (out : OutputFile) : Except GraphError Graph :=
  if out.pathExists then do
    let text ← out.readToString.mapError fun e =>
      GraphError.io ("read " ++ out.display ++ ": " ++ e)
    if (trim text).isEmpty then .ok Graph.new
    else .ok ((fromNodeLink serde tables text).toOption.getD Graph.new)
  else .ok Graph.new

/-- Create the directory of the output, unless it is the current one. -/
def createParent (out : OutputFile) : Except GraphError Unit :=
  match out.parent with
  | some parent =>
      if parent.isEmpty then .ok ()
      else out.createDirAll.mapError fun e =>
        GraphError.io ("create dirs " ++ parent ++ ": " ++ e)
  | none => .ok ()

/-- Everything before the write: the text to be written. `none` stands for a merge
that never ends. -/
def mergedText (newGraph : Graph) (out : OutputFile) : Except GraphError (Option String) := do
  let prior ← loadOutput serde tables out
  match (merge contentId newGraph prior).map Graph.sorted with
  | none => .ok none
  | some merged => do
      createParent out
      let json ← serde.toNodeLink merged
      .ok (some json)

/-- Merge a graph into the output: the result, and what the file holds then. -/
def mergeIntoOutput (newGraph : Graph) (out : OutputFile) :
    Option (Except GraphError Unit × Option (List UInt8)) :=
  match mergedText serde tables contentId newGraph out with
  | .error e => some (.error e, out.content)
  | .ok none => none
  | .ok (some json) =>
      some ((out.write json).1.mapError fun e =>
        GraphError.io ("write " ++ out.display ++ ": " ++ e), (out.write json).2)

end Command

/-- The file holds the text of a graph. -/
def OutputFile.Records (serde : SerdeJson) (tables : UnicodeTables) (out : OutputFile)
    (prior : Graph) : Prop :=
  ∃ text, out.content.bind decode? = some text ∧ ¬ (trim text).isEmpty ∧
    fromNodeLink serde tables text = .ok prior

/-- What is there of the recorded graph after the merge: a node for every label, where
its first node was unless the new graph defines it; its id and its community when the id
is the content id of the label, labels do not collide and the new graph does not claim
the id; and the edges between its nodes, with their confidence unless the relationship
was stated before. -/
structure KeepsRecorded (contentId : String → UInt32) (newGraph prior merged : Graph) : Prop where
  wellFormed : merged.WellFormed
  nodes : ∀ n ∈ prior.nodes, ∃ m ∈ merged.nodes, m.label = n.label ∧
    (prior.nodes.find? (fun n' => n'.label = n.label) = some n →
      n.label ∉ newGraph.nodes.map Node.label → m.sourceFile = n.sourceFile) ∧
    (Set.InjOn contentId {label | label ∈ (newGraph.nodes ++ prior.nodes).map Node.label} →
      n.id = ⟨contentId n.label⟩ → m.id = n.id ∧
        ((∀ c ∈ newGraph.communities, n.id ∉ c.members) →
          communityMap merged.communities m.id = communityMap prior.communities n.id))
  edges : ∀ earlier e later, prior.edges = earlier ++ e :: later →
    e.source ∈ prior.nodes.map Node.id → e.target ∈ prior.nodes.map Node.id →
      ∃ k, prior.Asserts e k ∧ ∃ f ∈ merged.edges, merged.Asserts f k ∧
        ((∀ e' ∈ newGraph.edges, ¬ newGraph.Asserts e' k) →
          (∀ e' ∈ earlier, ¬ prior.Asserts e' k) → f.confidence = e.confidence)

/-! ## The recorded graph in the merged one -/

/-- Communities that do not list an id do not change its community. -/
theorem communityMap_sortCommunities_append {cs ds : List Community}
    (hsorted : ds.Pairwise fun c d => c.id < d.id) {id : NodeId}
    (hcs : ∀ c ∈ cs, id ∉ c.members) :
    communityMap (sortCommunities (cs ++ ds)) id = communityMap ds id := by
  have hselected : (ds.filter fun c => id ∈ c.members).Pairwise fun c d => c.id ≤ d.id :=
    (hsorted.imp le_of_lt).filter _
  have hnone : cs.filter (fun c => id ∈ c.members) = [] := by
    rw [List.filter_eq_nil_iff]
    intro c hc
    simpa using hcs c hc
  have hfilter : (sortByKey Community.id (cs ++ ds)).filter (fun c => id ∈ c.members) =
      ds.filter fun c => id ∈ c.members := by
    rw [filter_sortByKey_comm, List.filter_append, hnone, List.nil_append,
      sortByKey_eq_self hselected]
  rw [communityMap_eq_getLast?, communityMap_eq_getLast?, sortCommunities, List.filter_map]
  simp only [Function.comp_def, Community.mem_sorted_members, hfilter, List.getLast?_map,
    Option.map_map, Community.sorted_id]

theorem keepsRecorded_of_merge {contentId : String → UInt32} {newGraph prior merged : Graph}
    (hsorted : prior.communities.Pairwise fun c d => c.id < d.id)
    (hmerge : merge contentId newGraph prior = some merged) :
    KeepsRecorded contentId newGraph prior merged where
  wellFormed := merge_wellFormed hmerge
  nodes := by
    intro n hn
    obtain ⟨m, hm, hlabel⟩ := exists_node_of_merge hmerge hn
    refine ⟨m, hm, hlabel, fun hfirst hnew => ?_, fun hinj hid => ?_⟩
    · exact congrArg Prod.fst (location_of_merge hmerge hfirst hm hlabel hnew)
    · have hkept := id_of_merge hmerge hinj hm hlabel hid
      refine ⟨hkept, fun hnone => ?_⟩
      rw [hkept, merge_communities hmerge]
      exact communityMap_sortCommunities_append hsorted hnone
  edges := by
    intro earlier e later he hsource htarget
    exact exists_edge_of_merge hmerge he hsource htarget

/-! ## The command -/

section Runs

variable {serde : SerdeJson} {tables : UnicodeTables} {contentId : String → UInt32}
  {newGraph : Graph} {out : OutputFile}

/-- What was read is what the file holds. -/
theorem content_of_loadOutput {prior : Graph} (h : loadOutput serde tables out = .ok prior)
    (hcontent : out.content.isSome) : ∃ text, out.content.bind decode? = some text ∧
      prior = if (trim text).isEmpty then Graph.new
        else (fromNodeLink serde tables text).toOption.getD Graph.new := by
  unfold loadOutput at h
  rw [if_pos (out.exists_of_content hcontent)] at h
  obtain ⟨text, hread, h⟩ := bind_eq_ok_iff.mp h
  refine ⟨text, out.content_of_read text (mapError_eq_ok_iff.mp hread), ?_⟩
  split at h
  next hblank =>
    cases h
    rw [if_pos hblank]
  next hblank =>
    cases h
    rw [if_neg hblank]

/-- A graph that the file records is the one that is loaded. -/
theorem eq_of_loadOutput {prior recorded : Graph} (h : loadOutput serde tables out = .ok prior)
    (hrecords : out.Records serde tables recorded) : prior = recorded := by
  obtain ⟨text, htext, hblank, hload⟩ := hrecords
  have hcontent : out.content.isSome := by
    cases hc : out.content with
    | none => simp [hc] at htext
    | some bytes => rfl
  obtain ⟨text', htext', heq⟩ := content_of_loadOutput h hcontent
  rw [htext, Option.some.injEq] at htext'
  subst htext'
  rwa [if_neg hblank, hload] at heq

/-- Before the write the command fails, runs forever on too many labels, or has merged
the loaded graph. -/
theorem mergedText_cases (serde : SerdeJson) (tables : UnicodeTables)
    (contentId : String → UInt32) (newGraph : Graph) (out : OutputFile) :
    (∃ e, mergedText serde tables contentId newGraph out = .error e) ∨
      ∃ prior, loadOutput serde tables out = .ok prior ∧
        ((mergedText serde tables contentId newGraph out = .ok none ∧
            merge contentId newGraph prior = none) ∨
          ∃ merged json, merge contentId newGraph prior = some merged ∧
            serde.toNodeLink merged = .ok json ∧
              mergedText serde tables contentId newGraph out = .ok (some json)) := by
  cases htext : mergedText serde tables contentId newGraph out with
  | error e => exact Or.inl ⟨e, rfl⟩
  | ok outcome =>
      unfold mergedText at htext
      obtain ⟨prior, hprior, htext⟩ := bind_eq_ok_iff.mp htext
      refine Or.inr ⟨prior, hprior, ?_⟩
      cases hmerge : merge contentId newGraph prior with
      | none =>
          rw [hmerge] at htext
          cases htext
          exact Or.inl ⟨rfl, rfl⟩
      | some merged =>
          rw [hmerge] at htext
          obtain ⟨-, -, htext⟩ := bind_eq_ok_iff.mp htext
          obtain ⟨json, hjson, htext⟩ := bind_eq_ok_iff.mp htext
          cases htext
          rw [sorted_of_merge hmerge] at hjson
          exact Or.inr ⟨merged, json, rfl, hjson, rfl⟩

/-- A run that ends fails and leaves the file as it was, or hands the text of a merged
graph to the write. A file that is no text is left alone, and the merged graph keeps
what the file records. Only too many labels make the command run forever. -/
theorem mergeIntoOutput_keeps (serde : SerdeJson) (tables : UnicodeTables)
    (contentId : String → UInt32) (newGraph : Graph) (out : OutputFile) :
    (mergeIntoOutput serde tables contentId newGraph out = none ∧
        ∃ prior, loadOutput serde tables out = .ok prior ∧
          2 ^ 32 < (firsts RawNode.label
            ((newGraph.nodes ++ prior.nodes).map Node.toRaw)).length) ∨
      ∃ result left, mergeIntoOutput serde tables contentId newGraph out = some (result, left) ∧
        ((∃ e, result = .error e) ∧ left = out.content ∨
          ∃ merged json, serde.toNodeLink merged = .ok json ∧
            (result = .ok () ∧ left = some (encode json.toList) ∨
              ∃ reason, out.write json = (.error reason, left) ∧
                result = .error (.io ("write " ++ out.display ++ ": " ++ reason))) ∧
            (out.content.isSome → (out.content.bind decode?).isSome) ∧
            ∀ prior, out.Records serde tables prior →
              KeepsRecorded contentId newGraph prior merged) := by
  rcases mergedText_cases serde tables contentId newGraph out with ⟨e, htext⟩ | ⟨prior, hprior, h⟩
  · exact Or.inr ⟨.error e, out.content, by rw [mergeIntoOutput, htext], Or.inl ⟨⟨e, rfl⟩, rfl⟩⟩
  rcases h with ⟨htext, hmerge⟩ | ⟨merged, json, hmerge, hjson, htext⟩
  · refine Or.inl ⟨by rw [mergeIntoOutput, htext], prior, hprior, ?_⟩
    have hsome := mt (merge_isSome_iff contentId newGraph prior).mpr
    rw [hmerge] at hsome
    exact Nat.lt_of_not_le (hsome Bool.false_ne_true)
  · refine Or.inr ⟨_, (out.write json).2, by rw [mergeIntoOutput, htext], Or.inr ?_⟩
    refine ⟨merged, json, hjson, ?_, fun hcontent => ?_, fun recorded hrecords => ?_⟩
    · cases hwrite : (out.write json).1 with
      | ok u => exact Or.inl ⟨rfl, out.content_of_write json hwrite⟩
      | error reason => exact Or.inr ⟨reason, Prod.ext hwrite rfl, rfl⟩
    · obtain ⟨text, htext, -⟩ := content_of_loadOutput hprior hcontent
      rw [htext]
      rfl
    · obtain rfl := eq_of_loadOutput hprior hrecords
      obtain ⟨text, -, -, hload⟩ := hrecords
      exact keepsRecorded_of_merge (pairwise_communities_of_fromNodeLink hload) hmerge

theorem mergeIntoOutput_of_load {prior merged : Graph} {json : String}
    (hload : loadOutput serde tables out = .ok prior) (hparent : createParent out = .ok ())
    (hmerge : merge contentId newGraph prior = some merged)
    (hjson : serde.toNodeLink merged = .ok json) :
    mergeIntoOutput serde tables contentId newGraph out =
      some ((out.write json).1.mapError fun e =>
        GraphError.io ("write " ++ out.display ++ ": " ++ e), (out.write json).2) := by
  have htext : mergedText serde tables contentId newGraph out = .ok (some json) := by
    unfold mergedText
    simp only [hload, ok_bind, hmerge, Option.map_some, sorted_of_merge hmerge, hparent, hjson]
  rw [mergeIntoOutput, htext]

end Runs

/-! ## Examples -/

/-- A file that holds `text` in the current directory and can be written. -/
def OutputFile.holding (text : String) : OutputFile where
  display := "graph.json"
  parent := some ""
  content := some (encode text.toList)
  pathExists := true
  readToString := .ok text
  createDirAll := .ok ()
  write json := (.ok (), some (encode json.toList))
  exists_of_content _ := rfl
  content_of_read := by
    intro text' h
    cases h
    rw [Option.bind_some, decode?_encode, String.ofList_toList]
  content_of_write _ _ := rfl

/-- A recorded graph whose node was numbered by hand. -/
def handNumbered : Graph := { Graph.new with
  nodes := [⟨⟨7⟩, "f", "a.rs", ⟨0, 0, 1, 1⟩⟩]
  communities := [⟨⟨0⟩, "community-0", [⟨7⟩]⟩] }

def fetchedGraph : Graph := { Graph.new with
  nodes := [⟨⟨110748096⟩, "go", "b.rs", ⟨12, 20, 4, 5⟩⟩] }

/-- What is written for both: the recorded node has its content id now. -/
def renumberedFetch : Graph := { handNumbered with
  nodes := fetchedGraph.nodes ++ [⟨⟨3196629914⟩, "f", "a.rs", ⟨0, 0, 1, 1⟩⟩] }

/-- A JSON library that knows the three graphs. -/
def addSerde : SerdeJson :=
  .knowing [nodeLinkEnvelope handNumbered, nodeLinkEnvelope fetchedGraph,
    nodeLinkEnvelope renumberedFetch]

theorem loadOutput_holding {serde : SerdeJson} {tables : UnicodeTables} {text : String}
    (hblank : ¬ (trim text).isEmpty) : loadOutput serde tables (.holding text) =
      .ok ((fromNodeLink serde tables text).toOption.getD Graph.new) := by
  unfold loadOutput OutputFile.holding
  simp only [↓reduceIte, Except.mapError, ok_bind, hblank]
  rfl

/-- A text that starts with a brace is not blank. -/
theorem not_blank_of_brace {chars rest : List Char} (h : chars = '\x7b' :: rest) :
    ¬ (trim (String.ofList chars)).isEmpty := by
  rw [trim_isEmpty_iff, String.toList_ofList, h, List.all_cons]
  simp [isWhitespace]

/-- An exported graph is more than a brace. -/
theorem pretty_nodeLinkEnvelope_ne (g : Graph) : (nodeLinkEnvelope g).pretty [] ≠ ['\x7b'] := by
  rw [nodeLinkEnvelope, JsonValue.pretty]
  · simp
  · exact List.cons_ne_nil _ _

theorem exists_text_handNumbered :
    ∃ text, (OutputFile.holding text).Records addSerde asciiTables handNumbered ∧
      loadOutput addSerde asciiTables (.holding text) = .ok handNumbered := by
  have hround : addSerde.RoundTrips (nodeLinkEnvelope handNumbered) :=
    SerdeJson.knowing_roundTrips (by simp)
  have hloaded : loadedGraph handNumbered = handNumbered := by decide +kernel
  obtain ⟨text, hprint, hfound⟩ := hround
  have hload := @fromNodeLink_of_envelope addSerde asciiTables _ _ hfound
  rw [hloaded] at hload
  have hblank : ¬ (trim text).isEmpty := by
    obtain rfl := Except.ok.inj hprint
    exact not_blank_of_brace rfl
  refine ⟨text, ⟨text, ?_, hblank, hload⟩, ?_⟩
  · rw [OutputFile.holding, Option.bind_some, decode?_encode, String.ofList_toList]
  · rw [loadOutput_holding hblank, hload]
    rfl

theorem fromNodeLink_brace : fromNodeLink addSerde asciiTables (String.ofList ['\x7b']) =
    .error (.schema "invalid JSON: expected value at line 1 column 1") := by
  have hnone : [nodeLinkEnvelope handNumbered, nodeLinkEnvelope fetchedGraph,
      nodeLinkEnvelope renumberedFetch].find? (fun value =>
        String.ofList (value.pretty []) = String.ofList ['\x7b']) = none := by
    simp only [List.find?_eq_none, List.forall_mem_cons, decide_eq_true_eq, String.ofList_inj]
    exact ⟨pretty_nodeLinkEnvelope_ne _, pretty_nodeLinkEnvelope_ne _,
      pretty_nodeLinkEnvelope_ne _, nofun⟩
  unfold fromNodeLink addSerde SerdeJson.knowing
  dsimp only
  rw [hnone]
  rfl

/-- The id of a recorded node changes, and a text that cannot be loaded is replaced. -/
theorem mergeIntoOutput_rewrites :
    (∃ text json, (OutputFile.holding text).Records addSerde asciiTables handNumbered ∧
      addSerde.toNodeLink renumberedFetch = .ok json ∧
      mergeIntoOutput addSerde asciiTables recordedId fetchedGraph (.holding text) =
        some (.ok (), some (encode json.toList)) ∧
      ∃ n ∈ handNumbered.nodes, n.id ∉ renumberedFetch.nodes.map Node.id) ∧
    ∃ text e json, fromNodeLink addSerde asciiTables text = .error e ∧
      addSerde.toNodeLink fetchedGraph = .ok json ∧ json ≠ text ∧
      mergeIntoOutput addSerde asciiTables recordedId fetchedGraph (.holding text) =
        some (.ok (), some (encode json.toList)) := by
  apply And.intro
  · obtain ⟨text, hrecords, hprior⟩ := exists_text_handNumbered
    have hmerge : merge recordedId fetchedGraph handNumbered = some renumberedFetch := by
      decide +kernel
    exact ⟨text, _, hrecords, rfl, mergeIntoOutput_of_load hprior rfl hmerge rfl, by decide⟩
  · have hprior : loadOutput addSerde asciiTables (.holding (String.ofList ['\x7b'])) =
        .ok Graph.new := by
      rw [loadOutput_holding (not_blank_of_brace rfl), fromNodeLink_brace]
      rfl
    have hmerge : merge recordedId fetchedGraph Graph.new = some fetchedGraph := by
      decide +kernel
    refine ⟨_, _, _, fromNodeLink_brace, rfl, ?_, mergeIntoOutput_of_load hprior rfl hmerge rfl⟩
    rw [ne_eq, String.ofList_inj]
    exact pretty_nodeLinkEnvelope_ne fetchedGraph

end HabitatGraph
