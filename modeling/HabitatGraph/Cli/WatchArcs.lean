import HabitatGraph.Foundation.LossyReplay
import HabitatGraph.Habitat.LivePush
import HabitatGraph.Serve.LoadRoundTrip

/-! # Arcs of the watch loop

After each rebuild the watch loop reads the arcs of `graph.json`, posts what changed since
the rebuild before, and keeps what it read. It reads the document on its own, without the
loader, and takes one that it cannot read for one without arcs.
-/

namespace HabitatGraph

open Program StableSort

/-- The label of a node entry, by its id. -/
def nodeLabel (value : JsonValue) : Option (ℕ × String) := do
  let id ← (value.get "id").bind JsonValue.asU64
  let label ← (value.get "label").bind JsonValue.asStr
  pure (id, label)

/-- The arc of a link, if its relation is one of the default ones and its ends are known. -/
def linkArc (idMap : PartialMap ℕ String) (link : JsonValue) : Option Arc := do
  let rel ← (link.get "relation").bind JsonValue.asStr
  if rel ∈ defaultArcRelations then
    let srcId ← (link.get "source").bind JsonValue.asU64
    let tgtId ← (link.get "target").bind JsonValue.asU64
    let producer ← idMap srcId
    let consumer ← idMap tgtId
    pure ⟨producer, consumer, rel⟩
  else none

/-- The arcs of a document. -/
def arcsOfDocument (v : JsonValue) : List Arc :=
  match (v.get "nodes").bind JsonValue.asArray with
  | none => []
  | some nodes =>
      let idMap := PartialMap.ofEntries (nodes.filterMap nodeLabel)
      match (v.get "links").bind JsonValue.asArray with
      | none => []
      | some links => SortedList.sortDedup (links.filterMap (linkArc idMap))

/-- The arcs of what was read of `graph.json`, which is none if it could not be read. -/
def extractArcsFromOut (fromStr : String → Except String JsonValue) (read : Option String) :
    List Arc :=
  match read with
  | none => []
  | some json =>
      match fromStr json with
      | .error _ => []
      | .ok v => arcsOfDocument v

theorem pairwise_extractArcsFromOut (fromStr : String → Except String JsonValue)
    (read : Option String) : (extractArcsFromOut fromStr read).Pairwise (· < ·) := by
  unfold extractArcsFromOut arcsOfDocument
  repeat' split
  all_goals first
    | exact .nil
    | exact SortedList.pairwise_sortDedup _

/-! ## Two readers of one document -/

theorem readU32_eq_ok {entry key : String} {i : ℕ} {v : JsonValue} {n : UInt32}
    (h : readU32 entry i key v = .ok n) :
    (v.get key).bind JsonValue.asU64 = some n.toNat := by
  obtain ⟨raw, hraw, h⟩ := bind_eq_ok_iff.mp h
  rw [toU32] at h
  split at h
  next hlt =>
    cases h
    rw [okOrSchema_eq_ok_iff.mp hraw, UInt32.toNat_ofNat_of_lt' hlt]
  next => cases h

/-- What the loader reads of a node entry, the watch loop reads too. -/
theorem nodeLabel_of_parseNode {i : ℕ} {v : JsonValue} {p : Node × Option UInt32}
    (h : parseNode i v = .ok p) : nodeLabel v = some (p.1.id.get.toNat, p.1.label) := by
  obtain ⟨id, hid, h⟩ := bind_eq_ok_iff.mp h
  obtain ⟨label, hlabel, h⟩ := bind_eq_ok_iff.mp h
  obtain ⟨sourceFile, -, h⟩ := bind_eq_ok_iff.mp h
  obtain ⟨location, -, h⟩ := bind_eq_ok_iff.mp h
  obtain ⟨community, -, h⟩ := bind_eq_ok_iff.mp h
  cases h
  rw [nodeLabel, readU32_eq_ok hid, okOrSchema_eq_ok_iff.mp hlabel]
  rfl

/-- The arc of an edge between labels. -/
def edgeArc (idMap : PartialMap ℕ String) (e : Edge) : Option Arc :=
  if e.relation ∈ defaultArcRelations then
    (idMap e.source.get.toNat).bind fun producer =>
      (idMap e.target.get.toNat).map fun consumer => ⟨producer, consumer, e.relation⟩
  else none

theorem linkArc_of_parseEdge {tables : UnicodeTables} (idMap : PartialMap ℕ String) {i : ℕ}
    {v : JsonValue} {e : Edge} (h : parseEdge tables i v = .ok e) :
    linkArc idMap v = edgeArc idMap e := by
  obtain ⟨source, hsource, h⟩ := bind_eq_ok_iff.mp h
  obtain ⟨target, htarget, h⟩ := bind_eq_ok_iff.mp h
  obtain ⟨relation, hrelation, h⟩ := bind_eq_ok_iff.mp h
  obtain ⟨written, -, h⟩ := bind_eq_ok_iff.mp h
  obtain ⟨confidence, -, h⟩ := bind_eq_ok_iff.mp h
  cases h
  rw [linkArc, okOrSchema_eq_ok_iff.mp hrelation, readU32_eq_ok hsource, readU32_eq_ok htarget,
    edgeArc]
  simp only [Option.bind_eq_bind, Option.bind_some]
  split
  next =>
    refine Option.bind_congr fun producer _ => ?_
    cases idMap target.toNat <;> rfl
  next => rfl

theorem toNat_get_injective : Function.Injective fun id : NodeId => id.get.toNat := by
  rintro ⟨a⟩ ⟨b⟩ h
  exact congrArg NodeId.mk (UInt32.toNat_inj.mp h)

/-- Sorting the nodes by their ids does not change which label counts for an id. -/
theorem ofEntries_labels (nodes : List Node) (id : NodeId) :
    PartialMap.ofEntries (nodes.map fun n => (n.id.get.toNat, n.label)) id.get.toNat =
      PartialMap.ofEntries ((sortByKey Node.id nodes).map fun n => (n.id, n.label)) id := by
  have hrename := PartialMap.ofEntries_map_key toNat_get_injective
    (nodes.map fun n => (n.id, n.label)) id
  rw [List.map_map] at hrename
  have hfilter : ∀ ns : List Node,
      (ns.map fun n => (n.id, n.label)).filter (fun entry => entry.1 = id) =
        (ns.filter fun n => n.id = id).map fun n => (n.id, n.label) :=
    fun ns => List.filter_map
  have hsort : (sortByKey Node.id nodes).filter (fun n => n.id = id) =
      nodes.filter fun n => n.id = id := by
    convert filter_key_sortByKey nodes id
  refine hrename.trans ?_
  rw [← PartialMap.ofEntries_filter (nodes.map _), ← PartialMap.ofEntries_filter (List.map _ _),
    hfilter, hfilter, hsort]

/-- The parts of a document that the loader reads. -/
structure Loads (serde : SerdeJson) (tables : UnicodeTables) (json : String) (g : Graph)
    (nodesArr linksArr : List JsonValue) (parsed : List (Node × Option UInt32))
    (edges : List Edge) : Prop where
  root : ∃ root, serde.fromStr json = .ok root ∧
    (root.get "nodes").bind JsonValue.asArray = some nodesArr ∧
    (root.get "links").bind JsonValue.asArray = some linksArr
  parses : nodesArr.zipIdx.mapM (fun entry => parseNode entry.2 entry.1) = .ok parsed
  parsesLinks : linksArr.zipIdx.mapM (fun entry => parseEdge tables entry.2 entry.1) = .ok edges
  nodes_eq : g.nodes = sortByKey Node.id (parsed.map Prod.fst)
  edges_eq : g.edges = sortByKey Edge.key edges

theorem readArray_eq_ok {key : String} {root : JsonValue} {values : List JsonValue}
    (h : readArray key root = .ok values) :
    (root.get key).bind JsonValue.asArray = some values := by
  obtain ⟨value, hvalue, h⟩ := bind_eq_ok_iff.mp h
  rw [okOrSchema_eq_ok_iff.mp hvalue]
  exact okOrSchema_eq_ok_iff.mp h

theorem loads_of_fromNodeLink {serde : SerdeJson} {tables : UnicodeTables} {json : String}
    {g : Graph} (hload : fromNodeLink serde tables json = .ok g) :
    ∃ nodesArr linksArr parsed edges,
      Loads serde tables json g nodesArr linksArr parsed edges := by
  obtain ⟨root, hroot, h⟩ := bind_eq_ok_iff.mp hload
  obtain ⟨nodesArr, hnodesArr, h⟩ := bind_eq_ok_iff.mp h
  obtain ⟨linksArr, hlinksArr, h⟩ := bind_eq_ok_iff.mp h
  obtain ⟨parsed, hparsed, h⟩ := bind_eq_ok_iff.mp h
  obtain ⟨edges, hedges, h⟩ := bind_eq_ok_iff.mp h
  have hg := Except.ok.inj h
  have hdocument : serde.fromStr json = .ok root := by
    cases hjson : serde.fromStr json with
    | error e =>
        rw [hjson] at hroot
        cases hroot
    | ok v =>
        rw [hjson] at hroot
        exact congrArg Except.ok (Except.ok.inj hroot)
  exact ⟨nodesArr, linksArr, parsed, edges,
    ⟨root, hdocument, readArray_eq_ok hnodesArr, readArray_eq_ok hlinksArr⟩, hparsed, hedges,
    (congrArg Graph.nodes hg).symm, (congrArg Graph.edges hg).symm⟩

/-- Of a document that the loader reads, the watch loop reads the arcs of the graph that is
loaded. Ids may repeat and links dangle: both readers take the last label of an id and
skip a link without one. -/
theorem extractArcsFromOut_of_load {serde : SerdeJson} {tables : UnicodeTables} {json : String}
    {g : Graph} (hload : fromNodeLink serde tables json = .ok g) :
    extractArcsFromOut serde.fromStr (some json) = extractArcs g defaultArcRelations := by
  obtain ⟨nodesArr, linksArr, parsed, edges, hloads⟩ := loads_of_fromNodeLink hload
  obtain ⟨root, hroot, hnodes, hlinks⟩ := hloads.root
  have hlabels : nodesArr.filterMap nodeLabel =
      (parsed.map Prod.fst).map fun n => (n.id.get.toNat, n.label) := by
    rw [filterMap_of_mapM_zipIdx parseNode (fun i v p hp => nodeLabel_of_parseNode hp)
      hloads.parses,
      List.map_map, ← List.filterMap_eq_map]
    rfl
  have harcs : ∀ idMap, linksArr.filterMap (linkArc idMap) = edges.filterMap (edgeArc idMap) :=
    fun idMap => filterMap_of_mapM_zipIdx (parseEdge tables)
      (fun i v e he => linkArc_of_parseEdge idMap he) hloads.parsesLinks
  simp only [extractArcsFromOut, hroot, arcsOfDocument, hnodes, hlinks]
  rw [harcs]
  refine SortedList.eq_of_mem_iff (SortedList.pairwise_sortDedup _)
    (pairwise_extractArcs _ _) fun arc => ?_
  rw [extractArcs, SortedList.mem_sortDedup, SortedList.mem_sortDedup, List.mem_filterMap,
    List.mem_filterMap]
  refine exists_congr fun e => ?_
  rw [List.mem_filter, hloads.edges_eq, hloads.nodes_eq, mem_sortByKey, edgeArc, hlabels,
    ofEntries_labels, ofEntries_labels, decide_eq_true_eq]
  by_cases hrelation : e.relation ∈ defaultArcRelations <;> simp [hrelation]

/-! ## The loop -/

section Loop

variable {F : Type} [NatCast F] [Sub F] [Div F] [Zero F]

/-- The change between the arcs of two rebuilds. -/
def arcDelta (prev next : List Arc) : ArcDelta F where
  newlySevered := SortedDelta.sortedDiff prev next
  newlyHealed := SortedDelta.sortedDiff next prev
  coherenceDelta :=
    let total := max prev.length next.length
    if total = 0 then 0 else ((next.length : F) - (prev.length : F)) / (total : F)

variable (number : F → JsonValue) (serde : SerdeLine) (pusher : DeltaPusher) {ε : Type}

/-- Post the change between two rebuilds. A failure is logged and passed over. -/
def pushArcDelta (prev next : List Arc) : Program PushOp PushAns ε Unit :=
  (pusher.pushDelta number serde.toStr (arcDelta prev next)).ignore

/-- A rebuild that failed, or the `graph.json` that was read after it. -/
inductive Rebuild
  | failed
  | done (read : Option String)
deriving DecidableEq, Repr

/-- The arcs that are kept after the initial build. They are not posted. -/
def initialArcs : Rebuild → List Arc
  | .failed => []
  | .done read => extractArcsFromOut serde.fromStr read

/-- What the loop does after each of some rebuilds. One that failed changes nothing. -/
def watchArcs : List Arc → List Rebuild → Program PushOp PushAns ε (List Arc)
  | prev, [] => .pure prev
  | prev, .failed :: rebuilds => watchArcs prev rebuilds
  | prev, .done read :: rebuilds => do
      let next := extractArcsFromOut serde.fromStr read
      pushArcDelta number serde pusher prev next
      watchArcs next rebuilds

/-- The arcs of the last rebuild that did not fail. -/
def lastArcs : List Arc → List Rebuild → List Arc
  | prev, [] => prev
  | prev, .failed :: rebuilds => lastArcs prev rebuilds
  | _, .done read :: rebuilds => lastArcs (extractArcsFromOut serde.fromStr read) rebuilds

/-- The arcs of the rebuilds that changed them. -/
def snapshots : List Arc → List Rebuild → List (List Arc)
  | _, [] => []
  | prev, .failed :: rebuilds => snapshots prev rebuilds
  | prev, .done read :: rebuilds =>
      let next := extractArcsFromOut serde.fromStr read
      if next = prev then snapshots prev rebuilds else next :: snapshots next rebuilds

/-- The changes between neighbours. -/
def deltas : List Arc → List (List Arc) → List (ArcDelta F)
  | _, [] => []
  | prev, next :: rest => arcDelta prev next :: deltas next rest

/-! ## The services -/

/-- Who a change is posted to. -/
inductive Service
  | pv2
  | povm
deriving DecidableEq, Repr

def Service.endpoint : Service → String
  | .pv2 => pusher.pv2Endpoint
  | .povm => pusher.povmEndpoint

/-- What a service reads of a body. -/
def Service.read : Service → String → Option (List Arc × List Arc)
  | .pv2 => readPv2 serde.fromStr
  | .povm => readPovm serde.fromStr

/-- A change is printed for both services, and its arcs are read back. The coherence need
not be, as a float may lose its last digit. -/
structure Readable (delta : ArcDelta F) (value body : String) : Prop
    extends PrintsDelta number serde.toStr delta value body where
  value_read : readPv2 serde.fromStr value = some (delta.newlySevered, delta.newlyHealed)
  body_read : serde.fromStr body = .ok (povmPayload value)

/-- The arcs that a service has, and which of the bodies posted to it arrived. -/
structure Follower where
  arcs : List Arc
  log : List Bool

/-- A body that is posted arrives and is applied, or is lost, whatever is answered. -/
inductive PostStep (url : String) (read : String → Option (List Arc × List Arc)) :
    Follower → Event PushAns → Follower → Prop
  | other {c : Follower} {url' body : String} {answer : Except GraphError String}
      (hurl : url' ≠ url) : PostStep url read c ⟨.post url' body, answer⟩ c
  | lost {c : Follower} {body : String} {answer : Except GraphError String} :
      PostStep url read c ⟨.post url body, answer⟩ { c with log := c.log ++ [false] }
  | arrives {c : Follower} {body : String} {answer : Except GraphError String}
      {severed healed : List Arc} (hread : read body = some (severed, healed)) :
      PostStep url read c ⟨.post url body, answer⟩
        ⟨SortedDelta.applyDelta severed healed c.arcs, c.log ++ [true]⟩

open LossyReplay

variable {number serde pusher}

omit [NatCast F] [Sub F] [Div F] [Zero F] in
theorem PostStep.eq_of_ne {url url' body : String} {read : String → Option (List Arc × List Arc)}
    {c c' : Follower} {answer : Except GraphError String} (hurl : url' ≠ url)
    (h : PostStep url read c ⟨.post url' body, answer⟩ c') : c' = c := by
  cases h with
  | other => rfl
  | lost => exact absurd rfl hurl
  | arrives => exact absurd rfl hurl

theorem PostStep.update {url body : String} {read : String → Option (List Arc × List Arc)}
    {c c' : Follower} {answer : Except GraphError String} {prev next : List Arc}
    (hread : read body = some ((arcDelta (F := F) prev next).newlySevered,
      (arcDelta (F := F) prev next).newlyHealed))
    (h : PostStep url read c ⟨.post url body, answer⟩ c') :
    ∃ u : Notice Arc, u.next = next ∧ c'.log = c.log ++ [u.arrived] ∧
      c'.arcs = ((View.mk c.arcs prev).update u).belief := by
  cases h with
  | other hurl => exact absurd rfl hurl
  | lost => exact ⟨⟨next, false⟩, rfl, rfl, rfl⟩
  | arrives hread' =>
      rw [hread, Option.some.injEq, Prod.mk.injEq] at hread'
      obtain ⟨rfl, rfl⟩ := hread'
      exact ⟨⟨next, true⟩, rfl, rfl, rfl⟩

/-- A change that is posted to both services is an update of each of them. -/
theorem update_of_steps {service : Service} {prev next : List Arc} {c c' : Follower}
    {value body : String} {answer answer' : Except GraphError String}
    (hreadable : Readable number serde (arcDelta prev next) value body)
    (hsteps : Steps (PostStep (service.endpoint pusher) (service.read serde)) c
      [⟨.post pusher.pv2Endpoint value, answer⟩, ⟨.post pusher.povmEndpoint body, answer'⟩] c') :
    ∃ u : Notice Arc, u.next = next ∧ c'.log = c.log ++ [u.arrived] ∧
      c'.arcs = ((View.mk c.arcs prev).update u).belief := by
  obtain ⟨c₁, hfirst, hrest⟩ := steps_cons_iff.mp hsteps
  obtain ⟨c₂, hsecond, hnil⟩ := steps_cons_iff.mp hrest
  cases hnil
  cases service with
  | pv2 =>
      rw [hsecond.eq_of_ne pusher.endpoint_ne.symm]
      exact hfirst.update hreadable.value_read
  | povm =>
      rw [hfirst.eq_of_ne pusher.endpoint_ne] at hsecond
      exact hsecond.update ((readPovm_payload hreadable.body_read).trans hreadable.value_read)

theorem arcDelta_empty_iff {prev next : List Arc} (hprev : prev.Pairwise (· < ·))
    (hnext : next.Pairwise (· < ·)) :
    (arcDelta (F := F) prev next).newlySevered = [] ∧
      (arcDelta (F := F) prev next).newlyHealed = [] ↔ next = prev := by
  unfold arcDelta
  simp only [SortedDelta.sortedDiff_eq_nil_iff]
  constructor
  · rintro ⟨hsub, hsup⟩
    exact SortedList.eq_of_mem_iff hnext hprev fun arc => ⟨fun h => hsup h, fun h => hsub h⟩
  · rintro rfl
    exact ⟨List.Subset.refl _, List.Subset.refl _⟩

/-- A rebuild that does not change the arcs posts nothing, another one posts its change to
both services. The loop goes on from the new arcs, whatever they answer. -/
theorem traces_watchArcs_done {prev : List Arc} (hprev : prev.Pairwise (· < ·))
    {read : Option String} {rebuilds : List Rebuild} {trace : List (Event PushAns)}
    {result : Except ε (List Arc)}
    (hreadable : extractArcsFromOut serde.fromStr read ≠ prev → ∃ value body,
      Readable number serde (arcDelta prev (extractArcsFromOut serde.fromStr read)) value body)
    (h : Traces (watchArcs number serde pusher prev (.done read :: rebuilds)) trace result) :
    extractArcsFromOut serde.fromStr read = prev ∧
        Traces (watchArcs number serde pusher prev rebuilds) trace result ∨
      extractArcsFromOut serde.fromStr read ≠ prev ∧ ∃ value body answer answer' rest,
        Readable number serde (arcDelta prev (extractArcsFromOut serde.fromStr read)) value body ∧
        trace = [⟨.post pusher.pv2Endpoint value, answer⟩,
          ⟨.post pusher.povmEndpoint body, answer'⟩] ++ rest ∧
        Traces (watchArcs number serde pusher (extractArcsFromOut serde.fromStr read) rebuilds)
          rest result := by
  have hnext := pairwise_extractArcsFromOut serde.fromStr read
  have hempty := arcDelta_empty_iff (F := F) hprev hnext
  rw [watchArcs] at h
  generalize extractArcsFromOut serde.fromStr read = next at *
  by_cases hsame : next = prev
  · refine .inl ⟨hsame, ?_⟩
    obtain ⟨hsevered, hhealed⟩ := hempty.mpr hsame
    rw [pushArcDelta, pushDelta_of_empty pusher hsevered hhealed] at h
    subst hsame
    exact h
  · obtain ⟨value, body, hreadable⟩ := hreadable hsame
    have hdelta : (arcDelta (F := F) prev next).newlySevered ≠ [] ∨
        (arcDelta (F := F) prev next).newlyHealed ≠ [] :=
      not_and_or.mp fun hboth => hsame (hempty.mp hboth)
    have hpush : ∀ {trace : List (Event PushAns)} {result : Except ε Unit},
        Traces (pushArcDelta number serde pusher prev next) trace result → result = .ok () ∧
          ∃ answer answer', trace = [⟨.post pusher.pv2Endpoint value, answer⟩,
            ⟨.post pusher.povmEndpoint body, answer'⟩] := by
      intro trace result hpush
      obtain ⟨rfl, result', hpush⟩ := traces_ignore_iff.mp hpush
      exact ⟨rfl, ((traces_pushDelta_iff hreadable.toPrintsDelta hdelta).mp hpush).2⟩
    refine .inr ⟨hsame, value, body, ?_⟩
    cases result with
    | ok last =>
        obtain ⟨a, before, after, rfl, hbefore, hafter⟩ := traces_bind_ok_iff.mp h
        obtain ⟨-, answer, answer', rfl⟩ := hpush hbefore
        exact ⟨answer, answer', after, hreadable, rfl, hafter⟩
    | error e =>
        rcases traces_bind_error h with hfail | ⟨a, before, after, rfl, hbefore, hafter⟩
        · cases (hpush hfail).1
        · obtain ⟨-, answer, answer', rfl⟩ := hpush hbefore
          exact ⟨answer, answer', after, hreadable, rfl, hafter⟩

/-- The loop never fails, and what a service has after it is what it makes of the updates
that arrived. -/
theorem updates_of_run {service : Service} {first : List Arc} (hfirst : first.Pairwise (· < ·))
    {rebuilds : List Rebuild}
    (hreadable : ∀ delta ∈ deltas (F := F) first (snapshots serde first rebuilds),
      ∃ value body, Readable number serde delta value body)
    {c c' : Follower} {trace : List (Event PushAns)} {result : Except ε (List Arc)}
    (hrun : Run (PostStep (service.endpoint pusher) (service.read serde))
      (watchArcs number serde pusher first rebuilds) c trace result c') :
    ∃ updates : List (Notice Arc), updates.map Notice.next = snapshots serde first rebuilds ∧
      c'.log = c.log ++ updates.map Notice.arrived ∧
      c'.arcs = ((View.mk c.arcs first).after updates).belief ∧
      ((View.mk c.arcs first).after updates).actual = lastArcs serde first rebuilds ∧
      result = .ok (lastArcs serde first rebuilds) := by
  obtain ⟨htraces, hsteps⟩ := hrun
  induction rebuilds generalizing first c trace with
  | nil =>
      obtain ⟨rfl, rfl⟩ := traces_pure_iff.mp htraces
      cases hsteps
      exact ⟨[], rfl, (List.append_nil _).symm, rfl, rfl, rfl⟩
  | cons rebuild rebuilds ih =>
      cases rebuild with
      | failed => exact ih hfirst hreadable htraces hsteps
      | done read =>
          have hnext := pairwise_extractArcsFromOut serde.fromStr read
          rw [snapshots] at hreadable ⊢
          rcases traces_watchArcs_done hfirst
              (fun hne => hreadable _ (by rw [if_neg hne]; exact List.mem_cons_self)) htraces
            with ⟨hsame, hrest⟩ | ⟨hne, value, body, answer, answer', rest, hbody, rfl, hrest⟩
          · rw [if_pos hsame] at hreadable ⊢
            rw [lastArcs, hsame]
            exact ih hfirst hreadable hrest hsteps
          · rw [if_neg hne] at hreadable ⊢
            obtain ⟨c₁, hpost, hsteps⟩ := steps_append_iff.mp hsteps
            obtain ⟨u, hu, hlog, harcs⟩ := update_of_steps hbody hpost
            obtain ⟨updates, hsnapshots, hlog', harcs', hactual, hresult⟩ := ih hnext
              (fun delta hdelta => hreadable delta (List.mem_cons_of_mem _ hdelta)) hrest hsteps
            have hview : View.mk c₁.arcs (extractArcsFromOut serde.fromStr read) =
                (View.mk c.arcs first).update u := by
              rw [harcs, ← hu]
              rfl
            rw [hview] at harcs' hactual
            refine ⟨u :: updates, ?_, ?_, harcs', hactual, hresult⟩
            · rw [List.map_cons, hu, hsnapshots]
            · rw [hlog', hlog, List.map_cons, List.append_assoc, List.singleton_append]

/-- Which of the bodies that changed an arc arrived. -/
def arrivals (a : Arc) (first : List Arc) (nexts : List (List Arc)) (log : List Bool) : List Bool :=
  changes a first (nexts.zipWith Notice.mk log)

theorem zipWith_updates (updates : List (Notice Arc)) :
    (updates.map Notice.next).zipWith Notice.mk (updates.map Notice.arrived) = updates := by
  induction updates with
  | nil => rfl
  | cons u updates ih => rw [List.map_cons, List.map_cons, List.zipWith_cons_cons, ih]

theorem pairwise_snapshots {first : List Arc} (rebuilds : List Rebuild) :
    ∀ next ∈ snapshots serde first rebuilds, next.Pairwise (· < ·) := by
  induction rebuilds generalizing first with
  | nil => nofun
  | cons rebuild rebuilds ih =>
      cases rebuild with
      | failed => exact ih
      | done read =>
          rw [snapshots]
          split
          next => exact ih
          next =>
            exact List.forall_mem_cons.mpr ⟨pairwise_extractArcsFromOut serde.fromStr read, ih⟩

/-- The arcs that a service keeps over every sequence of rebuilds, failed ones included, and
whatever the services answer. One that gets every change from the initial build on has
the arcs of the last rebuild. When changes are lost, it is right about an arc of which a
change has arrived exactly when those of its changes that were lost since are even in
number, whatever it had before and whatever else was lost; of an arc of which none has
arrived, it is right when they are even and it was right, or odd and it was wrong. -/
theorem follower_of_run {service : Service} {initial : Rebuild} {rebuilds : List Rebuild}
    (hreadable : ∀ delta ∈ deltas (F := F) (initialArcs serde initial)
      (snapshots serde (initialArcs serde initial) rebuilds),
      ∃ value body, Readable number serde delta value body)
    {belief : List Arc} {c : Follower} {trace : List (Event PushAns)}
    {result : Except ε (List Arc)}
    (hrun : Run (PostStep (service.endpoint pusher) (service.read serde))
      (watchArcs number serde pusher (initialArcs serde initial) rebuilds) ⟨belief, []⟩ trace
      result c) :
    result = .ok (lastArcs serde (initialArcs serde initial) rebuilds) ∧
      (belief = initialArcs serde initial → (∀ arrived ∈ c.log, arrived = true) →
        c.arcs = lastArcs serde (initialArcs serde initial) rebuilds) ∧
      ∀ a k,
        (∀ before, arrivals a (initialArcs serde initial)
              (snapshots serde (initialArcs serde initial) rebuilds) c.log =
            before ++ true :: List.replicate k false →
          ((a ∈ c.arcs ↔ a ∈ lastArcs serde (initialArcs serde initial) rebuilds) ↔ Even k)) ∧
        (arrivals a (initialArcs serde initial)
              (snapshots serde (initialArcs serde initial) rebuilds) c.log =
            List.replicate k false →
          ((a ∈ c.arcs ↔ a ∈ lastArcs serde (initialArcs serde initial) rebuilds) ↔
            ((a ∈ belief ↔ a ∈ initialArcs serde initial) ↔ Even k))) := by
  have hfirst : (initialArcs serde initial).Pairwise (· < ·) := by
    cases initial with
    | failed => exact .nil
    | done read => exact pairwise_extractArcsFromOut serde.fromStr read
  obtain ⟨updates, hsnapshots, hlog, harcs, hactual, hresult⟩ :=
    updates_of_run hfirst hreadable hrun
  have hsorted : ∀ next ∈ snapshots serde (initialArcs serde initial) rebuilds,
      next.Pairwise (· < ·) := pairwise_snapshots rebuilds
  rw [List.nil_append] at hlog
  rw [← hsnapshots] at hsorted
  simp only [arrivals, ← hsnapshots, hlog, zipWith_updates, ← hactual]
  refine ⟨hactual ▸ hresult, ?_, fun a k => ⟨fun before hchanges => ?_, fun hchanges => ?_⟩⟩
  · rintro rfl harrived
    rw [harcs]
    refine belief_after rfl hfirst fun u hu => ⟨harrived _ (List.mem_map_of_mem hu), ?_⟩
    exact hsorted _ (List.mem_map_of_mem hu)
  · rw [harcs]
    have hright : ((View.mk belief (initialArcs serde initial)).after updates).Agrees a ↔ Even k :=
      agrees_iff_even hchanges
    exact hright
  · rw [harcs]
    have hright : ((View.mk belief (initialArcs serde initial)).after updates).Agrees a ↔
        ((View.mk belief (initialArcs serde initial)).Agrees a ↔ Even k) :=
      agrees_iff_of_lost hchanges
    exact hright

end Loop

/-! ## A call that comes and goes -/

namespace CallComes

/-- A `graph.json` with one call. -/
def document : String :=
  "\x7b\"directed\":true,\"graph\":\x7b\"schema_version\":\"habitat-graph.graph.v0\"\x7d," ++
    "\"links\":[\x7b\"confidence\":\"INFERRED\",\"relation\":\"calls\",\"source\":2," ++
    "\"target\":1,\"weight\":0.8\x7d],\"multigraph\":false,\"nodes\":[" ++
    "\x7b\"community\":null,\"id\":1,\"label\":\"parse\",\"source_file\":\"a.rs\"," ++
    "\"source_location\":\"L7\"\x7d,\x7b\"community\":4,\"id\":2,\"label\":\"Lexer\"," ++
    "\"source_file\":\"a.rs\",\"source_location\":\"L30\"\x7d]\x7d"

def call : Arc := ⟨"Lexer", "parse", "calls"⟩

/-- A change of coherence from nothing to all, or back. -/
def number (coherence : ℚ) : JsonValue :=
  if coherence < 0 then .number (.float "-1.0") else .number (.tenths 10)

def printedCall : String :=
  "[\x7b\"consumer\":\"parse\",\"producer\":\"Lexer\",\"relation\":\"calls\"\x7d]"

def escapedCall : String :=
  "[\x7b\\\"consumer\\\":\\\"parse\\\",\\\"producer\\\":\\\"Lexer\\\"," ++
    "\\\"relation\\\":\\\"calls\\\"\x7d]"

def value (coherence healed severed : String) : String :=
  "\x7b\"coherence_delta\":" ++ coherence ++ ",\"newly_healed\":" ++ healed ++
    ",\"newly_severed\":" ++ severed ++ "\x7d"

def body (coherence healed severed : String) : String :=
  "\x7b\"key\":\"arc_delta\",\"namespace\":\"habitat_graph\",\"value\":\"" ++
    "\x7b\\\"coherence_delta\\\":" ++ coherence ++ ",\\\"newly_healed\\\":" ++ healed ++
    ",\\\"newly_severed\\\":" ++ severed ++ "\x7d\"\x7d"

def comesValue : String := value "1.0" printedCall "[]"

def comesBody : String := body "1.0" escapedCall "[]"

def goesValue : String := value "-1.0" "[]" printedCall

def goesBody : String := body "-1.0" "[]" escapedCall

/-- A coherence that is not read back to its last digit. -/
def readNumber (_ : ℚ) : JsonValue := .number (.float "0.9999999999999999")

/-- A JSON library that knows these texts. -/
def serde : SerdeLine where
  toStringPretty json := .ok (String.ofList (json.pretty []))
  fromStr text :=
    if text = document then .ok (nodeLinkEnvelope callerGraph)
    else if text = comesValue then .ok (deltaPayload readNumber (arcDelta [] [call]))
    else if text = goesValue then .ok (deltaPayload readNumber (arcDelta [call] []))
    else if text = comesBody then .ok (povmPayload comesValue)
    else if text = goesBody then .ok (povmPayload goesValue)
    else .error "expected value at line 1 column 1"
  display json := String.ofList json.compact
  toStr json :=
    match (json.get "value").bind JsonValue.asStr, arcsOf "newly_healed" json with
    | some text, _ => .ok (if text = comesValue then comesBody else goesBody)
    | none, some [] => .ok goesValue
    | none, _ => .ok comesValue

theorem readable_comes : Readable number serde (arcDelta [] [call]) comesValue comesBody where
  value_eq := rfl
  body_eq := rfl
  value_read := by
    have hread : serde.fromStr comesValue =
        .ok (deltaPayload readNumber (arcDelta [] [call])) := by
      have hdocument : comesValue ≠ document := by decide
      rw [serde]
      dsimp only
      rw [if_neg hdocument, if_pos rfl]
    exact readPv2_payload hread
  body_read := by
    have hothers : comesBody ≠ document ∧ comesBody ≠ comesValue ∧ comesBody ≠ goesValue := by
      decide
    rw [serde]
    dsimp only
    rw [if_neg hothers.1, if_neg hothers.2.1, if_neg hothers.2.2, if_pos rfl]

theorem readable_goes : Readable number serde (arcDelta [call] []) goesValue goesBody where
  value_eq := rfl
  body_eq := rfl
  value_read := by
    have hread : serde.fromStr goesValue =
        .ok (deltaPayload readNumber (arcDelta [call] [])) := by
      have hothers : goesValue ≠ document ∧ goesValue ≠ comesValue := by decide
      rw [serde]
      dsimp only
      rw [if_neg hothers.1, if_neg hothers.2, if_pos rfl]
    exact readPv2_payload hread
  body_read := by
    have hothers : goesBody ≠ document ∧ goesBody ≠ comesValue ∧ goesBody ≠ goesValue ∧
        goesBody ≠ comesBody := by decide
    rw [serde]
    dsimp only
    rw [if_neg hothers.1, if_neg hothers.2.1, if_neg hothers.2.2.1, if_neg hothers.2.2.2,
      if_pos rfl]

theorem extractArcsFromOut_document :
    extractArcsFromOut serde.fromStr (some document) = [call] := by
  have hread : serde.fromStr document = .ok (nodeLinkEnvelope callerGraph) := by
    rw [serde]
    dsimp only
    rw [if_pos rfl]
  rw [extractArcsFromOut, hread]
  decide

/-- The watch loop reads the arcs of the graph that the loader reads. -/
theorem extractArcsFromOut_of_load_caller :
    extractArcsFromOut serde.fromStr (some document) =
      extractArcs (loadedGraph callerGraph) defaultArcRelations := by
  have hload : fromNodeLink serde.toSerdeJson asciiTables document =
      .ok (loadedGraph callerGraph) := by
    refine fromNodeLink_of_envelope ?_
    rw [serde]
    dsimp only
    rw [if_pos rfl]
  exact extractArcsFromOut_of_load hload

/-- The initial build fails; then the call comes, a build fails, `graph.json` cannot be
read, and the call comes again. -/
def rebuilds : List Rebuild :=
  [.done (some document), .failed, .done none, .done (some document)]

/-- The post to PV2 is refused, the one to POVM is answered. -/
def posts (value body : String) : List (Event PushAns) :=
  [⟨.post DeltaPusher.new.pv2Endpoint value, .error (.backend "connection refused")⟩,
    ⟨.post DeltaPusher.new.povmEndpoint body, .ok ""⟩]

theorem traces_pushArcDelta {prev next : List Arc} {value body : String}
    (hreadable : Readable number serde (arcDelta (F := ℚ) prev next) value body)
    (hdelta : (arcDelta (F := ℚ) prev next).newlySevered ≠ [] ∨
      (arcDelta (F := ℚ) prev next).newlyHealed ≠ []) :
    Traces (pushArcDelta (ε := String) number serde .new prev next) (posts value body)
      (.ok ()) :=
  traces_ignore_iff.mpr ⟨rfl, _,
    (traces_pushDelta_iff hreadable.toPrintsDelta hdelta).mpr ⟨rfl, _, _, rfl⟩⟩

/-- POVM gets the first change; the others are lost. -/
theorem run : Run (PostStep (Service.povm.endpoint .new) (Service.povm.read serde))
    (watchArcs (ε := String) number serde .new (initialArcs serde .failed) rebuilds) ⟨[], []⟩
    (posts comesValue comesBody ++ (posts goesValue goesBody ++ posts comesValue comesBody))
    (.ok [call]) ⟨[call], [true, false, false]⟩ where
  traces := by
    have hcomes := traces_pushArcDelta readable_comes (.inr (by decide))
    have hgoes := traces_pushArcDelta readable_goes (.inl (by decide))
    rw [rebuilds, watchArcs, extractArcsFromOut_document]
    refine traces_bind_ok_iff.mpr ⟨(), _, _, rfl, hcomes, ?_⟩
    rw [watchArcs, watchArcs]
    refine traces_bind_ok_iff.mpr ⟨(), _, _, rfl, hgoes, ?_⟩
    rw [watchArcs, extractArcsFromOut_document]
    exact traces_bind_ok_iff.mpr ⟨(), _, [], (List.append_nil _).symm, hcomes, .pure [call]⟩
  steps := by
    have hread := (readPovm_payload readable_comes.body_read).trans readable_comes.value_read
    have happly : SortedDelta.applyDelta (arcDelta (F := ℚ) [] [call]).newlySevered
        (arcDelta (F := ℚ) [] [call]).newlyHealed [] = [call] := by decide
    have harrives : PostStep (Service.povm.endpoint .new) (Service.povm.read serde) ⟨[], []⟩
        ⟨.post DeltaPusher.new.povmEndpoint comesBody, .ok ""⟩
        ⟨SortedDelta.applyDelta (arcDelta (F := ℚ) [] [call]).newlySevered
          (arcDelta (F := ℚ) [] [call]).newlyHealed [], [true]⟩ := .arrives hread
    rw [happly] at harrives
    have hother := DeltaPusher.new.endpoint_ne
    exact .cons (.other hother) (.cons harrives (.cons (.other hother) (.cons .lost
      (.cons (.other hother) (.cons .lost (.nil _))))))

/-- Two changes were lost after one that arrived, and POVM is right about the call again. -/
theorem follower_of_run_call :
    (call ∈ [call] ↔ call ∈ lastArcs serde [] rebuilds) ↔ Even 2 := by
  have hsnapshots : snapshots serde (initialArcs serde .failed) rebuilds =
      [[call], [], [call]] := by
    simp only [rebuilds, snapshots, extractArcsFromOut_document]
    rfl
  have hreadable : ∀ delta ∈ deltas (F := ℚ) (initialArcs serde .failed)
      (snapshots serde (initialArcs serde .failed) rebuilds),
      ∃ value body, Readable number serde delta value body := by
    rw [hsnapshots]
    simp only [deltas, List.forall_mem_cons]
    exact ⟨⟨_, _, readable_comes⟩, ⟨_, _, readable_goes⟩, ⟨_, _, readable_comes⟩, by simp⟩
  refine ((follower_of_run hreadable run).2.2 call 2).1 [] ?_
  rw [hsnapshots]
  decide

end CallComes

end HabitatGraph
