import HabitatGraph.Foundation.BreadthFirst
import HabitatGraph.Serve.LabelIndex
import Mathlib.Logic.Relation

/-! # Queries and paths over a loaded graph

`findByLabel` resolves a needle through the label index. `shortestPath` searches
the edges in both directions from the first node of one label to the first of
another.
-/

namespace HabitatGraph

open BreadthFirst SortedList StableSort

/-! ## Finding nodes -/

/-- The nodes whose label contains the needle, in ascending order of their ids. -/
def findByLabel (toLowercase : String → String) (graph : Graph) (needle : String) : List Node :=
  let byId := PartialMap.ofEntries (graph.nodes.map fun node => (node.id, node))
  ((LabelIndex.build toLowercase graph).find toLowercase needle).filterMap byId

/-- With distinct ids the index agrees with the scan of all nodes. -/
theorem findByLabel_eq_scan (toLowercase : String → String) {graph : Graph}
    (hdistinct : (graph.nodes.map Node.id).Nodup) (needle : String) :
    findByLabel toLowercase graph needle =
      sortByKey Node.id (graph.nodes.filter fun node =>
        strContains (toLowercase node.label) (toLowercase needle)) := by
  obtain ⟨hsorted, hfind⟩ := @LabelIndex.find_carriers toLowercase graph hdistinct needle
  have hentries : ((graph.nodes.map fun node => (node.id, node)).map Prod.fst).Nodup := by
    simpa [Function.comp_def] using hdistinct
  have hbyId : ∀ {id node}, PartialMap.ofEntries (graph.nodes.map fun node => (node.id, node)) id =
      some node ↔ node ∈ graph.nodes ∧ node.id = id := by
    intro id node
    rw [PartialMap.ofEntries_eq_some_iff hentries]
    simp [and_comm]
  refine @eq_of_pairwise_lt_of_mem_iff _ _ _ Node.id _ _ ?_ ?_ ?_
  · refine hsorted.filterMap _ ?_
    intro a b hab node hnode node' hnode'
    rw [(hbyId.mp hnode).2, (hbyId.mp hnode').2]
    exact hab
  · apply pairwise_lt_of_nodup (pairwise_sortByKey _)
    rw [((sortByKey_perm _).map Node.id).nodup_iff]
    exact hdistinct.sublist (List.filter_sublist.map Node.id)
  · intro node
    rw [mem_sortByKey, List.mem_filter, findByLabel, List.mem_filterMap]
    simp only [hbyId, hfind, LabelIndex.Carries]
    constructor
    · rintro ⟨id, ⟨other, hother, hid, hcontains⟩, hnode, rfl⟩
      rw [KeyedList.eq_of_mem_of_key_eq hdistinct hother hnode hid] at hcontains
      exact ⟨hnode, hcontains⟩
    · rintro ⟨hnode, hcontains⟩
      exact ⟨node.id, ⟨node, hnode, rfl, hcontains⟩, hnode, rfl⟩

/-! ## Shortest paths -/

/-- Every node's neighbours along its edges, taken in both directions. -/
def adjacency (graph : Graph) : PartialMap NodeId (List NodeId) := fun id =>
  (PartialMap.grouped (graph.edges.flatMap fun edge =>
    [(edge.source, edge.target), (edge.target, edge.source)]) id).map sortDedup

def neighbors (graph : Graph) (id : NodeId) : List NodeId := (adjacency graph id).getD []

/-- The first node that carries a label. -/
def firstId (graph : Graph) (label : String) : Option NodeId :=
  (graph.nodes.find? fun node => decide (node.label = label)).map Node.id

/-- More than there are ids on the edges, and the source. -/
def searchFuel (graph : Graph) : Nat := 2 * graph.edges.length + 2

/-- The search from one id for another. -/
def bfs (graph : Graph) (src dst : NodeId) : Search NodeId :=
  search (neighbors graph) dst (searchFuel graph) (Search.start src)

/-- The shortest path between the first nodes of two labels. -/
def shortestPath (graph : Graph) (fromLabel toLabel : String) : Option (List NodeId) := do
  let src ← firstId graph fromLabel
  let dst ← firstId graph toLabel
  if src = dst then some [src]
  else
    let predecessors := (bfs graph src dst).pred
    if (predecessors dst).isNone then none
    else (walkBack predecessors (searchFuel graph) dst).map List.reverse

/-! ## What a path is -/

/-- Some edge joins two ids, in either direction. -/
def Joined (graph : Graph) (a b : NodeId) : Prop :=
  ∃ edge ∈ graph.edges, (edge.source = a ∧ edge.target = b) ∨ (edge.source = b ∧ edge.target = a)

/-- A path leads along edges from one id to another. -/
structure IsPath (graph : Graph) (src dst : NodeId) (path : List NodeId) : Prop where
  head : path.head? = some src
  last : path.getLast? = some dst
  joined : path.IsChain (Joined graph)

theorem mem_neighbors {graph : Graph} {a b : NodeId} :
    b ∈ neighbors graph a ↔ Joined graph a b := by
  have hmem : b ∈ (PartialMap.grouped (graph.edges.flatMap fun edge =>
      [(edge.source, edge.target), (edge.target, edge.source)]) a).getD [] ↔ _ :=
    PartialMap.mem_getD_grouped
  have hneighbors : b ∈ neighbors graph a ↔ b ∈ (PartialMap.grouped (graph.edges.flatMap fun edge =>
      [(edge.source, edge.target), (edge.target, edge.source)]) a).getD [] := by
    unfold neighbors adjacency
    cases PartialMap.grouped (graph.edges.flatMap fun edge =>
      [(edge.source, edge.target), (edge.target, edge.source)]) a <;> simp
  rw [hneighbors, hmem, Joined]
  simp only [List.mem_flatMap, List.mem_cons, Prod.mk.injEq, List.not_mem_nil, or_false]
  refine exists_congr fun edge => and_congr_right fun _ => ?_
  rw [eq_comm, @eq_comm _ b, @eq_comm _ a edge.target, @eq_comm _ b edge.source,
    and_comm (a := edge.target = a)]

theorem pairwise_neighbors (graph : Graph) (id : NodeId) :
    (neighbors graph id).Pairwise (· < ·) := by
  unfold neighbors adjacency
  cases PartialMap.grouped (graph.edges.flatMap fun edge =>
    [(edge.source, edge.target), (edge.target, edge.source)]) id with
  | none => exact List.Pairwise.nil
  | some ids => exact pairwise_sortDedup ids

theorem isPath_iff {graph : Graph} {src dst : NodeId} {path : List NodeId} :
    IsPath graph src dst path ↔ Path (neighbors graph) src path dst := by
  constructor
  · intro hpath
    exact Path.of_isChain hpath.head hpath.last
      (hpath.joined.imp fun _ _ hjoined => mem_neighbors.mpr hjoined)
  · intro hpath
    exact ⟨hpath.head?, hpath.getLast?,
      hpath.isChain.imp fun _ _ hmem => mem_neighbors.mp hmem⟩

/-- Two ids are connected when a path leads from one to the other. -/
theorem reflTransGen_iff_exists_path {graph : Graph} {src dst : NodeId} :
    Relation.ReflTransGen (Joined graph) src dst ↔ ∃ path, IsPath graph src dst path := by
  simp only [isPath_iff]
  constructor
  · intro hconnected
    induction hconnected with
    | refl => exact ⟨[src], Path.start⟩
    | tail _ hjoined ih =>
        obtain ⟨path, hpath⟩ := ih
        exact ⟨_, hpath.snoc (mem_neighbors.mpr hjoined)⟩
  · intro ⟨path, hpath⟩
    induction hpath with
    | start => exact Relation.ReflTransGen.refl
    | snoc _ hmem ih => exact ih.tail (mem_neighbors.mp hmem)

/-! ## Optimal and canonical -/

/-- The least path: none is shorter, and of those as short none comes before it. -/
structure IsLeastPath (graph : Graph) (src dst : NodeId) (path : List NodeId) : Prop where
  isPath : IsPath graph src dst path
  nodup : path.Nodup
  minimal : ∀ other, IsPath graph src dst other → path.length ≤ other.length
  first : ∀ other, IsPath graph src dst other → other.length = path.length → path ≤ other

theorem isLeastPath_of_rank_le {graph : Graph} {src dst : NodeId} {path : List NodeId}
    (hpath : Path (neighbors graph) src path dst) (hnodup : path.Nodup)
    (hleast : ∀ other, Path (neighbors graph) src other dst → rank path ≤ rank other) :
    IsLeastPath graph src dst path where
  isPath := isPath_iff.mpr hpath
  nodup := hnodup
  minimal other hother := by
    rcases rank_le_iff.mp (hleast other (isPath_iff.mp hother)) with hlt | ⟨heq, -⟩
    · exact hlt.le
    · exact heq.le
  first other hother hlength := by
    rcases rank_le_iff.mp (hleast other (isPath_iff.mp hother)) with hlt | ⟨-, hle⟩
    · omega
    · exact hle

theorem IsLeastPath.unique {graph : Graph} {src dst : NodeId} {path path' : List NodeId}
    (hpath : IsLeastPath graph src dst path) (hpath' : IsLeastPath graph src dst path') :
    path = path' := by
  have hlength : path'.length = path.length :=
    le_antisymm (hpath'.minimal path hpath.isPath) (hpath.minimal path' hpath'.isPath)
  exact le_antisymm (hpath.first path' hpath'.isPath hlength)
    (hpath'.first path hpath.isPath hlength.symm)

theorem isLeastPath_self (graph : Graph) (src : NodeId) : IsLeastPath graph src src [src] := by
  apply isLeastPath_of_rank_le Path.start (List.nodup_singleton src)
  intro other hother
  cases hother with
  | start => exact le_rfl
  | snoc hp _ =>
      have hpos := hp.length_pos
      exact rank_le_iff.mpr (Or.inl (by simp; omega))

/-- The ids the search can meet. -/
def reachable (graph : Graph) (src : NodeId) : List NodeId :=
  src :: graph.edges.flatMap fun edge => [edge.source, edge.target]

theorem bfs_spec (graph : Graph) {src dst : NodeId} (hne : dst ≠ src) :
    ((bfs graph src dst).queue = [] ∧ (bfs graph src dst).pred dst = none ∧
      ¬ ∃ path, IsPath graph src dst path) ∨
    ((bfs graph src dst).stopped = true ∧ ((bfs graph src dst).pred dst).isSome ∧
      ∃ path, walkBack (bfs graph src dst).pred (searchFuel graph) dst = some path.reverse ∧
        IsLeastPath graph src dst path) := by
  have hU : ∀ u, ∀ v ∈ neighbors graph u, v ∈ reachable graph src := by
    intro u v hv
    obtain ⟨edge, hedge, hends⟩ := mem_neighbors.mp hv
    refine List.mem_cons_of_mem _ (List.mem_flatMap.mpr ⟨edge, hedge, ?_⟩)
    rcases hends with ⟨-, rfl⟩ | ⟨rfl, -⟩ <;> simp
  have hfuel : (reachable graph src).length < searchFuel graph := by
    simp [reachable, searchFuel]
    omega
  rcases search_start_spec (pairwise_neighbors graph) List.mem_cons_self hU hfuel hne with
    ⟨hqueue, hnone, hpath⟩ | ⟨hstopped, hsome, path, hwalk, hpath, hnodup, hleast⟩
  · refine Or.inl ⟨hqueue, hnone, ?_⟩
    simpa only [isPath_iff] using hpath
  · exact Or.inr ⟨hstopped, hsome, path, hwalk, isLeastPath_of_rank_le hpath hnodup hleast⟩

/-- Between two nodes `shortestPath` returns the least path, if there is one. -/
theorem shortestPath_of_firstId {graph : Graph} {fromLabel toLabel : String} {src dst : NodeId}
    (hsrc : firstId graph fromLabel = some src) (hdst : firstId graph toLabel = some dst) :
    (shortestPath graph fromLabel toLabel = none ∧ ¬ ∃ path, IsPath graph src dst path) ∨
      ∃ path, shortestPath graph fromLabel toLabel = some path ∧
        IsLeastPath graph src dst path := by
  simp only [shortestPath, hsrc, hdst, Option.bind_eq_bind, Option.bind_some]
  by_cases heq : src = dst
  · subst heq
    exact Or.inr ⟨[src], by simp, isLeastPath_self graph src⟩
  · rcases bfs_spec graph (Ne.symm heq) with ⟨-, hnone, hpath⟩ | ⟨-, hsome, path, hwalk, hleast⟩
    · exact Or.inl ⟨by simp [heq, hnone], hpath⟩
    · refine Or.inr ⟨path, ?_, hleast⟩
      rw [← Option.not_isNone, Bool.not_eq_true'] at hsome
      simp [heq, hsome, hwalk]

theorem shortestPath_eq_none_of_firstId {graph : Graph} {fromLabel toLabel : String}
    (habsent : firstId graph fromLabel = none ∨ firstId graph toLabel = none) :
    shortestPath graph fromLabel toLabel = none := by
  rcases habsent with h | h
  · simp [shortestPath, h]
  · cases hfrom : firstId graph fromLabel <;> simp [shortestPath, h, hfrom]

theorem shortestPath_eq_none_iff (graph : Graph) (fromLabel toLabel : String) :
    shortestPath graph fromLabel toLabel = none ↔
      ¬ ∃ src dst, firstId graph fromLabel = some src ∧ firstId graph toLabel = some dst ∧
        Relation.ReflTransGen (Joined graph) src dst := by
  simp only [reflTransGen_iff_exists_path]
  cases hsrc : firstId graph fromLabel with
  | none => simp [shortestPath_eq_none_of_firstId (Or.inl hsrc)]
  | some src =>
      cases hdst : firstId graph toLabel with
      | none => simp [shortestPath_eq_none_of_firstId (Or.inr hdst)]
      | some dst =>
          rcases shortestPath_of_firstId hsrc hdst with ⟨hnone, hpath⟩ | ⟨path, hsome, hleast⟩
          · simpa [hnone] using hpath
          · simpa [hsome] using ⟨path, hleast.isPath⟩

theorem isLeastPath_of_shortestPath {graph : Graph} {fromLabel toLabel : String}
    {path : List NodeId} (hpath : shortestPath graph fromLabel toLabel = some path) :
    ∃ src dst, firstId graph fromLabel = some src ∧ firstId graph toLabel = some dst ∧
      IsLeastPath graph src dst path := by
  cases hsrc : firstId graph fromLabel with
  | none => simp [shortestPath_eq_none_of_firstId (Or.inl hsrc)] at hpath
  | some src =>
      cases hdst : firstId graph toLabel with
      | none => simp [shortestPath_eq_none_of_firstId (Or.inr hdst)] at hpath
      | some dst =>
          refine ⟨src, dst, rfl, rfl, ?_⟩
          rcases shortestPath_of_firstId hsrc hdst with ⟨hnone, -⟩ | ⟨path', hsome, hleast⟩
          · simp [hnone] at hpath
          · rw [hpath, Option.some_inj] at hsome
            rw [hsome]
            exact hleast

/-- Only which ids the edges join matters, not their order, direction or number. -/
theorem shortestPath_congr {graph graph' : Graph} {fromLabel toLabel : String}
    (hfrom : firstId graph' fromLabel = firstId graph fromLabel)
    (hto : firstId graph' toLabel = firstId graph toLabel)
    (hjoined : Joined graph' = Joined graph) :
    shortestPath graph' fromLabel toLabel = shortestPath graph fromLabel toLabel := by
  have hpaths : ∀ src dst path, IsPath graph' src dst path ↔ IsPath graph src dst path := by
    intro src dst path
    constructor
    · intro ⟨hhead, hlast, hchain⟩
      exact ⟨hhead, hlast, hjoined ▸ hchain⟩
    · intro ⟨hhead, hlast, hchain⟩
      exact ⟨hhead, hlast, hjoined ▸ hchain⟩
  cases hpath : shortestPath graph fromLabel toLabel with
  | none =>
      rw [shortestPath_eq_none_iff] at hpath ⊢
      rw [hfrom, hto, hjoined]
      exact hpath
  | some path =>
      obtain ⟨src, dst, hsrc, hdst, hleast⟩ := isLeastPath_of_shortestPath hpath
      have hleast' : IsLeastPath graph' src dst path :=
        ⟨(hpaths src dst path).mpr hleast.isPath, hleast.nodup,
          fun other hother => hleast.minimal other ((hpaths src dst other).mp hother),
          fun other hother => hleast.first other ((hpaths src dst other).mp hother)⟩
      rcases shortestPath_of_firstId (hfrom.trans hsrc) (hto.trans hdst) with
        ⟨-, hnone⟩ | ⟨path', hsome, hother⟩
      · exact absurd ⟨path, hleast'.isPath⟩ hnone
      · rw [hsome, hother.unique hleast']

/-- `shortestPath` ends, returns no path exactly when a label is absent or its
nodes are not connected, and otherwise the least path, which depends only on
which ids are joined. Labels may be shared, edges may dangle, repeat or be loops. -/
theorem shortestPath_spec (graph : Graph) (fromLabel toLabel : String) :
    (∀ src dst, dst ≠ src → (bfs graph src dst).stopped = true ∨ (bfs graph src dst).queue = []) ∧
    (shortestPath graph fromLabel toLabel = none ↔
      ¬ ∃ src dst, firstId graph fromLabel = some src ∧ firstId graph toLabel = some dst ∧
        Relation.ReflTransGen (Joined graph) src dst) ∧
    (∀ path, shortestPath graph fromLabel toLabel = some path →
      ∃ src dst, firstId graph fromLabel = some src ∧ firstId graph toLabel = some dst ∧
        IsLeastPath graph src dst path) ∧
    ∀ graph', graph'.nodes = graph.nodes → Joined graph' = Joined graph →
      shortestPath graph' fromLabel toLabel = shortestPath graph fromLabel toLabel := by
  refine ⟨?_, shortestPath_eq_none_iff graph fromLabel toLabel,
    fun _ => isLeastPath_of_shortestPath, ?_⟩
  · intro src dst hne
    rcases bfs_spec graph hne with ⟨hqueue, -⟩ | ⟨hstopped, -⟩
    · exact Or.inr hqueue
    · exact Or.inl hstopped
  · intro graph' hnodes hjoined
    exact shortestPath_congr (by simp [firstId, hnodes]) (by simp [firstId, hnodes]) hjoined

end HabitatGraph
