import HabitatGraph.Extract.Cpp
import Mathlib.Logic.Relation

/-! # The two passes of the C++ extractor

The second pass is a fold over the nodes that it dispatches on, each in its container.
The first pass goes into the same nodes, and into some that the second one leaves out:
the bodies of classes and of namespaces without a simple name. What is emitted hangs
together; a base that is found in one of those bodies only is not emitted.
-/

namespace HabitatGraph

namespace CppExtractor

open SyntaxTree

variable {source : List UInt8} (toLowercase : String → String) (b sourceFile : String)

/-! ## The second pass as a fold -/

/-- What the second pass adds in one go: a node with the edge to it, or an edge. -/
inductive Event (source : List UInt8)
  | item (container label relation : String) (node : SyntaxTree source)
  | edge (e : RawEdge)

def Event.push (result : Extraction) : Event source → Extraction
  | .item container label relation node =>
      pushItem sourceFile result container label relation node
  | .edge e => { result with edges := result.edges ++ [e] }

mutual
/-- The nodes that the second pass dispatches on, each with its container. -/
def dispatched (container : String) : SyntaxTree source → List (String × SyntaxTree source)
  | .node label children =>
      (container, .node label children) ::
        if label.kind = "namespace_definition" then
          match namespaceName toLowercase (.node label children) with
          | none => []
          | some nsLower => dispatchedBody (b ++ "_" ++ nsLower) children
        else []

def dispatchedBody (container : String) :
    List (SyntaxTree source) → List (String × SyntaxTree source)
  | [] => []
  | child :: rest =>
      if "body" ∈ child.label.fields then dispatchedChildren container child
      else dispatchedBody container rest

def dispatchedChildren (container : String) :
    SyntaxTree source → List (String × SyntaxTree source)
  | .node _ children => dispatchedAll container children

def dispatchedAll (container : String) :
    List (SyntaxTree source) → List (String × SyntaxTree source)
  | [] => []
  | child :: rest =>
      (if child.label.named then dispatched container child else []) ++
        dispatchedAll container rest
end

/-- The method that a node of a class body is. -/
def methodEvent (c : String) (child : SyntaxTree source) : Option (Event source) :=
  if kind child = "function_definition" then
    ((childByFieldName child "declarator").bind (extractFnName toLowercase)).bind
      fun methodLower =>
        if methodLower = c then none
        else some (.item (b ++ "_" ++ c) (b ++ "_" ++ c ++ "_" ++ methodLower) "method" child)
  else none

/-- The edges from the bases in a clause. -/
def inheritsEdges (localTypes : List String) (c : String) (clause : SyntaxTree source) :
    List RawEdge :=
  (extractBaseNames toLowercase clause).map fun baseLower =>
    ⟨baseId b localTypes baseLower, b ++ "_" ++ c, "inherits", .extracted⟩

/-- What a child of a class node adds. -/
def classChildEvents (localTypes : List String) (c : String) (child : SyntaxTree source) :
    List (Event source) :=
  if kind child = "base_class_clause" then
    (inheritsEdges toLowercase b localTypes c child).map .edge
  else if kind child = "field_declaration_list" then
    (namedChildren child).filterMap (methodEvent toLowercase b c)
  else []

def includeEvents (node : SyntaxTree source) : List (Event source) :=
  ((extractInclude toLowercase b node ⟨[], []⟩).edges).map .edge

/-- What a node adds apart from what is dispatched below it. -/
def eventsAt (localTypes : List String) (container : String) (node : SyntaxTree source) :
    List (Event source) :=
  if kind node = "function_definition" then
    (((childByFieldName node "declarator").bind (extractFnName toLowercase)).map fun fnLower =>
      .item container (b ++ "_" ++ fnLower) "contains" node).toList
  else if kind node ∈ classKinds then
    match className toLowercase node with
    | none => []
    | some c => .item container (b ++ "_" ++ c) "contains" node ::
        (namedChildren node).flatMap (classChildEvents toLowercase b localTypes c)
  else if kind node = "namespace_definition" then
    ((namespaceName toLowercase node).map fun nsLower =>
      .item container (b ++ "_" ++ nsLower) "contains" node).toList
  else if kind node = "preproc_include" then includeEvents toLowercase b node
  else []

theorem extractFunction_eq (container : String) (node : SyntaxTree source) (result : Extraction) :
    extractFunction toLowercase b sourceFile container node result =
      (((childByFieldName node "declarator").bind (extractFnName toLowercase)).map fun fnLower =>
        Event.item container (b ++ "_" ++ fnLower) "contains" node).toList.foldl
          (Event.push sourceFile) result := by
  unfold extractFunction
  cases (childByFieldName node "declarator").bind (extractFnName toLowercase) <;> rfl

theorem extractMethods_eq (c : String) (body : SyntaxTree source) (result : Extraction) :
    extractMethods toLowercase b sourceFile c (b ++ "_" ++ c) body result =
      ((namedChildren body).filterMap (methodEvent toLowercase b c)).foldl
        (Event.push sourceFile) result := by
  unfold extractMethods
  rw [List.foldl_filterMap]
  congr 1
  funext result child
  unfold methodEvent
  by_cases hkind : kind child = "function_definition"
  · rw [if_neg (not_not.mpr hkind), if_pos hkind]
    cases (childByFieldName child "declarator").bind (extractFnName toLowercase) with
    | none => rfl
    | some methodLower =>
        rw [Option.bind_some]
        dsimp only
        split <;> rfl
  · rw [if_pos hkind, if_neg hkind]

theorem foldl_push_edges (es : List RawEdge) (result : Extraction) :
    (es.map (Event.edge : RawEdge → Event source)).foldl (Event.push sourceFile) result =
      { result with edges := result.edges ++ es } := by
  induction es generalizing result with
  | nil => simp
  | cons e es ih => simp [Event.push, ih]

theorem extractClass_eq (localTypes : List String) (container : String)
    (node : SyntaxTree source) (result : Extraction) :
    extractClass toLowercase b sourceFile localTypes container node result =
      (match className toLowercase node with
        | none => []
        | some c => Event.item container (b ++ "_" ++ c) "contains" node ::
            (namedChildren node).flatMap (classChildEvents toLowercase b localTypes c)).foldl
          (Event.push sourceFile) result := by
  unfold extractClass
  cases className toLowercase node with
  | none => rfl
  | some c =>
      rw [List.foldl_cons, List.foldl_flatMap]
      dsimp only [Event.push]
      congr 1
      funext result child
      unfold classChildEvents
      split
      next =>
        rw [foldl_push_edges]
        rfl
      next =>
        split
        next => rw [extractMethods_eq]
        next => rfl

theorem extractInclude_eq (node : SyntaxTree source) (result : Extraction) :
    extractInclude toLowercase b node result =
      (includeEvents toLowercase b node).foldl (Event.push sourceFile) result := by
  rw [includeEvents, foldl_push_edges]
  unfold extractInclude
  split
  next => simp
  next => dsimp only; split <;> simp

/-- Everything that the second pass adds at the dispatched nodes. -/
def allEvents (localTypes : List String) (ds : List (String × SyntaxTree source)) :
    List (Event source) :=
  ds.flatMap fun d => eventsAt toLowercase b localTypes d.1 d.2

mutual
theorem walkNode_eq (localTypes : List String) (container : String) (result : Extraction) :
    ∀ node : SyntaxTree source,
      walkNode toLowercase b sourceFile localTypes container result node =
        (allEvents toLowercase b localTypes (dispatched toLowercase b container node)).foldl
          (Event.push sourceFile) result
  | .node label children => by
      rw [walkNode, dispatched, allEvents, List.flatMap_cons, List.foldl_append, ← allEvents]
      have hkind : kind (.node label children : SyntaxTree source) = label.kind := rfl
      dsimp only
      rw [eventsAt, hkind]
      by_cases hns : label.kind = "namespace_definition"
      · have hfn : label.kind ≠ "function_definition" := by rw [hns]; decide
        have hclass : label.kind ∉ classKinds := by rw [hns]; decide
        rw [if_neg hfn, if_neg hclass, if_pos hns, if_neg hfn, if_neg hclass, if_pos hns,
          if_pos hns]
        cases namespaceName toLowercase (.node label children) with
        | none => rfl
        | some nsLower => exact walkBody_eq localTypes _ _ children
      · rw [if_neg hns, if_neg hns, if_neg hns]
        simp only [allEvents, List.flatMap_nil, List.foldl_nil]
        split
        next => exact extractFunction_eq toLowercase b sourceFile container _ result
        next =>
          split
          next => exact extractClass_eq toLowercase b sourceFile localTypes container _ result
          next =>
            split
            next => exact extractInclude_eq toLowercase b sourceFile _ result
            next => rfl

theorem walkBody_eq (localTypes : List String) (container : String) (result : Extraction) :
    ∀ children : List (SyntaxTree source),
      walkBody toLowercase b sourceFile localTypes container result children =
        (allEvents toLowercase b localTypes (dispatchedBody toLowercase b container children)).foldl
          (Event.push sourceFile) result
  | [] => by rw [walkBody, dispatchedBody]; rfl
  | child :: rest => by
      rw [walkBody, dispatchedBody]
      split
      next => exact walkChildren_eq localTypes container result child
      next => exact walkBody_eq localTypes container result rest

theorem walkChildren_eq (localTypes : List String) (container : String) (result : Extraction) :
    ∀ node : SyntaxTree source,
      walkChildren toLowercase b sourceFile localTypes container result node =
        (allEvents toLowercase b localTypes
          (dispatchedChildren toLowercase b container node)).foldl (Event.push sourceFile) result
  | .node label children => by
      rw [walkChildren, dispatchedChildren]
      exact walkAll_eq localTypes container result children

theorem walkAll_eq (localTypes : List String) (container : String) (result : Extraction) :
    ∀ children : List (SyntaxTree source),
      walkAll toLowercase b sourceFile localTypes container result children =
        (allEvents toLowercase b localTypes (dispatchedAll toLowercase b container children)).foldl
          (Event.push sourceFile) result
  | [] => by rw [walkAll, dispatchedAll]; rfl
  | child :: rest => by
      rw [walkAll, dispatchedAll, allEvents, List.flatMap_append, List.foldl_append, ← allEvents,
        ← allEvents, walkAll_eq localTypes container _ rest]
      congr 1
      split
      next => exact walkNode_eq localTypes container result child
      next => rfl
end

/-- The node that an event adds, if it adds one. -/
def Event.rawNode : Event source → Option RawNode
  | .item _ label _ node => some ⟨label, sourceFile, makeSpan node⟩
  | .edge _ => none

/-- The edge that an event adds. -/
def Event.rawEdge : Event source → RawEdge
  | .item container label relation _ => ⟨container, label, relation, .extracted⟩
  | .edge e => e

theorem foldl_push_eq (events : List (Event source)) (result : Extraction) :
    events.foldl (Event.push sourceFile) result =
      ⟨result.nodes ++ events.filterMap (Event.rawNode sourceFile),
        result.edges ++ events.map Event.rawEdge⟩ := by
  induction events generalizing result with
  | nil => simp
  | cons event events ih =>
      rw [List.foldl_cons, ih]
      simp only [List.filterMap_eq_flatMap_toList, List.flatMap_cons, List.map_cons]
      cases event <;> simp [Event.push, pushItem, Event.rawNode, Event.rawEdge]

/-- What the second pass of a file dispatches on. -/
def reached (root : SyntaxTree source) : List (String × SyntaxTree source) :=
  dispatchedChildren toLowercase b b root

/-- All that is added to the file node. -/
def treeEvents (root : SyntaxTree source) : List (Event source) :=
  allEvents toLowercase b (collectClassNames toLowercase root) (reached toLowercase b root)

theorem extractTree_eq (root : SyntaxTree source) :
    extractTree toLowercase b sourceFile root =
      ⟨⟨b, sourceFile, makeSpan root⟩ ::
          (treeEvents toLowercase b root).filterMap (Event.rawNode sourceFile),
        (treeEvents toLowercase b root).map Event.rawEdge⟩ := by
  rw [extractTree, walkChildren_eq, foldl_push_eq]
  rfl

/-! ## What is emitted hangs together -/

/-- The relations that lead from the file to what is in it. -/
def hierarchy : List String := ["contains", "method"]

/-- What a node of a class adds: edges from bases, or methods. -/
theorem mem_classChildEvents {localTypes : List String} {c : String} {child : SyntaxTree source}
    {event : Event source} (hevent : event ∈ classChildEvents toLowercase b localTypes c child) :
    (∃ e, event = .edge e ∧ e.relation = "inherits") ∨
      ∃ label node, event = .item (b ++ "_" ++ c) label "method" node := by
  unfold classChildEvents at hevent
  split at hevent
  next =>
    obtain ⟨e, he, rfl⟩ := List.mem_map.mp hevent
    obtain ⟨baseLower, -, rfl⟩ := List.mem_map.mp he
    exact .inl ⟨_, rfl, rfl⟩
  next =>
    split at hevent
    next =>
      obtain ⟨t, -, hmethod⟩ := List.mem_filterMap.mp hevent
      unfold methodEvent at hmethod
      split at hmethod
      next =>
        obtain ⟨methodLower, -, hsome⟩ := Option.bind_eq_some_iff.mp hmethod
        split at hsome
        next => cases hsome
        next => exact .inr ⟨_, _, (Option.some.inj hsome).symm⟩
      next => cases hmethod
    next => cases hevent

theorem mem_includeEvents {node : SyntaxTree source} {event : Event source}
    (hevent : event ∈ includeEvents toLowercase b node) :
    ∃ e, event = .edge e ∧ e.relation = "imports_from" := by
  unfold includeEvents extractInclude at hevent
  obtain ⟨e, he, rfl⟩ := List.mem_map.mp hevent
  refine ⟨e, rfl, ?_⟩
  split at he
  next => cases he
  next =>
    dsimp only at he
    split at he
    next => cases he
    next => rw [List.mem_singleton.mp he]

/-- All that a dispatched node can add: an item in its container, a method of the class
that it is, or an edge outside the hierarchy. -/
theorem mem_eventsAt {localTypes : List String} {container : String} {t : SyntaxTree source}
    {event : Event source} (hevent : event ∈ eventsAt toLowercase b localTypes container t) :
    (∃ label, event = .item container label "contains" t) ∨
      (∃ c label node, event = .item (b ++ "_" ++ c) label "method" node ∧
        .item container (b ++ "_" ++ c) "contains" t ∈
          eventsAt toLowercase b localTypes container t) ∨
      ∃ e, event = .edge e ∧ e.relation ∉ hierarchy := by
  unfold eventsAt at hevent
  split at hevent
  next =>
    obtain ⟨fnLower, -, rfl⟩ := Option.map_eq_some_iff.mp (Option.mem_toList.mp hevent)
    exact .inl ⟨_, rfl⟩
  next hfn =>
    split at hevent
    next hclass =>
      split at hevent
      next => cases hevent
      next c hc =>
        rcases List.mem_cons.mp hevent with rfl | hevent
        · exact .inl ⟨_, rfl⟩
        · obtain ⟨child, -, hevent⟩ := List.mem_flatMap.mp hevent
          rcases mem_classChildEvents toLowercase b hevent with
            ⟨e, rfl, hrelation⟩ | ⟨label, node, rfl⟩
          · exact .inr (.inr ⟨e, rfl, by rw [hrelation]; decide⟩)
          · -- the class itself is added before its methods
            refine .inr (.inl ⟨c, label, node, rfl, ?_⟩)
            rw [eventsAt, if_neg hfn, if_pos hclass, hc]
            exact List.mem_cons_self
    next =>
      split at hevent
      next =>
        obtain ⟨nsLower, -, rfl⟩ := Option.map_eq_some_iff.mp (Option.mem_toList.mp hevent)
        exact .inl ⟨_, rfl⟩
      next =>
        split at hevent
        next =>
          obtain ⟨e, rfl, hrelation⟩ := mem_includeEvents toLowercase b hevent
          exact .inr (.inr ⟨e, rfl, by rw [hrelation]; decide⟩)
        next => cases hevent

section Containers

variable {P : String → Prop} {localTypes : List String}

mutual
/-- What holds of the first container and passes from a container to what it contains
holds of every container. -/
theorem container_of_dispatched {container : String} (hP : P container) :
    ∀ {t : SyntaxTree source}, (∀ d ∈ dispatched toLowercase b container t, P d.1 → ∀ label,
      .item d.1 label "contains" d.2 ∈ eventsAt toLowercase b localTypes d.1 d.2 → P label) →
      ∀ d ∈ dispatched toLowercase b container t, P d.1
  | .node label children => by
      intro hstep d hd
      rw [dispatched] at hd hstep
      rcases List.mem_cons.mp hd with rfl | hd
      · exact hP
      split at hd
      next hns =>
        rw [if_pos hns] at hstep
        split at hd
        next => cases hd
        next nsLower hname =>
          rw [hname] at hstep
          have hitem : Event.item container (b ++ "_" ++ nsLower) "contains"
              (.node label children) ∈
              eventsAt toLowercase b localTypes container (.node label children) := by
            have hkind : kind (.node label children : SyntaxTree source) = label.kind := rfl
            rw [eventsAt, hkind, hns, hname]
            exact List.mem_singleton.mpr rfl
          have hns := hstep _ List.mem_cons_self hP _ hitem
          exact container_of_dispatchedBody hns
            (fun d hd => hstep d (List.mem_cons_of_mem _ hd)) d hd
      next => cases hd

theorem container_of_dispatchedBody {container : String} (hP : P container) :
    ∀ {ts : List (SyntaxTree source)},
      (∀ d ∈ dispatchedBody toLowercase b container ts, P d.1 → ∀ label,
        .item d.1 label "contains" d.2 ∈ eventsAt toLowercase b localTypes d.1 d.2 → P label) →
      ∀ d ∈ dispatchedBody toLowercase b container ts, P d.1
  | [] => by
      intro _ d hd
      rw [dispatchedBody] at hd
      cases hd
  | child :: rest => by
      rw [dispatchedBody]
      split
      next => exact container_of_dispatchedChildren hP
      next => exact container_of_dispatchedBody hP

theorem container_of_dispatchedChildren {container : String} (hP : P container) :
    ∀ {t : SyntaxTree source}, (∀ d ∈ dispatchedChildren toLowercase b container t, P d.1 →
      ∀ label, .item d.1 label "contains" d.2 ∈ eventsAt toLowercase b localTypes d.1 d.2 →
        P label) →
      ∀ d ∈ dispatchedChildren toLowercase b container t, P d.1
  | .node label children => by
      rw [dispatchedChildren]
      exact container_of_dispatchedAll hP

theorem container_of_dispatchedAll {container : String} (hP : P container) :
    ∀ {ts : List (SyntaxTree source)},
      (∀ d ∈ dispatchedAll toLowercase b container ts, P d.1 → ∀ label,
        .item d.1 label "contains" d.2 ∈ eventsAt toLowercase b localTypes d.1 d.2 → P label) →
      ∀ d ∈ dispatchedAll toLowercase b container ts, P d.1
  | [] => by
      intro _ d hd
      rw [dispatchedAll] at hd
      cases hd
  | child :: rest => by
      intro hstep d hd
      rw [dispatchedAll] at hd hstep
      rcases List.mem_append.mp hd with hd | hd
      · split at hd
        next hnamed =>
          rw [if_pos hnamed] at hstep
          exact container_of_dispatched hP
            (fun d hd => hstep d (List.mem_append_left _ hd)) d hd
        next => cases hd
      · exact container_of_dispatchedAll hP
          (fun d hd => hstep d (List.mem_append_right _ hd)) d hd
end

end Containers

/-- One edge of the hierarchy among some edges. -/
def Leads (edges : List RawEdge) (x y : String) : Prop :=
  ∃ e ∈ edges, e.source = x ∧ e.target = y ∧ e.relation ∈ hierarchy

/-- The id of an emitted node that the hierarchy leads to from the file. -/
def Placed (root : SyntaxTree source) (label : String) : Prop :=
  (∃ n ∈ (extractTree toLowercase b sourceFile root).nodes, n.label = label) ∧
    Relation.ReflTransGen (Leads (extractTree toLowercase b sourceFile root).edges) b label

section Placed

variable {toLowercase b sourceFile} {root : SyntaxTree source}

theorem placed_file : Placed toLowercase b sourceFile root b := by
  refine ⟨⟨⟨b, sourceFile, makeSpan root⟩, ?_, rfl⟩, Relation.ReflTransGen.refl⟩
  rw [extractTree_eq]
  exact List.mem_cons_self

/-- An item with a placed owner is placed. -/
theorem Placed.item {owner label relation : String} {node : SyntaxTree source}
    (howner : Placed toLowercase b sourceFile root owner) (hrelation : relation ∈ hierarchy)
    (hitem : .item owner label relation node ∈ treeEvents toLowercase b root) :
    Placed toLowercase b sourceFile root label := by
  rw [Placed, extractTree_eq]
  refine ⟨⟨⟨label, sourceFile, makeSpan node⟩, ?_, rfl⟩, ?_⟩
  · exact List.mem_cons_of_mem _ (List.mem_filterMap.mpr ⟨_, hitem, rfl⟩)
  · rw [Placed, extractTree_eq] at howner
    exact howner.2.tail ⟨_, List.mem_map_of_mem hitem, rfl, rfl, hrelation⟩

theorem mem_treeEvents {d : String × SyntaxTree source} (hd : d ∈ reached toLowercase b root)
    {event : Event source}
    (hevent : event ∈ eventsAt toLowercase b (collectClassNames toLowercase root) d.1 d.2) :
    event ∈ treeEvents toLowercase b root := List.mem_flatMap.mpr ⟨d, hd, hevent⟩

/-- Every container is placed. -/
theorem placed_of_reached {d : String × SyntaxTree source} (hd : d ∈ reached toLowercase b root) :
    Placed toLowercase b sourceFile root d.1 := by
  have hstep : ∀ d ∈ reached toLowercase b root, Placed toLowercase b sourceFile root d.1 →
      ∀ label, .item d.1 label "contains" d.2 ∈
        eventsAt toLowercase b (collectClassNames toLowercase root) d.1 d.2 →
        Placed toLowercase b sourceFile root label := by
    intro d hd hplaced label hitem
    exact hplaced.item (by decide) (mem_treeEvents hd hitem)
  exact container_of_dispatchedChildren toLowercase b placed_file hstep d hd

/-- Both ends of an item are placed. -/
theorem placed_of_item {owner label relation : String} {node : SyntaxTree source}
    (hitem : .item owner label relation node ∈ treeEvents toLowercase b root) :
    Placed toLowercase b sourceFile root owner ∧ Placed toLowercase b sourceFile root label := by
  obtain ⟨d, hd, hevent⟩ := List.mem_flatMap.mp hitem
  have hcontainer : Placed toLowercase b sourceFile root d.1 := placed_of_reached hd
  rcases mem_eventsAt toLowercase b hevent with ⟨label', heq⟩ | ⟨c, label', node', heq, hclass⟩ |
    ⟨e, heq, -⟩
  · obtain ⟨rfl, rfl, rfl, rfl⟩ := Event.item.inj heq
    exact ⟨hcontainer, hcontainer.item (by decide) hitem⟩
  · obtain ⟨rfl, rfl, rfl, rfl⟩ := Event.item.inj heq
    have howner := hcontainer.item (by decide) (mem_treeEvents hd hclass)
    exact ⟨howner, howner.item (by decide) hitem⟩
  · cases heq

/-- Every node is placed, and so are both ends of every edge of the hierarchy. -/
theorem placed_of_mem_nodes {n : RawNode}
    (hn : n ∈ (extractTree toLowercase b sourceFile root).nodes) :
    Placed toLowercase b sourceFile root n.label := by
  rw [extractTree_eq] at hn
  rcases List.mem_cons.mp hn with rfl | hn
  · exact placed_file
  · obtain ⟨event, hevent, hnode⟩ := List.mem_filterMap.mp hn
    cases event with
    | edge e => cases hnode
    | item owner label relation node =>
        obtain rfl := Option.some.inj hnode
        exact (placed_of_item hevent).2

theorem placed_of_mem_edges {e : RawEdge}
    (he : e ∈ (extractTree toLowercase b sourceFile root).edges)
    (hrelation : e.relation ∈ hierarchy) :
    Placed toLowercase b sourceFile root e.source ∧
      Placed toLowercase b sourceFile root e.target := by
  rw [extractTree_eq] at he
  obtain ⟨event, hevent, rfl⟩ := List.mem_map.mp he
  cases event with
  | item owner label relation node => exact placed_of_item hevent
  | edge e =>
      obtain ⟨d, -, hat⟩ := List.mem_flatMap.mp hevent
      rcases mem_eventsAt toLowercase b hat with ⟨_, heq⟩ | ⟨_, _, _, heq, -⟩ | ⟨_, heq, hother⟩
      · cases heq
      · cases heq
      · rw [← Event.edge.inj heq] at hother
        exact absurd hrelation hother

end Placed

/-! ## Bases of the file -/

/-- The classes that the second pass emits, by name. -/
def reachedClasses (root : SyntaxTree source) : List (String × SyntaxTree source) :=
  (reached toLowercase b root).filterMap fun d =>
    if kind d.2 ∈ classKinds then (className toLowercase d.2).map fun c => (c, d.2) else none

/-- The names in a body that the first pass goes into and the second does not. -/
def hiddenNames (root : SyntaxTree source) : List String :=
  (reached toLowercase b root).flatMap fun d =>
    if kind d.2 ∈ classKinds ∨
        kind d.2 = "namespace_definition" ∧ namespaceName toLowercase d.2 = none then
      collectBody toLowercase d.2.children
    else []

/-- The bases of a class. -/
def basesOf (node : SyntaxTree source) : List String :=
  ((namedChildren node).filter fun child => kind child = "base_class_clause").flatMap
    (extractBaseNames toLowercase)

/-- The nodes of the emitted classes. -/
def classNodes (root : SyntaxTree source) : List RawNode :=
  (reachedClasses toLowercase b root).map fun d => ⟨b ++ "_" ++ d.1, sourceFile, makeSpan d.2⟩

/-- The edges from bases that are taken for classes of the file. -/
def localInherits (root : SyntaxTree source) : List RawEdge :=
  (reachedClasses toLowercase b root).flatMap fun d =>
    ((basesOf toLowercase d.2).filter fun base => base ∈ collectClassNames toLowercase root).map
      fun base => ⟨b ++ "_" ++ base, b ++ "_" ++ d.1, "inherits", .extracted⟩

/-- The two passes agree: an edge from a base that was taken for a class of the file comes
from the node of a class, the ends of the hierarchy are nodes, and it leads from the file
to every node. -/
structure PassesAgree (root : SyntaxTree source) : Prop where
  inherits : ∀ e ∈ (extractTree toLowercase b sourceFile root).edges,
    e ∈ localInherits toLowercase b root →
      ∃ n ∈ (extractTree toLowercase b sourceFile root).nodes,
        n ∈ classNodes toLowercase b sourceFile root ∧ n.label = e.source
  ends : ∀ e ∈ (extractTree toLowercase b sourceFile root).edges, e.relation ∈ hierarchy →
    (∃ n ∈ (extractTree toLowercase b sourceFile root).nodes, n.label = e.source) ∧
      ∃ n ∈ (extractTree toLowercase b sourceFile root).nodes, n.label = e.target
  leads : ∀ n ∈ (extractTree toLowercase b sourceFile root).nodes,
    Relation.ReflTransGen (Leads (extractTree toLowercase b sourceFile root).edges) b n.label

/-- The names that the first pass finds at a node, apart from what the second pass
dispatches on below it. -/
def namesAt (node : SyntaxTree source) : List String :=
  if kind node ∈ classKinds then
    (className toLowercase node).toList ++ collectBody toLowercase node.children
  else if kind node = "namespace_definition" ∧ namespaceName toLowercase node = none then
    collectBody toLowercase node.children
  else []

mutual
/-- The first pass goes where the second one does, and further at each node. -/
theorem collectChild_eq (container : String) : ∀ t : SyntaxTree source,
    collectChild toLowercase t =
      (dispatched toLowercase b container t).flatMap fun d => namesAt toLowercase d.2
  | .node label children => by
      have hkind : kind (.node label children : SyntaxTree source) = label.kind := rfl
      rw [collectChild, dispatched, List.flatMap_cons, namesAt, hkind, RoseTree.children_node]
      by_cases hclass : label.kind ∈ classKinds
      · have hns : label.kind ≠ "namespace_definition" := by
          intro heq
          rw [heq] at hclass
          exact absurd hclass (by decide)
        rw [if_pos hclass, if_pos hclass, if_neg hns, List.flatMap_nil, List.append_nil]
      · rw [if_neg hclass, if_neg hclass]
        by_cases hns : label.kind = "namespace_definition"
        · rw [if_pos hns, if_pos hns]
          cases hname : namespaceName toLowercase (.node label children) with
          | none => simp [hns]
          | some nsLower =>
              simp only [reduceCtorEq, and_false, ↓reduceIte, List.nil_append]
              exact collectBody_eq (b ++ "_" ++ nsLower) children
        · simp [hns]

theorem collectBody_eq (container : String) : ∀ ts : List (SyntaxTree source),
    collectBody toLowercase ts =
      (dispatchedBody toLowercase b container ts).flatMap fun d => namesAt toLowercase d.2
  | [] => by
      rw [collectBody, dispatchedBody]
      rfl
  | child :: rest => by
      rw [collectBody, dispatchedBody]
      split
      next => exact collectClassNames_eq container child
      next => exact collectBody_eq container rest

theorem collectClassNames_eq (container : String) : ∀ t : SyntaxTree source,
    collectClassNames toLowercase t =
      (dispatchedChildren toLowercase b container t).flatMap fun d => namesAt toLowercase d.2
  | .node label children => by
      rw [collectClassNames, dispatchedChildren]
      exact collectAll_eq container children

theorem collectAll_eq (container : String) : ∀ ts : List (SyntaxTree source),
    collectAll toLowercase ts =
      (dispatchedAll toLowercase b container ts).flatMap fun d => namesAt toLowercase d.2
  | [] => by
      rw [collectAll, dispatchedAll]
      rfl
  | child :: rest => by
      rw [collectAll, dispatchedAll, List.flatMap_append, collectAll_eq container rest]
      congr 1
      split
      next => exact collectChild_eq container child
      next => rfl
end

/-- A name is collected exactly when the second pass emits a class of that name, or it
is hidden from that pass. -/
theorem mem_collectClassNames_iff {root : SyntaxTree source} {base : String} :
    base ∈ collectClassNames toLowercase root ↔
      base ∈ (reachedClasses toLowercase b root).map Prod.fst ∨
        base ∈ hiddenNames toLowercase b root := by
  rw [collectClassNames_eq toLowercase b b, ← reached, List.mem_flatMap, hiddenNames,
    List.mem_flatMap, List.mem_map]
  constructor
  · intro ⟨d, hd, hbase⟩
    unfold namesAt at hbase
    split at hbase
    next hclass =>
      rcases List.mem_append.mp hbase with hname | hbody
      · refine .inl ⟨(base, d.2), List.mem_filterMap.mpr ⟨d, hd, ?_⟩, rfl⟩
        rw [if_pos hclass, Option.mem_toList.mp hname]
        rfl
      · exact .inr ⟨d, hd, by rwa [if_pos (.inl hclass)]⟩
    next =>
      split at hbase
      next hns => exact .inr ⟨d, hd, by rwa [if_pos (.inr hns)]⟩
      next => cases hbase
  · rintro (⟨⟨name, t⟩, hclass, rfl⟩ | ⟨d, hd, hbody⟩)
    · obtain ⟨d, hd, hname⟩ := List.mem_filterMap.mp hclass
      refine ⟨d, hd, ?_⟩
      split at hname
      next hkind =>
        obtain ⟨c, hc, heq⟩ := Option.map_eq_some_iff.mp hname
        obtain ⟨rfl, -⟩ := Prod.mk.inj heq
        rw [namesAt, if_pos hkind, hc]
        exact List.mem_append_left _ (List.mem_singleton.mpr rfl)
      next => cases hname
    · refine ⟨d, hd, ?_⟩
      unfold namesAt
      split at hbody
      next hkind =>
        split
        next => exact List.mem_append_right _ hbody
        next hclass => rwa [if_pos (hkind.resolve_left hclass)]
      next => cases hbody

/-- A class of the second pass adds its node first. -/
theorem eventsAt_of_reachedClass {root : SyntaxTree source} {c : String} {t : SyntaxTree source}
    (hclass : (c, t) ∈ reachedClasses toLowercase b root) :
    ∃ container, (container, t) ∈ reached toLowercase b root ∧ ∀ localTypes,
      eventsAt toLowercase b localTypes container t =
        .item container (b ++ "_" ++ c) "contains" t ::
          (namedChildren t).flatMap (classChildEvents toLowercase b localTypes c) := by
  obtain ⟨⟨container, t'⟩, hd, hname⟩ := List.mem_filterMap.mp hclass
  split at hname
  next hkind =>
    obtain ⟨c', hc, heq⟩ := Option.map_eq_some_iff.mp hname
    obtain ⟨rfl, rfl⟩ := Prod.mk.inj heq
    refine ⟨container, hd, fun localTypes => ?_⟩
    have hfn : kind t' ≠ "function_definition" := by
      intro heq
      rw [heq] at hkind
      exact absurd hkind (by decide)
    rw [eventsAt, if_neg hfn, if_pos hkind, hc]
  next => cases hname

theorem mem_nodes_of_mem_classNodes {root : SyntaxTree source} {n : RawNode}
    (hn : n ∈ classNodes toLowercase b sourceFile root) :
    n ∈ (extractTree toLowercase b sourceFile root).nodes := by
  obtain ⟨⟨c, t⟩, hclass, rfl⟩ := List.mem_map.mp hn
  obtain ⟨container, hd, hevents⟩ := eventsAt_of_reachedClass toLowercase b hclass
  have hitem := mem_treeEvents hd (hevents _ ▸ List.mem_cons_self)
  rw [extractTree_eq]
  exact List.mem_cons_of_mem _ (List.mem_filterMap.mpr ⟨_, hitem, rfl⟩)

theorem mem_edges_of_mem_localInherits {root : SyntaxTree source} {e : RawEdge}
    (he : e ∈ localInherits toLowercase b root) :
    e ∈ (extractTree toLowercase b sourceFile root).edges := by
  obtain ⟨⟨c, t⟩, hclass, he⟩ := List.mem_flatMap.mp he
  obtain ⟨base, hbase, rfl⟩ := List.mem_map.mp he
  obtain ⟨hbase, hlocal⟩ := List.mem_filter.mp hbase
  obtain ⟨clause, hclause, hbase⟩ := List.mem_flatMap.mp hbase
  obtain ⟨hchild, hkind⟩ := List.mem_filter.mp hclause
  obtain ⟨container, hd, hevents⟩ := eventsAt_of_reachedClass toLowercase b hclass
  have hid : baseId b (collectClassNames toLowercase root) base = b ++ "_" ++ base :=
    if_pos (of_decide_eq_true hlocal)
  have hedge : Event.edge ⟨b ++ "_" ++ base, b ++ "_" ++ c, "inherits", .extracted⟩ ∈
      classChildEvents toLowercase b (collectClassNames toLowercase root) c clause := by
    rw [classChildEvents, if_pos (of_decide_eq_true hkind), ← hid]
    exact List.mem_map_of_mem (List.mem_map_of_mem hbase)
  have hevent := mem_treeEvents hd
    (hevents _ ▸ List.mem_cons_of_mem _ (List.mem_flatMap.mpr ⟨clause, hchild, hedge⟩))
  rw [extractTree_eq]
  exact List.mem_map.mpr ⟨_, hevent, rfl⟩

/-- The passes agree exactly when every base of an emitted class, if its name is that of
a class hidden from the second pass, is also the name of a class that is emitted. The
tree is arbitrary. -/
theorem passesAgree_iff (root : SyntaxTree source) :
    PassesAgree toLowercase b sourceFile root ↔
      ∀ d ∈ reachedClasses toLowercase b root, ∀ base ∈ basesOf toLowercase d.2,
        base ∈ hiddenNames toLowercase b root →
          base ∈ (reachedClasses toLowercase b root).map Prod.fst := by
  constructor
  · intro hagree d hd base hbase hhidden
    have hlocal := (mem_collectClassNames_iff toLowercase b).mpr (.inr hhidden)
    have hedge : ⟨b ++ "_" ++ base, b ++ "_" ++ d.1, "inherits", .extracted⟩ ∈
        localInherits toLowercase b root := by
      refine List.mem_flatMap.mpr ⟨d, hd, List.mem_map.mpr ⟨base, ?_, rfl⟩⟩
      exact List.mem_filter.mpr ⟨hbase, decide_eq_true hlocal⟩
    obtain ⟨n, -, hn, hlabel⟩ :=
      hagree.inherits _ (mem_edges_of_mem_localInherits toLowercase b sourceFile hedge) hedge
    obtain ⟨d', hd', rfl⟩ := List.mem_map.mp hn
    refine List.mem_map.mpr ⟨d', hd', ?_⟩
    exact String.append_right_inj _ |>.mp hlabel
  · intro hhidden
    constructor
    · intro e _ he
      obtain ⟨d, hd, he⟩ := List.mem_flatMap.mp he
      obtain ⟨base, hbase, rfl⟩ := List.mem_map.mp he
      obtain ⟨hbase, hlocal⟩ := List.mem_filter.mp hbase
      have hreached : base ∈ (reachedClasses toLowercase b root).map Prod.fst := by
        rcases (mem_collectClassNames_iff toLowercase b).mp (of_decide_eq_true hlocal) with
          hreached | hbelow
        · exact hreached
        · exact hhidden d hd base hbase hbelow
      obtain ⟨d', hd', rfl⟩ := List.mem_map.mp hreached
      have hnode := List.mem_map_of_mem
        (f := fun d => (⟨b ++ "_" ++ d.1, sourceFile, makeSpan d.2⟩ : RawNode)) hd'
      exact ⟨_, mem_nodes_of_mem_classNodes toLowercase b sourceFile hnode, hnode, rfl⟩
    · intro e he hrelation
      obtain ⟨hsource, htarget⟩ := placed_of_mem_edges he hrelation
      exact ⟨hsource.1, htarget.1⟩
    · intro n hn
      exact (placed_of_mem_nodes hn).2

/-! ## A base in a namespace without a name -/

def hiddenSource : List UInt8 :=
  Utf8Lines.encode "namespace{class A{};}class B:public A{};".toList

theorem length_hiddenSource : hiddenSource.length = 40 := by decide +kernel

/-- The class `A` stands in a namespace without a name, and `B` inherits from it. -/
def hiddenTree : SyntaxTree hiddenSource :=
  let node := lineNode length_hiddenSource
  let classA := node "class_specifier" [] 10 19 (by decide)
    [node "type_identifier" ["name"] 16 17 (by decide) [],
      node "field_declaration_list" ["body"] 17 19 (by decide) []]
  let classB := node "class_specifier" [] 21 39 (by decide)
    [node "type_identifier" ["name"] 27 28 (by decide) [],
      node "base_class_clause" [] 28 37 (by decide)
        [node "access_specifier" [] 29 35 (by decide) [],
          node "type_identifier" [] 36 37 (by decide) []],
      node "field_declaration_list" ["body"] 37 39 (by decide) []]
  node "translation_unit" [] 0 40 (by decide)
    [node "namespace_definition" [] 0 21 (by decide)
      [node "declaration_list" ["body"] 9 21 (by decide) [classA]], classB]

def asciiLowercase (s : String) : String := String.ofList (s.toList.map Char.toLower)

/-- The edge from the base comes from an id that no node has. -/
theorem hiddenTree_disagrees :
    (extractTree asciiLowercase "f" "f.cpp" hiddenTree).nodes.map RawNode.label = ["f", "f_b"] ∧
      (extractTree asciiLowercase "f" "f.cpp" hiddenTree).edges =
        [⟨"f", "f_b", "contains", .extracted⟩, ⟨"f_a", "f_b", "inherits", .extracted⟩] ∧
      ¬ PassesAgree asciiLowercase "f" "f.cpp" hiddenTree := by
  have hnodes : (extractTree asciiLowercase "f" "f.cpp" hiddenTree).nodes.map RawNode.label =
      ["f", "f_b"] := by decide +kernel
  have hedges : (extractTree asciiLowercase "f" "f.cpp" hiddenTree).edges =
      [⟨"f", "f_b", "contains", .extracted⟩, ⟨"f_a", "f_b", "inherits", .extracted⟩] := by
    decide +kernel
  refine ⟨hnodes, hedges, fun hagree => ?_⟩
  have hlocal : ⟨"f_a", "f_b", "inherits", .extracted⟩ ∈
      localInherits asciiLowercase "f" hiddenTree := by decide +kernel
  obtain ⟨n, hn, -, hlabel⟩ := hagree.inherits ⟨"f_a", "f_b", "inherits", .extracted⟩
    (by rw [hedges]; decide) hlocal
  have hmem := List.mem_map_of_mem (f := RawNode.label) hn
  rw [hnodes, hlabel] at hmem
  exact absurd hmem (by decide)

end CppExtractor

end HabitatGraph
