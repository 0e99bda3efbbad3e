import HabitatGraph.Foundation.KeyedList

/-! # Graphs over labels

A graph whose nodes are identified by their labels and whose edges by their two
end labels and a relation. Such a graph is a pair of partial maps, and no edge
leaves the node map. Overlaying, restricting and merging against a common
ancestor act key by key, so their laws are laws about `Option`.
-/

/-- Node data `D` at labels `L` and edge data `C` at triples of two labels and
a relation `R`. -/
@[ext] structure LabelledGraph (L D R C : Type*) where
  node : PartialMap L D
  edge : PartialMap (L × L × R) C
  /-- Both ends of an edge are nodes. -/
  closed : ∀ {s t r}, (edge (s, t, r)).isSome → (node s).isSome ∧ (node t).isSome

namespace LabelledGraph

variable {L D R C : Type*}

/-- Both ends of the edge key `k` are nodes of `g`. -/
def HasEnds (g : LabelledGraph L D R C) (k : L × L × R) : Prop :=
  (g.node k.1).isSome ∧ (g.node k.2.1).isSome

instance (g : LabelledGraph L D R C) (k : L × L × R) : Decidable (g.HasEnds k) :=
  inferInstanceAs (Decidable (_ ∧ _))

theorem edge_eq_none_of_not_hasEnds (g : LabelledGraph L D R C) {k : L × L × R}
    (h : ¬ g.HasEnds k) : g.edge k = none :=
  Option.not_isSome_iff_eq_none.mp fun hsome => h (g.closed hsome)

/-- Graphs are equal when their maps are. -/
theorem eq_of_maps {a b : LabelledGraph L D R C} (hnode : a.node = b.node)
    (hedge : a.edge = b.edge) : a = b := LabelledGraph.ext hnode hedge

/-- The graph without nodes. -/
def empty : LabelledGraph L D R C where
  node := PartialMap.empty
  edge := PartialMap.empty
  closed := by intro _ _ _ h; cases h

/-- The union that prefers `a` wherever both define something. -/
def overlay (a b : LabelledGraph L D R C) : LabelledGraph L D R C where
  node := a.node.overlay b.node
  edge := a.edge.overlay b.edge
  closed := by
    intro s t r h
    simp only [PartialMap.overlay, Option.isSome_or, Bool.or_eq_true] at h ⊢
    rcases h with h | h
    · exact (a.closed h).imp Or.inl Or.inl
    · exact (b.closed h).imp Or.inr Or.inr

theorem overlay_assoc (a b c : LabelledGraph L D R C) :
    (a.overlay b).overlay c = a.overlay (b.overlay c) :=
  eq_of_maps (PartialMap.overlay_assoc _ _ _) (PartialMap.overlay_assoc _ _ _)

/-- Keep the nodes whose label and data satisfy `keep`, and the edges between
kept nodes. -/
def restrict (g : LabelledGraph L D R C) (keep : L → D → Bool) : LabelledGraph L D R C where
  node l := (g.node l).filter (keep l)
  edge k :=
    if ((g.node k.1).filter (keep k.1)).isSome ∧ ((g.node k.2.1).filter (keep k.2.1)).isSome then
      g.edge k
    else none
  closed := by
    intro s t r h
    split at h
    next hends => exact hends
    next => cases h

/-- Declare nodes and edges in order: the first declaration of a label and the
first assertion of an edge win, and edges with an undeclared end are dropped. -/
def ofDeclarations {α β : Type*} [DecidableEq L] [DecidableEq R] (label : α → L) (data : α → D)
    (key : β → L × L × R) (value : β → C) (nodes : List α) (edges : List β) :
    LabelledGraph L D R C where
  node := KeyedList.firstBy (fun x => some (label x)) data nodes
  edge k :=
    if (KeyedList.firstBy (fun x => some (label x)) data nodes k.1).isSome ∧
        (KeyedList.firstBy (fun x => some (label x)) data nodes k.2.1).isSome then
      KeyedList.firstBy (fun e => some (key e)) value edges k
    else none
  closed := by
    intro s t r h
    split at h
    next hends => exact hends
    next => cases h

/-- Dropping undeclared ends key by key is dropping the edges that have them. -/
theorem ofDeclarations_edge {α β : Type*} [DecidableEq L] [DecidableEq R] (label : α → L)
    (data : α → D) (key : β → L × L × R) (value : β → C) (nodes : List α) (edges : List β) :
    (ofDeclarations label data key value nodes edges).edge =
      KeyedList.firstBy
        (fun e => if (ofDeclarations label data key value nodes edges).HasEnds (key e) then
          some (key e) else none) value edges := by
  funext k
  exact (KeyedList.firstBy_guard
    (ofDeclarations label data key value nodes edges).HasEnds edges k).symm

/-! ## Merging against a common ancestor -/

/-- One entry of a three-way merge: an entry of one side only survives when the
ancestor lacks it, an entry of both sides survives with the left value. -/
def threeWayEntry {ν : Type*} (base ours theirs : Option ν) : Option ν :=
  match ours, theirs with
  | some v, some _ => some v
  | some v, none => if base.isSome then none else some v
  | none, some v => if base.isSome then none else some v
  | none, none => none

/-- The three-way table: kept by both, or kept by one and new. -/
theorem threeWayEntry_isSome_iff {ν : Type*} (base ours theirs : Option ν) :
    (threeWayEntry base ours theirs).isSome ↔
      (ours.isSome ∧ theirs.isSome) ∨
        ((ours.isSome ∧ ¬ theirs.isSome ∨ ¬ ours.isSome ∧ theirs.isSome) ∧ ¬ base.isSome) := by
  cases base <;> cases ours <;> cases theirs <;> simp [threeWayEntry]

/-- A surviving entry is the left one when there is one. -/
theorem threeWayEntry_eq {ν : Type*} {base ours theirs : Option ν}
    (h : (threeWayEntry base ours theirs).isSome) :
    threeWayEntry base ours theirs = ours.or theirs := by
  cases base <;> cases ours <;> cases theirs <;> simp_all [threeWayEntry]

/-- Merge nodes by the three-way table, and edges by the same table among the
edges whose ends survive. -/
def threeWay (base ours theirs : LabelledGraph L D R C) : LabelledGraph L D R C where
  node l := threeWayEntry (base.node l) (ours.node l) (theirs.node l)
  edge k :=
    if (threeWayEntry (base.node k.1) (ours.node k.1) (theirs.node k.1)).isSome ∧
        (threeWayEntry (base.node k.2.1) (ours.node k.2.1) (theirs.node k.2.1)).isSome then
      threeWayEntry (base.edge k) (ours.edge k) (theirs.edge k)
    else none
  closed := by
    intro s t r h
    split at h
    next hends => exact hends
    next => cases h

end LabelledGraph
