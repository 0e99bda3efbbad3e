import HabitatGraph.Core.Schema
import HabitatGraph.Foundation.PartialMap
import HabitatGraph.Foundation.SortedDelta

/-! # Arcs and severed ears

An arc names a producer, a consumer and the relation between them by labels.
`diffArcs` compares the arcs that are declared with the ones that are observed:
each declared arc is present or severed.
-/

namespace HabitatGraph

/-- A directed producer to consumer arc of one relation kind. -/
structure Arc where
  producer : String
  consumer : String
  relation : String
deriving DecidableEq, Repr

/-- The order on arcs compares producer, consumer and relation in turn. -/
def Arc.key (arc : Arc) : String ×ₗ String ×ₗ String :=
  toLex (arc.producer, toLex (arc.consumer, arc.relation))

theorem Arc.key_injective : Function.Injective Arc.key := by
  intro ⟨p, c, r⟩ ⟨p', c', r'⟩ h
  simp only [Arc.key, EmbeddingLike.apply_eq_iff_eq, Prod.mk.injEq] at h
  obtain ⟨rfl, rfl, rfl⟩ := h
  rfl

instance : LinearOrder Arc := LinearOrder.lift' Arc.key Arc.key_injective

/-- The relation kinds of the standard arc view. -/
def defaultArcRelations : List String := ["calls", "imports_from", "method", "defines"]

/-- The arcs of the edges whose relation is asked for and whose ends are nodes. -/
def extractArcs (graph : Graph) (relations : List String) : List Arc :=
  let idMap := PartialMap.ofEntries (graph.nodes.map fun n => (n.id, n.label))
  SortedList.sortDedup ((graph.edges.filter fun e => e.relation ∈ relations).filterMap fun e =>
    (idMap e.source).bind fun producer =>
      (idMap e.target).map fun consumer => ⟨producer, consumer, e.relation⟩)

/-- What is extracted is strictly sorted, whatever order the edges come in. -/
theorem pairwise_extractArcs (graph : Graph) (relations : List String) :
    (extractArcs graph relations).Pairwise (· < ·) := SortedList.pairwise_sortDedup _

section Report

-- `F` stands for the floating-point numbers that scores are given in.
variable {F : Type*} [NatCast F] [One F] [Div F]

/-- The declared arcs by whether they were observed, and the share that was. -/
structure SeveredEarReport (F : Type*) where
  present : List Arc
  severed : List Arc
  coherence : F

/-- Compare the declared arcs with the observed ones. -/
def diffArcs (expected actual : List Arc) : SeveredEarReport F :=
  if expected.isEmpty then { present := [], severed := [], coherence := 1 }
  else
    let present := (expected.filter fun arc => arc ∈ actual).insertionSort (· ≤ ·)
    let severed := SortedDelta.sortedDiff expected actual
    { present, severed, coherence := (present.length : F) / (expected.length : F) }

theorem present_diffArcs (expected actual : List Arc) :
    (diffArcs (F := F) expected actual).present =
      (expected.filter fun arc => arc ∈ actual).insertionSort (· ≤ ·) := by
  unfold diffArcs
  split
  next hempty => rw [List.isEmpty_iff.mp hempty]; rfl
  next => rfl

theorem severed_diffArcs (expected actual : List Arc) :
    (diffArcs (F := F) expected actual).severed = SortedDelta.sortedDiff expected actual := by
  unfold diffArcs
  split
  next hempty => rw [List.isEmpty_iff.mp hempty]; rfl
  next => rfl

@[simp] theorem mem_present_diffArcs {expected actual : List Arc} {arc : Arc} :
    arc ∈ (diffArcs (F := F) expected actual).present ↔ arc ∈ expected ∧ arc ∈ actual := by
  rw [present_diffArcs, List.mem_insertionSort, List.mem_filter, decide_eq_true_eq]

@[simp] theorem mem_severed_diffArcs {expected actual : List Arc} {arc : Arc} :
    arc ∈ (diffArcs (F := F) expected actual).severed ↔ arc ∈ expected ∧ arc ∉ actual := by
  rw [severed_diffArcs, SortedDelta.mem_sortedDiff]

/-- Every declared arc lands in exactly one list, as often as it was declared. -/
theorem diffArcs_perm (expected actual : List Arc) :
    ((diffArcs (F := F) expected actual).present ++
      (diffArcs (F := F) expected actual).severed).Perm expected := by
  rw [present_diffArcs, severed_diffArcs]
  refine ((List.perm_insertionSort _ _).append (List.perm_insertionSort _ _)).trans ?_
  simpa only [decide_not] using List.filter_append_perm (fun arc => decide (arc ∈ actual)) expected

theorem disjoint_diffArcs (expected actual : List Arc) :
    (diffArcs (F := F) expected actual).present.Disjoint
      (diffArcs (F := F) expected actual).severed := by
  intro arc hpresent hsevered
  rw [mem_present_diffArcs] at hpresent
  rw [mem_severed_diffArcs] at hsevered
  exact hsevered.2 hpresent.2

theorem pairwise_severed_diffArcs {expected : List Arc} (hexpected : expected.Nodup)
    (actual : List Arc) : (diffArcs (F := F) expected actual).severed.Pairwise (· < ·) := by
  rw [severed_diffArcs]
  exact SortedDelta.pairwise_sortedDiff hexpected actual

end Report

end HabitatGraph
