import HabitatGraph.Foundation.SortedDelta
import HabitatGraph.Habitat.ArcGraph
import Mathlib.Algebra.Order.Field.Rat

/-! # Arc telemetry

`diffReports` reduces two reports to the arcs that were newly severed or newly
healed. A consumer that starts from one severed list and applies the deltas of a
run in order has the severed list of the last report.
-/

namespace HabitatGraph

open SortedDelta

variable {F : Type*}

/-- The change between two reports. -/
structure ArcDelta (F : Type*) where
  newlySevered : List Arc
  newlyHealed : List Arc
  coherenceDelta : F

/-- Some arc was newly severed. -/
def ArcDelta.isRegression (delta : ArcDelta F) : Bool := !delta.newlySevered.isEmpty

/-- Some arc was newly healed. -/
def ArcDelta.isRecovery (delta : ArcDelta F) : Bool := !delta.newlyHealed.isEmpty

/-- Compare the reports before and after a rebuild. -/
def diffReports [Sub F] (before after : SeveredEarReport F) : ArcDelta F where
  newlySevered := sortedDiff after.severed before.severed
  newlyHealed := sortedDiff before.severed after.severed
  coherenceDelta := after.coherence - before.coherence

/-- A regression is an arc that is severed and was not before, a recovery one that was
severed and is not any more. Both can be in one delta. -/
theorem isRegression_diffReports [Sub F] (before after : SeveredEarReport F) :
    ((diffReports before after).isRegression ↔ ¬ after.severed ⊆ before.severed) ∧
      ((diffReports before after).isRecovery ↔ ¬ before.severed ⊆ after.severed) := by
  unfold ArcDelta.isRegression ArcDelta.isRecovery diffReports
  simp only [Bool.not_eq_true', List.isEmpty_eq_false_iff, ne_eq, sortedDiff_eq_nil_iff, and_self]

/-- What a consumer of deltas does to the severed list it keeps. -/
def ArcDelta.replay (severed : List Arc) (delta : ArcDelta F) : List Arc :=
  applyDelta delta.newlyHealed delta.newlySevered severed

/-- The deltas between the neighbours of a list of reports. -/
def telemetry [Sub F] (reports : List (SeveredEarReport F)) : List (ArcDelta F) :=
  reports.zipWith diffReports reports.tail

section Runs

variable [NatCast F] [One F] [Div F] [Sub F]

/-- One delta leads from the severed list before it to the one after it. -/
theorem replay_diffReports {expected : List Arc} (hexpected : expected.Nodup)
    (actual actual' : List Arc) :
    ArcDelta.replay (diffArcs (F := F) expected actual).severed
        (diffReports (diffArcs (F := F) expected actual) (diffArcs expected actual')) =
      (diffArcs (F := F) expected actual').severed :=
  applyDelta_sortedDiff (pairwise_severed_diffArcs hexpected actual)
    (pairwise_severed_diffArcs hexpected actual')

/-- The deltas of a run, applied in order, lead to the severed list of its last report. -/
theorem foldl_replay_telemetry {expected : List Arc} (hexpected : expected.Nodup)
    (first : List Arc) (rest : List (List Arc)) :
    (telemetry ((first :: rest).map (diffArcs (F := F) expected))).foldl ArcDelta.replay
        (diffArcs (F := F) expected first).severed =
      (diffArcs (F := F) expected ((first :: rest).getLast (List.cons_ne_nil _ _))).severed := by
  induction rest generalizing first with
  | nil => rfl
  | cons next rest ih =>
      rw [List.getLast_cons (List.cons_ne_nil next rest), ← ih next]
      simp only [List.map_cons, telemetry, List.tail_cons, List.zipWith_cons_cons,
        List.foldl_cons, replay_diffReports hexpected]

omit [NatCast F] [One F] [Div F] in
/-- A delta of a run compares two of its reports. -/
theorem exists_of_mem_telemetry {reports : List (SeveredEarReport F)} {delta : ArcDelta F}
    (hdelta : delta ∈ telemetry reports) :
    ∃ before ∈ reports, ∃ after ∈ reports, delta = diffReports before after := by
  rw [telemetry, ← List.map_uncurry_zip_eq_zipWith, List.mem_map] at hdelta
  obtain ⟨⟨before, after⟩, hpair, rfl⟩ := hdelta
  obtain ⟨hbefore, hafter⟩ := List.of_mem_zip hpair
  exact ⟨before, hbefore, after, List.mem_of_mem_tail hafter, rfl⟩

/-- Telemetry can be replayed over runs of any length: the deltas lead from the
first severed list to the last, each of them is a pair of strictly sorted lists
without a common arc, and every report partitions the declared arcs into those that
were observed and those that were not. The observed arcs may be in any order, with any
repetitions. -/
theorem telemetry_replays {expected : List Arc} (hexpected : expected.Nodup)
    (first : List Arc) (rest : List (List Arc)) :
    (telemetry ((first :: rest).map (diffArcs (F := F) expected))).foldl ArcDelta.replay
        (diffArcs (F := F) expected first).severed =
      (diffArcs (F := F) expected ((first :: rest).getLast (List.cons_ne_nil _ _))).severed ∧
    (∀ delta ∈ telemetry ((first :: rest).map (diffArcs (F := F) expected)),
      delta.newlySevered.Pairwise (· < ·) ∧ delta.newlyHealed.Pairwise (· < ·) ∧
        delta.newlySevered.Disjoint delta.newlyHealed) ∧
    ∀ actual ∈ first :: rest,
      ((diffArcs (F := F) expected actual).present ++
          (diffArcs (F := F) expected actual).severed).Perm expected ∧
        (diffArcs (F := F) expected actual).present.Disjoint
          (diffArcs (F := F) expected actual).severed ∧
        (∀ arc, arc ∈ (diffArcs (F := F) expected actual).present ↔
          arc ∈ expected ∧ arc ∈ actual) ∧
        ∀ arc, arc ∈ (diffArcs (F := F) expected actual).severed ↔
          arc ∈ expected ∧ arc ∉ actual := by
  refine ⟨foldl_replay_telemetry hexpected first rest, ?_, ?_⟩
  · intro delta hdelta
    obtain ⟨before, hbefore, after, hafter, rfl⟩ := exists_of_mem_telemetry hdelta
    obtain ⟨actual, -, rfl⟩ := List.mem_map.mp hbefore
    obtain ⟨actual', -, rfl⟩ := List.mem_map.mp hafter
    have hsevered := pairwise_severed_diffArcs (F := F) hexpected actual
    have hsevered' := pairwise_severed_diffArcs (F := F) hexpected actual'
    exact ⟨pairwise_sortedDiff (hsevered'.imp ne_of_lt) _,
      pairwise_sortedDiff (hsevered.imp ne_of_lt) _, disjoint_sortedDiff _ _⟩
  · intro actual _
    exact ⟨diffArcs_perm expected actual, disjoint_diffArcs expected actual,
      fun _ => mem_present_diffArcs, fun _ => mem_severed_diffArcs⟩

end Runs

/-- A run in which one arc is severed while another heals. -/
theorem telemetry_replays_swap :
    let calls : Arc := ⟨"a", "b", "calls"⟩
    let defines : Arc := ⟨"a", "b", "defines"⟩
    (telemetry [diffArcs (F := ℚ) [calls, defines] [calls],
        diffArcs [calls, defines] [defines, defines]]).foldl ArcDelta.replay
          (diffArcs (F := ℚ) [calls, defines] [calls]).severed =
      (diffArcs (F := ℚ) [calls, defines] [defines, defines]).severed :=
  (telemetry_replays (F := ℚ) (by decide) [⟨"a", "b", "calls"⟩]
    [[⟨"a", "b", "defines"⟩, ⟨"a", "b", "defines"⟩]]).1

end HabitatGraph
