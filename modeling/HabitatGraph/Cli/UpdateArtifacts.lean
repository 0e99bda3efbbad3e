import HabitatGraph.Cli.UpdateWorld

/-! # Artifacts and the recorded state

After a successful update `graph.json` should show the graph of the sidecar, and
the sidecar should record the tree as it is. Over histories in which runs may
fail at any call this holds exactly when every run that finds nothing to do finds
the `graph.json` that the last successful run left.
-/

namespace HabitatGraph

open Program

namespace Toolchain

variable {PathBuf : Type} [LinearOrder PathBuf] {T : Toolchain PathBuf} {w w' : World PathBuf}

/-- `graph.json` shows the graph of the sidecar, and the manifest of the sidecar
records the tree. -/
def Agrees (T : Toolchain PathBuf) (w : World PathBuf) : Prop :=
  ∃ text graph json, w.disk .sidecar = some text ∧ T.fromJson text = .ok graph ∧
    T.toNodeLink graph = .ok json ∧ w.disk .graphJson = some json ∧
      graph.manifest = T.manifestOf w.tree

/-- The sidecar records the tree, so that an update finds nothing to do. -/
def NothingToDo (T : Toolchain PathBuf) (w : World PathBuf) : Prop :=
  ∃ priorGraph, T.prior w.disk = some priorGraph ∧ (T.diffOf priorGraph w.tree).IsEmpty

/-- Every successful run that finds nothing to do finds the `graph.json` that the
last successful run left; `published` is that text before the first run. -/
def Undisturbed (T : Toolchain PathBuf) : Option String → List (RunRecord PathBuf) → Prop
  | _, [] => True
  | published, r :: records =>
      match r.result with
      | .ok _ =>
          (T.NothingToDo r.start → r.start.disk .graphJson = published) ∧
            Undisturbed T (r.stop.disk .graphJson) records
      | .error _ => Undisturbed T published records

/-! ## What the sidecar says -/

/-- The sidecar, if any, holds the graph shown by `published` and the manifest of
some tree. -/
def Recorded (T : Toolchain PathBuf) (published : Option String)
    (disk : PartialMap Artifact String) : Prop :=
  ∀ text, disk .sidecar = some text → ∃ graph json, ∃ tree : SourceTree PathBuf,
    T.fromJson text = .ok graph ∧ T.toNodeLink graph = .ok json ∧ published = some json ∧
      graph.manifest = T.manifestOf tree

theorem Agrees.recorded (h : T.Agrees w) : T.Recorded (w.disk .graphJson) w.disk := by
  obtain ⟨text, graph, json, htext, hgraph, hjson, hpublished, hmanifest⟩ := h
  intro text' htext'
  obtain rfl := Option.some.inj (htext.symm.trans htext')
  exact ⟨graph, json, w.tree, hgraph, hjson, hpublished, hmanifest⟩

omit [LinearOrder PathBuf] in
theorem exists_text_of_prior {disk : PartialMap Artifact String} {priorGraph : Graph}
    (h : T.prior disk = some priorGraph) :
    ∃ text, disk .sidecar = some text ∧ T.fromJson text = .ok priorGraph := by
  obtain ⟨text, htext, hparse⟩ := Option.bind_eq_some_iff.mp h
  refine ⟨text, htext, ?_⟩
  unfold parseSidecar at hparse
  split at hparse
  next graph hgraph =>
    split at hparse
    next => exact hgraph.trans (congrArg Except.ok (Option.some.inj hparse))
    next => cases hparse
  next => cases hparse

/-- What was just published agrees with what was just recorded. -/
theorem Published.agrees (hroundTrips : T.RoundTrips) {graph : Graph}
    {disk : PartialMap Artifact String}
    (h : T.Published graph (T.manifestOf w.tree) disk w.disk) : T.Agrees w := by
  obtain ⟨json, html, sidecarJson, hjson, -, hsidecar, hdisk⟩ := h
  refine ⟨sidecarJson, _, json, ?_, hroundTrips _ _ hsidecar, ?_, ?_, rfl⟩
  · rw [hdisk]
    rfl
  · rwa [toNodeLink, nodeLinkEnvelope_manifest]
  · rw [hdisk]
    rfl

/-- A run that finds nothing to do leaves things in agreement when `graph.json` is
the published one. -/
theorem agrees_of_noop_iff {published : Option String} (hrecorded : T.Recorded published w.disk)
    {priorGraph : Graph} (hprior : T.prior w.disk = some priorGraph)
    (hempty : (T.diffOf priorGraph w.tree).IsEmpty) :
    T.Agrees w ↔ w.disk .graphJson = published := by
  obtain ⟨text, htext, hgraph⟩ := exists_text_of_prior hprior
  obtain ⟨graph, json, tree, hgraph', hjson, rfl, hmanifest⟩ := hrecorded text htext
  obtain rfl : graph = priorGraph := Except.ok.inj (hgraph'.symm.trans hgraph)
  constructor
  · rintro ⟨text', graph', json', htext', hgraph'', hjson', hdisk, -⟩
    obtain rfl := Option.some.inj (htext.symm.trans htext')
    obtain rfl : graph' = graph := Except.ok.inj (hgraph''.symm.trans hgraph)
    rw [hdisk, Except.ok.inj (hjson'.symm.trans hjson)]
  · intro hdisk
    refine ⟨text, graph, json, htext, hgraph, hjson, hdisk, ?_⟩
    rw [diffOf, hmanifest] at hempty
    rw [hmanifest, manifestOf_eq_of_isEmpty hempty]

/-! ## One run -/

/-- A successful run ends in agreement when it had something to do, or found the
`graph.json` it expects. -/
theorem agrees_of_outcome_iff (hroundTrips : T.RoundTrips) {published : Option String}
    (hrecorded : T.Recorded published w.disk) (htree : w'.tree = w.tree)
    (h : T.Outcome w.tree w.disk w'.disk) :
    T.Agrees w' ↔ (T.NothingToDo w → w.disk .graphJson = published) := by
  have hbuilt : ∀ {graph : Graph}, ¬ T.NothingToDo w →
      T.Published graph (T.manifestOf w.tree) w.disk w'.disk →
        (T.Agrees w' ↔ (T.NothingToDo w → w.disk .graphJson = published)) := by
    intro graph hnothing hpublished
    rw [← htree] at hpublished
    exact ⟨fun _ h => absurd h hnothing, fun _ => hpublished.agrees hroundTrips⟩
  generalize hdisk : w'.disk = disk' at h hbuilt
  cases h with
  | full hprior hparses hassemble hpublished =>
      refine hbuilt ?_ hpublished
      rintro ⟨priorGraph, hsome, -⟩
      rw [hprior] at hsome
      cases hsome
  | incremental hprior hempty hparses hassemble hmerge hpublished =>
      refine hbuilt ?_ hpublished
      intro ⟨priorGraph, hsome, hempty'⟩
      obtain rfl := Option.some.inj (hprior.symm.trans hsome)
      exact hempty hempty'
  | @noop priorGraph hprior hempty =>
      rw [World.ext htree hdisk, agrees_of_noop_iff hrecorded hprior hempty]
      exact ⟨fun h _ => h, fun h => h ⟨priorGraph, hprior, hempty⟩⟩

/-! ## Histories -/

/-- What a good run published and recorded stays so while runs fail. -/
theorem Recorded.congr {published : Option String} {disk disk' : PartialMap Artifact String}
    (h : T.Recorded published disk) (hsidecar : disk' .sidecar = disk .sidecar) :
    T.Recorded published disk' := by
  unfold Recorded at h ⊢
  rwa [hsidecar]

theorem undisturbed_rule (hroundTrips : T.RoundTrips) :
    HistoryRule T Eq T.Agrees T.Recorded
      (fun published r => T.NothingToDo r.start → r.start.disk .graphJson = published)
      (fun r => r.stop.disk .graphJson) T.Undisturbed where
  nil _ := trivial
  error published r records e hresult := by rw [Undisturbed, hresult]
  ok published r records line hresult := by rw [Undisturbed, hresult]
  sidecar _ _ _ := Recorded.congr
  good published r line hrecorded hrun := by
    refine ⟨?_, Agrees.recorded⟩
    exact agrees_of_outcome_iff hroundTrips hrecorded (reads_of_steps hrun.steps).1
      (outcome_of_run hrun)

/-- Over every history from a directory without a sidecar, all successful runs
end in agreement exactly when no run that finds nothing to do was disturbed. Runs may
fail at any call and leave artifacts of their own behind; only the sidecar is asked to
round trip. -/
theorem agrees_iff_undisturbed (hroundTrips : T.RoundTrips) {records : List (RunRecord PathBuf)}
    (hstart : w.disk .sidecar = none) (h : History T Eq w records w') :
    (∀ r ∈ records, r.result.isOk → T.Agrees r.stop) ↔ T.Undisturbed none records := by
  apply (undisturbed_rule hroundTrips).forall_good_iff h
  intro text htext
  rw [hstart] at htext
  cases htext

/-! ## A stale graph that reports success -/

theorem toOption_eq_some_iff {ε α : Type} {outcome : Except ε α} {a : α} :
    outcome.toOption = some a ↔ outcome = .ok a := by
  cases outcome <;> simp [Except.toOption]

instance (w : World PathBuf) : Decidable (T.Agrees w) :=
  decidable_of_iff
    (∃ text ∈ w.disk .sidecar, ∃ graph ∈ (T.fromJson text).toOption,
      ∃ json ∈ (T.toNodeLink graph).toOption,
        w.disk .graphJson = some json ∧ graph.manifest = T.manifestOf w.tree) (by
    simp only [Option.mem_def, toOption_eq_some_iff]
    constructor
    · intro ⟨text, htext, graph, hgraph, json, hjson, hrest⟩
      exact ⟨text, graph, json, htext, hgraph, hjson, hrest⟩
    · intro ⟨text, graph, json, htext, hgraph, hjson, hrest⟩
      exact ⟨text, htext, graph, hgraph, json, hjson, hrest⟩)

def functionToolchain : Toolchain String :=
  sample extractFunction [("saved", savedGraph "fn a() \x7b\x7d")]

/-- Build with `a`; change it to `b`, and be refused the report; change it back. -/
def revertedScript : List (SourceTree String × List (Option String)) :=
  [(singleFile "fn a() \x7b\x7d", List.replicate 10 none),
    (singleFile "fn b() \x7b\x7d", List.replicate 8 none ++ [some "disk full"]),
    (singleFile "fn a() \x7b\x7d", List.replicate 4 none)]

theorem exists_disagreement_of_revert :
    ∃ played ∈ play functionToolchain World.respondAtRest emptyWorld revertedScript,
      ∃ r ∈ played.1, r.result.isOk ∧ ¬ functionToolchain.Agrees r.stop := by
  decide +kernel

/-- Files changed, an update that fails after `graph.json`, files changed back:
the next update finds nothing to do and leaves the wrong `graph.json`. -/
theorem revert_leaves_stale_graph :
    ∃ (T : Toolchain String) (w w' : World String) (records : List (RunRecord String)),
      T.RoundTrips ∧ Function.Injective T.hash ∧ w.disk .sidecar = none ∧
        History T Eq w records w' ∧ ∃ r ∈ records, r.result.isOk ∧ ¬ T.Agrees r.stop := by
  obtain ⟨⟨records, w'⟩, hplay, hdisagree⟩ := exists_disagreement_of_revert
  exact ⟨functionToolchain, emptyWorld, w', records, sample_roundTrips (by decide),
    sample_hash_injective, rfl, history_of_play respondAtRest_eq hplay, hdisagree⟩

/-- The third run of that history was disturbed. -/
theorem revert_disturbs :
    ∃ played ∈ play functionToolchain World.respondAtRest emptyWorld revertedScript,
      ¬ functionToolchain.Undisturbed none played.1 := by
  obtain ⟨played, hplay, r, hr, hok, hdisagree⟩ := exists_disagreement_of_revert
  refine ⟨played, hplay, fun hundisturbed => hdisagree ?_⟩
  exact (agrees_iff_undisturbed (sample_roundTrips (by decide)) rfl
    (history_of_play respondAtRest_eq hplay)).mpr hundisturbed r hr hok

end Toolchain

end HabitatGraph
