import HabitatGraph.Source.Manifest
import Mathlib.Data.List.Dedup

/-! # Comparing manifests

An incremental update compares the recorded hashes with the current ones. Files
are extracted again, and prior nodes out of date, exactly where the two maps
from paths to hashes differ.
-/

namespace HabitatGraph

open StableSort

/-- The paths of a manifest, each once. -/
def Manifest.paths (m : Manifest) : List String := (m.inputs.map InputRecord.path).dedup

/-- The recorded hash of each path. -/
def Manifest.hashes (m : Manifest) : PartialMap String String :=
  PartialMap.ofEntries (m.inputs.map fun r => (r.path, r.contentHash))

/-- What happened to the inputs since the prior build. -/
structure InputDiff where
  added : List String
  removed : List String
  changed : List String
deriving DecidableEq, Repr

/-- Compare the inputs of the prior build with the current ones. -/
def diffInputs (prior current : Manifest) : InputDiff where
  added := sortByKey (fun p => p) (current.paths.filter fun p => p ∉ prior.paths)
  removed := sortByKey (fun p => p) (prior.paths.filter fun p => p ∉ current.paths)
  changed := sortByKey (fun p => p)
    (current.paths.filter fun p => p ∈ prior.paths ∧ current.hashes p ≠ prior.hashes p)

namespace InputDiff

/-- The number of files to extract again. -/
def needReextract (d : InputDiff) : Nat := d.added.length + d.changed.length

/-- The files to extract again. -/
def toExtractSet (d : InputDiff) : List String := d.added ++ d.changed

/-- The files whose prior nodes are out of date. -/
def staleSet (d : InputDiff) : List String := d.changed ++ d.removed

/-- Nothing was added, removed or changed. -/
def IsEmpty (d : InputDiff) : Prop := d.needReextract = 0 ∧ d.removed = []

instance (d : InputDiff) : Decidable d.IsEmpty := inferInstanceAs (Decidable (_ ∧ _))

end InputDiff

/-! ## What the comparison says -/

theorem Manifest.mem_paths_iff {m : Manifest} {p : String} :
    p ∈ m.paths ↔ p ∈ m.inputs.map InputRecord.path := List.mem_dedup

theorem Manifest.hashes_eq_none_iff {m : Manifest} {p : String} :
    m.hashes p = none ↔ p ∉ m.paths := by
  rw [Manifest.hashes, PartialMap.ofEntries_eq_none_iff, List.map_map, mem_paths_iff]
  rfl

theorem Manifest.hashes_eq_some_iff {m : Manifest} (hnodup : (m.inputs.map InputRecord.path).Nodup)
    {p h : String} : m.hashes p = some h ↔ ⟨p, h⟩ ∈ m.inputs := by
  rw [Manifest.hashes, PartialMap.ofEntries_eq_some_iff (by rwa [List.map_map]), List.mem_map]
  constructor
  · intro ⟨r, hr, heq⟩
    obtain ⟨rfl, rfl⟩ := Prod.mk.inj heq
    exact hr
  · intro hr
    exact ⟨⟨p, h⟩, hr, rfl⟩

section Diff

variable {prior current : Manifest} {p : String}

theorem mem_toExtractSet_iff :
    p ∈ (diffInputs prior current).toExtractSet ↔
      p ∈ current.paths ∧ current.hashes p ≠ prior.hashes p := by
  simp only [diffInputs, InputDiff.toExtractSet, List.mem_append, mem_sortByKey, List.mem_filter,
    decide_eq_true_eq]
  by_cases hcurrent : p ∈ current.paths
  · by_cases hprior : p ∈ prior.paths
    · simp [hcurrent, hprior]
    · -- an added file has a hash now and had none before
      have hne : current.hashes p ≠ prior.hashes p := by
        rw [Manifest.hashes_eq_none_iff.mpr hprior]
        exact mt Manifest.hashes_eq_none_iff.mp (not_not.mpr hcurrent)
      simp [hcurrent, hprior, hne]
  · simp [hcurrent]

theorem mem_staleSet_iff :
    p ∈ (diffInputs prior current).staleSet ↔
      p ∈ prior.paths ∧ current.hashes p ≠ prior.hashes p := by
  simp only [diffInputs, InputDiff.staleSet, List.mem_append, mem_sortByKey, List.mem_filter,
    decide_eq_true_eq]
  by_cases hprior : p ∈ prior.paths
  · by_cases hcurrent : p ∈ current.paths
    · simp [hcurrent, hprior]
    · -- a removed file had a hash and has none now
      have hne : current.hashes p ≠ prior.hashes p := by
        rw [Manifest.hashes_eq_none_iff.mpr hcurrent]
        exact Ne.symm (mt Manifest.hashes_eq_none_iff.mp (not_not.mpr hprior))
      simp [hcurrent, hprior, hne]
  · simp [hprior]

/-- There is nothing to do when the two maps agree everywhere, and only then. -/
theorem isEmpty_diffInputs_iff :
    (diffInputs prior current).IsEmpty ↔ ∀ p, current.hashes p = prior.hashes p := by
  have hsplit : (diffInputs prior current).IsEmpty ↔
      (diffInputs prior current).toExtractSet = [] ∧ (diffInputs prior current).staleSet = [] := by
    simp only [InputDiff.IsEmpty, InputDiff.needReextract, InputDiff.toExtractSet,
      InputDiff.staleSet, List.append_eq_nil_iff, Nat.add_eq_zero_iff, List.length_eq_zero_iff]
    tauto
  rw [hsplit, List.eq_nil_iff_forall_not_mem, List.eq_nil_iff_forall_not_mem]
  simp only [mem_toExtractSet_iff, mem_staleSet_iff]
  constructor
  · intro ⟨hextract, hstale⟩ p
    by_contra hne
    have hcurrent : current.hashes p = none :=
      Manifest.hashes_eq_none_iff.mpr fun h => hextract p ⟨h, hne⟩
    have hprior : prior.hashes p = none :=
      Manifest.hashes_eq_none_iff.mpr fun h => hstale p ⟨h, hne⟩
    exact hne (hcurrent.trans hprior.symm)
  · intro heq
    exact ⟨fun p h => h.2 (heq p), fun p h => h.2 (heq p)⟩

end Diff

/-- Manifests in canonical order that agree on every hash list the same inputs. -/
theorem Manifest.inputs_eq_of_hashes_eq {m m' : Manifest}
    (hm : (m.inputs.map InputRecord.path).Nodup) (hm' : (m'.inputs.map InputRecord.path).Nodup)
    (hsorted : m.inputs.Pairwise fun r r' => r.path ≤ r'.path)
    (hsorted' : m'.inputs.Pairwise fun r r' => r.path ≤ r'.path)
    (h : ∀ p, m.hashes p = m'.hashes p) : m.inputs = m'.inputs := by
  apply eq_of_pairwise_lt_of_mem_iff (pairwise_lt_of_nodup hsorted hm)
    (pairwise_lt_of_nodup hsorted' hm')
  intro r
  rw [← hashes_eq_some_iff hm, ← hashes_eq_some_iff hm', h]

end HabitatGraph
