import HabitatGraph.Core.Schema

/-! # The input manifest

A manifest records every processed input with the hash of its bytes, by path.
-/

namespace HabitatGraph

open StableSort

/-- The bytes of a file. -/
abbrev Bytes := List UInt8

/-- The UTF-8 encoding of a string. -/
def asBytes (s : String) : Bytes := s.toByteArray.data.toList

theorem asBytes_injective : Function.Injective asBytes := by
  intro s s' heq
  apply String.toByteArray_inj.mp
  apply ByteArray.ext
  exact Array.toList_inj.mp heq

section Manifest

variable {PathBuf : Type} (toStringLossy : PathBuf ↪ String) (hash : Bytes → String)

/-- Record one input per path, in ascending order of paths. -/
def buildManifest (inputs : List (PathBuf × Bytes)) (toolVersion : String) : Manifest where
  inputs := sortByKey InputRecord.path
    (inputs.map fun input => ⟨toStringLossy input.1, hash input.2⟩)
  toolVersion := toolVersion
  generatedAt := none

variable {toStringLossy hash}

theorem mem_buildManifest_inputs {inputs : List (PathBuf × Bytes)} {toolVersion : String}
    {record : InputRecord} :
    record ∈ (buildManifest toStringLossy hash inputs toolVersion).inputs ↔
      ∃ input ∈ inputs, record = ⟨toStringLossy input.1, hash input.2⟩ := by
  rw [buildManifest, mem_sortByKey, List.mem_map]
  simp only [eq_comm]

/-- Distinct inputs are recorded under distinct paths. -/
theorem nodup_buildManifest_paths {inputs : List (PathBuf × Bytes)} {toolVersion : String}
    (h : (inputs.map Prod.fst).Nodup) :
    ((buildManifest toStringLossy hash inputs toolVersion).inputs.map InputRecord.path).Nodup := by
  rw [buildManifest, ((sortByKey_perm _).map InputRecord.path).nodup_iff, List.map_map]
  have hpaths := h.map toStringLossy.injective
  rwa [List.map_map] at hpaths

end Manifest

end HabitatGraph
