import HabitatGraph.Core.Sanitize
import HabitatGraph.Core.Schema
import HabitatGraph.Foundation.Splitting

/-! # The lexical check of a URL

A cheap check before a URL is parsed: its length, its characters, its scheme, and what
stands before the first slash.
-/

namespace HabitatGraph

open Splitting

/-- Maximum accepted length of a URL, in bytes. -/
def maxUrlLen : Nat := 2048

def rejectUrl (message : String) : Except GraphError String :=
  .error (.guard ("invalid url: " ++ message))

/-- Check a URL and return it unchanged. -/
def validateUrl (raw : String) : Except GraphError String :=
  if maxUrlLen < raw.utf8ByteSize then rejectUrl "exceeds maximum length"
  else if raw.toList.any fun ch => ch == ' ' || isRenderDangerous ch then
    rejectUrl "contains control, space, or bidi/zero-width character"
  else
    match (dropStart? "https://".toList raw.toList).or (dropStart? "http://".toList raw.toList) with
    | none => rejectUrl "scheme must be http or https"
    | some rest =>
        let host := rest.takeWhile fun ch => ch != '/'
        if host.isEmpty then rejectUrl "missing host"
        else if host.contains '@' then rejectUrl "embedded credentials are not allowed"
        else .ok raw

/-- What the check accepts, short of its limits on length and characters. -/
theorem exists_of_validateUrl {raw url : String} (h : validateUrl raw = .ok url) :
    url = raw ∧ ∃ scheme rest, (scheme = "https" ∨ scheme = "http") ∧
      raw.toList = scheme.toList ++ [':', '/', '/'] ++ rest ∧
      '@' ∉ rest.takeWhile fun ch => ch != '/' := by
  unfold validateUrl rejectUrl at h
  split at h
  next => cases h
  next =>
    split at h
    next => cases h
    next =>
      split at h
      next => cases h
      next rest hrest =>
        dsimp only at h
        split_ifs at h with hempty hat
        cases h
        rw [List.contains_iff_mem] at hat
        rw [Option.or_eq_some_iff, dropStart?_eq_some_iff, dropStart?_eq_some_iff] at hrest
        rcases hrest with hhttps | ⟨_, hhttp⟩
        · exact ⟨rfl, "https", rest, Or.inl rfl, hhttps, hat⟩
        · exact ⟨rfl, "http", rest, Or.inr rfl, hhttp, hat⟩

end HabitatGraph
