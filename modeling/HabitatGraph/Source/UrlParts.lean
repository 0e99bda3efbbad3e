import HabitatGraph.Core.StrDebug
import HabitatGraph.Foundation.Splitting

/-! # Scheme and host of a URL

The view of the guard: the authority ends at the first slash, question mark, number sign
or backslash; userinfo ends at its last at sign, and a port begins at its last colon
unless the host is in brackets.
-/

namespace HabitatGraph

open Splitting

/-- A character that ends the authority. -/
def isAuthorityEnd (ch : Char) : Bool := ch == '/' || ch == '?' || ch == '#' || ch == '\\'

/-- The authority in front of what follows the scheme. -/
def authority (afterScheme : List Char) : List Char :=
  afterScheme.takeWhile fun ch => !isAuthorityEnd ch

/-- The authority without userinfo. -/
def hostAndPort (authority : List Char) : List Char :=
  match splitLast? '@' authority with
  | some parts => parts.2
  | none => authority

/-- The host without a port or brackets, none when a bracket is not closed. -/
def urlHost (hostAndPort : List Char) : Option (List Char) :=
  if hostAndPort.head? = some '[' then
    (splitOnce? [']'] hostAndPort).map fun parts => parts.1.drop 1
  else
    match splitLast? ':' hostAndPort with
    | some parts => some parts.1
    | none => some hostAndPort

/-- The scheme of a URL and what follows it. -/
def splitScheme (url : String) : Option (List Char × List Char) :=
  splitOnce? [':', '/', '/'] url.toList

/-- Scheme and host of a URL. -/
def parseUrlParts (tables : UnicodeTables) (url : String) : Except String (String × String) :=
  match splitScheme url with
  | none => .error ("missing '://' in URL: " ++ strDebug tables url)
  | some (scheme, afterScheme) =>
      if (authority afterScheme).isEmpty then
        .error ("URL has no host: " ++ strDebug tables url)
      else
        match urlHost (hostAndPort (authority afterScheme)) with
        | none => .error ("unclosed '[' in URL: " ++ strDebug tables url)
        | some host =>
            if host.isEmpty then .error ("URL has empty host: " ++ strDebug tables url)
            else .ok (String.ofList scheme, String.ofList host)

variable {tables : UnicodeTables}

/-- What is found where in a URL that has parts. -/
theorem parseUrlParts_eq_ok_iff {url : String} {parts : String × String} :
    parseUrlParts tables url = .ok parts ↔
      ∃ scheme afterScheme host, splitScheme url = some (scheme, afterScheme) ∧
        authority afterScheme ≠ [] ∧ urlHost (hostAndPort (authority afterScheme)) = some host ∧
        host ≠ [] ∧ parts = (String.ofList scheme, String.ofList host) := by
  unfold parseUrlParts
  cases hscheme : splitScheme url with
  | none => simp
  | some split =>
      obtain ⟨scheme, afterScheme⟩ := split
      dsimp only
      split_ifs with hauthority
      · simp [List.isEmpty_iff.mp hauthority]
      · cases hhost : urlHost (hostAndPort (authority afterScheme)) with
        | none => simp [hhost]
        | some host =>
            dsimp only
            split_ifs with hempty
            · simp [hhost, List.isEmpty_iff.mp hempty]
            · rw [List.isEmpty_iff] at hauthority hempty
              simp [hhost, hauthority, hempty, eq_comm]

/-! ## Where the parts of a well-formed URL are found -/

theorem splitScheme_ofList {scheme afterScheme : List Char} (hscheme : ':' ∉ scheme) :
    splitScheme (String.ofList (scheme ++ [':', '/', '/'] ++ afterScheme)) =
      some (scheme, afterScheme) := by
  rw [splitScheme, String.toList_ofList]
  exact splitOnce?_append hscheme

theorem authority_append {text tail : List Char} (htext : ∀ ch ∈ text, isAuthorityEnd ch = false)
    (htail : ∀ ch ∈ tail.head?, isAuthorityEnd ch) : authority (text ++ tail) = text := by
  have hall : ∀ ch ∈ text, (!isAuthorityEnd ch) = true := by
    intro ch hch
    rw [htext ch hch, Bool.not_false]
  rw [authority, List.takeWhile_append_of_pos hall]
  cases tail with
  | nil => exact List.append_nil text
  | cons ch tail =>
      have hend : ¬ (!isAuthorityEnd ch) = true := by
        rw [htail ch rfl]
        decide
      rw [List.takeWhile_cons, if_neg hend, List.append_nil]

theorem hostAndPort_of_notMem {text : List Char} (htext : '@' ∉ text) :
    hostAndPort text = text := by
  rw [hostAndPort, splitLast?_eq_none_iff.mpr htext]

/-- The last at sign ends the userinfo, whatever stands in it. -/
theorem hostAndPort_append {userinfo text : List Char} (htext : '@' ∉ text) :
    hostAndPort (userinfo ++ '@' :: text) = text := by
  rw [hostAndPort, splitLast?_eq_some_iff.mpr ⟨rfl, htext⟩]

theorem urlHost_of_notMem {text : List Char} (hbracket : text.head? ≠ some '[')
    (htext : ':' ∉ text) : urlHost text = some text := by
  rw [urlHost, if_neg hbracket, splitLast?_eq_none_iff.mpr htext]

theorem urlHost_append {text port : List Char} (hbracket : (text ++ ':' :: port).head? ≠ some '[')
    (hport : ':' ∉ port) : urlHost (text ++ ':' :: port) = some text := by
  rw [urlHost, if_neg hbracket, splitLast?_eq_some_iff.mpr ⟨rfl, hport⟩]

theorem urlHost_bracket {text rest : List Char} (htext : ']' ∉ text) :
    urlHost ('[' :: (text ++ ']' :: rest)) = some text := by
  have hnotMem : ']' ∉ '[' :: text := List.not_mem_cons_of_ne_of_not_mem (by decide) htext
  have hsplit : splitOnce? [']'] ('[' :: text ++ [']'] ++ rest) = some ('[' :: text, rest) :=
    splitOnce?_append hnotMem
  rw [List.append_assoc, List.singleton_append, List.cons_append] at hsplit
  rw [urlHost, List.head?_cons, if_pos rfl, hsplit]
  rfl

end HabitatGraph
