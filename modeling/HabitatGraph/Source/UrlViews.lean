import HabitatGraph.Core.GuardUrl
import HabitatGraph.Source.UrlParts
import Mathlib.Data.List.TakeWhile

/-! # Two views of a URL

The lexical check looks for a host in front of the first slash, the guard in front of the
first of four delimiters, and without port and brackets. What the check accepts has a host
in the view of the guard exactly when its authority begins with one.
-/

namespace HabitatGraph

open Splitting

/-- The authority of a URL: what stands between the scheme and the next delimiter. -/
def urlAuthority (url : String) : List Char :=
  match splitScheme url with
  | some (_, afterScheme) => authority afterScheme
  | none => []

/-- An authority without userinfo begins with a host: not empty, not a port alone, and a
bracket encloses something. -/
def beginsWithHost : List Char → Bool
  | [] => false
  | '[' :: rest => rest.contains ']' && rest.head? != some ']'
  | ':' :: rest => rest.contains ':'
  | _ => true

variable {tables : UnicodeTables}

/-- The guard finds what the check promises: a scheme of the web, a host, no userinfo. -/
def GuardAgrees (tables : UnicodeTables) (url : String) : Prop :=
  ∃ scheme host, parseUrlParts tables url = .ok (scheme, host) ∧
    (scheme = "https" ∨ scheme = "http") ∧ host ≠ "" ∧ '@' ∉ urlAuthority url

theorem urlHost_bracket_iff {rest host : List Char} :
    urlHost ('[' :: rest) = some host ↔ ∃ after, rest = host ++ ']' :: after ∧ ']' ∉ host := by
  have hne : ']' ≠ '[' := by decide
  rw [urlHost, List.head?_cons, if_pos rfl, Option.map_eq_some_iff]
  apply Iff.intro
  · rintro ⟨parts, hsplit, hhost⟩
    obtain ⟨heq, hbefore⟩ := splitOnce?_singleton_eq_some_iff.mp hsplit
    cases hparts : parts.1 with
    | nil =>
        rw [hparts] at heq
        exact absurd (List.cons.inj heq).1.symm hne
    | cons ch text =>
        rw [hparts] at heq hbefore hhost
        cases hhost
        exact ⟨parts.2, (List.cons.inj heq).2, fun hmem => hbefore (List.mem_cons_of_mem _ hmem)⟩
  · rintro ⟨after, hrest, hhost⟩
    refine ⟨('[' :: host, after), splitOnce?_singleton_eq_some_iff.mpr ⟨?_, ?_⟩, rfl⟩
    · rw [hrest]
      rfl
    · exact List.not_mem_cons_of_ne_of_not_mem hne hhost

/-- A bracket encloses something when it is closed, and not at once. -/
theorem exists_urlHost_bracket_iff {rest : List Char} :
    (∃ host, urlHost ('[' :: rest) = some host ∧ host ≠ []) ↔
      ']' ∈ rest ∧ rest.head? ≠ some ']' := by
  simp only [urlHost_bracket_iff]
  apply Iff.intro
  · intro ⟨host, ⟨after, hrest, hhost⟩, hne⟩
    obtain ⟨ch, text, rfl⟩ := List.exists_cons_of_ne_nil hne
    rw [hrest]
    refine ⟨List.mem_append_right _ List.mem_cons_self, ?_⟩
    intro hhead
    cases hhead
    exact hhost List.mem_cons_self
  · intro ⟨hmem, hhead⟩
    obtain ⟨host, after, hrest, hhost⟩ := List.eq_append_cons_of_mem hmem
    refine ⟨host, ⟨after, hrest, hhost⟩, ?_⟩
    intro hnil
    rw [hrest, hnil] at hhead
    exact hhead rfl

/-- The guard finds a host that is not empty exactly when the text begins with one. -/
theorem exists_urlHost_iff (text : List Char) :
    (∃ host, urlHost text = some host ∧ host ≠ []) ↔ beginsWithHost text := by
  unfold beginsWithHost
  split
  next =>
    have hempty : urlHost [] = some [] := rfl
    simp [hempty]
  next rest =>
    rw [exists_urlHost_bracket_iff, Bool.and_eq_true, List.contains_iff_mem, bne_iff_ne]
  next rest =>
    have hbracket : (':' :: rest).head? ≠ some '[' := by simp
    rw [urlHost, if_neg hbracket, splitLast?, List.contains_iff_mem]
    cases hsplit : splitLast? ':' rest with
    | none => simp [splitLast?_eq_none_iff.mp hsplit]
    | some parts =>
        obtain ⟨hrest, _⟩ := splitLast?_eq_some_iff.mp hsplit
        simp [hrest]
  next hnil hbracket hcolon =>
    cases text with
    | nil => exact absurd rfl hnil
    | cons ch rest =>
        have hhead : (ch :: rest).head? ≠ some '[' := by
          intro h
          cases h
          exact hbracket rest rfl
        rw [urlHost, if_neg hhead, splitLast?]
        cases splitLast? ':' rest with
        | none =>
            have hne : ch ≠ ':' := fun heq => hcolon rest (by rw [heq])
            simp [hne]
        | some parts => simp

/-- No user is named before a delimiter when none is named before the first slash. -/
theorem notMem_authority {rest : List Char} (h : '@' ∉ rest.takeWhile fun ch => ch != '/') :
    '@' ∉ authority rest := by
  have hshorter : authority rest =
      (rest.takeWhile fun ch => ch != '/').takeWhile fun ch => !isAuthorityEnd ch := by
    rw [authority, List.takeWhile_takeWhile]
    congr 1
    ext ch
    rw [Bool.eq_iff_iff]
    simp only [isAuthorityEnd, Bool.not_or, Bool.and_eq_true, Bool.not_eq_true', bne_iff_ne,
      beq_eq_false_iff_ne, ne_eq, decide_eq_true_eq]
    exact ⟨fun hch => ⟨hch, hch.1.1.1⟩, And.left⟩
  rw [hshorter]
  exact fun hmem => h ((List.takeWhile_sublist _).subset hmem)

/-- The guard agrees with the check exactly when the authority begins with a host. This
is for every string that the check accepts, however it is spelled. -/
theorem validateUrl_guardAgrees_iff {url : String} (h : validateUrl url = .ok url) :
    GuardAgrees tables url ↔ beginsWithHost (urlAuthority url) := by
  obtain ⟨_, scheme, rest, hscheme, hurl, hat⟩ := exists_of_validateUrl h
  have hcolon : ':' ∉ scheme.toList := by
    rcases hscheme with rfl | rfl
    · decide
    · decide
  have hsplit : splitScheme url = some (scheme.toList, rest) := by
    rw [splitScheme, hurl]
    exact splitOnce?_append hcolon
  have hauthority : urlAuthority url = authority rest := by rw [urlAuthority, hsplit]
  have hnotMem := notMem_authority hat
  have hhostAndPort := hostAndPort_of_notMem hnotMem
  rw [hauthority, ← exists_urlHost_iff]
  apply Iff.intro
  · rintro ⟨_, host, hparts, _, hhost, _⟩
    obtain ⟨scheme', afterScheme, host', hsplit', _, hhost', hne, heq⟩ :=
      parseUrlParts_eq_ok_iff.mp hparts
    rw [hsplit] at hsplit'
    cases hsplit'
    rw [hhostAndPort] at hhost'
    exact ⟨host', hhost', hne⟩
  · rintro ⟨host, hhost, hne⟩
    have hauthorityNe : authority rest ≠ [] := by
      intro hnil
      rw [hnil] at hhost
      cases hhost
      exact hne rfl
    have hparts : parseUrlParts tables url = .ok (scheme, String.ofList host) :=
      parseUrlParts_eq_ok_iff.mpr ⟨scheme.toList, rest, host, hsplit, hauthorityNe,
        by rw [hhostAndPort, hhost], hne, by rw [String.ofList_toList]⟩
    refine ⟨scheme, String.ofList host, hparts, hscheme, ?_, ?_⟩
    · intro hempty
      apply hne
      rw [← String.toList_ofList (l := host), hempty]
      rfl
    · rw [hauthority]
      exact hnotMem

theorem validateUrl_guardAgrees_iff_port :
    validateUrl "https://h:80/?q" = .ok "https://h:80/?q" ∧
      (GuardAgrees asciiTables "https://h:80/?q" ↔
        beginsWithHost (urlAuthority "https://h:80/?q")) := by
  have haccepted : validateUrl "https://h:80/?q" = .ok "https://h:80/?q" := by rfl
  exact ⟨haccepted, validateUrl_guardAgrees_iff haccepted⟩

theorem not_guardAgrees_of_error {url message : String}
    (h : parseUrlParts tables url = .error message) : ¬ GuardAgrees tables url := by
  intro ⟨scheme, host, hparts, _⟩
  rw [h] at hparts
  cases hparts

/-- Nothing before a question mark, a port alone, a bracket that is not closed, and one
that encloses nothing. -/
theorem validateUrl_accepts_without_host :
    (validateUrl "https://?x" = .ok "https://?x" ∧ ¬ GuardAgrees asciiTables "https://?x") ∧
      (validateUrl "http://:80/" = .ok "http://:80/" ∧
        ¬ GuardAgrees asciiTables "http://:80/") ∧
      (validateUrl "http://[::1" = .ok "http://[::1" ∧
        ¬ GuardAgrees asciiTables "http://[::1") ∧
      validateUrl "http://[]/" = .ok "http://[]/" ∧ ¬ GuardAgrees asciiTables "http://[]/" := by
  have hquery : parseUrlParts asciiTables "https://?x" =
      .error "URL has no host: \"https://?x\"" := by rfl
  have hport : parseUrlParts asciiTables "http://:80/" =
      .error "URL has empty host: \"http://:80/\"" := by rfl
  have hunclosed : parseUrlParts asciiTables "http://[::1" =
      .error "unclosed '[' in URL: \"http://[::1\"" := by rfl
  have hempty : parseUrlParts asciiTables "http://[]/" =
      .error "URL has empty host: \"http://[]/\"" := by rfl
  exact ⟨⟨rfl, not_guardAgrees_of_error hquery⟩, ⟨rfl, not_guardAgrees_of_error hport⟩,
    ⟨rfl, not_guardAgrees_of_error hunclosed⟩, rfl, not_guardAgrees_of_error hempty⟩

end HabitatGraph
