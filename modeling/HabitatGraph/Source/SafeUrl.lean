import HabitatGraph.Source.Ssrf
import HabitatGraph.Source.UrlParts

/-! # URLs that are safe to fetch

The guard of the ingest path: a scheme of the web, and a host that is no internal address
and resolves to none. For URLs of the usual form, whatever their userinfo and their tail
hold, it decides exactly that.
-/

namespace HabitatGraph

/-- The system resolver: the addresses of a name, or why there are none. -/
abbrev Resolver := String → Except String (List IpAddr)

def eqIgnoreAsciiCase (s t : String) : Bool :=
  s.toList.map Char.toLower == t.toList.map Char.toLower

def isWebScheme (scheme : String) : Bool :=
  eqIgnoreAsciiCase scheme "http" || eqIgnoreAsciiCase scheme "https"

/-- The first blocked address among those of a name. -/
def firstBlocked (addrs : List IpAddr) : Option (IpAddr × String) :=
  addrs.findSome? fun ip => (ipIsBlocked ip).map fun reason => (ip, reason)

variable (tables : UnicodeTables) (toSocketAddrs : Resolver)

/-- Check a host, a literal without the resolver. -/
def checkHost (host : String) : Except String Unit :=
  match IpAddr.parse host.toList with
  | some ip =>
      match ipIsBlocked ip with
      | some reason => .error ("IP " ++ host ++ " is blocked (" ++ reason ++ ")")
      | none => .ok ()
  | none =>
      match toSocketAddrs host with
      | .error e => .error ("host " ++ strDebug tables host ++ " did not resolve: " ++ e)
      | .ok socketAddrs =>
          match firstBlocked socketAddrs with
          | some (ip, reason) =>
              .error ("host " ++ strDebug tables host ++ " resolves to blocked IP " ++ ip.display ++
                " (" ++ reason ++ ")")
          | none => .ok ()

/-- Check that a URL is safe to fetch. -/
def isSafeUrl (url : String) : Except String Unit := do
  let (scheme, host) ← parseUrlParts tables url
  if isWebScheme scheme then checkHost tables toSocketAddrs host
  else
    .error ("scheme " ++ strDebug tables scheme ++
      " is not permitted; only 'http' and 'https' are allowed")

variable {tables toSocketAddrs}

theorem firstBlocked_eq_none_iff {addrs : List IpAddr} :
    firstBlocked addrs = none ↔ ∀ ip ∈ addrs, ¬ ip.Internal := by
  simp only [firstBlocked, List.findSome?_eq_none_iff, Option.map_eq_none_iff,
    ipIsBlocked_eq_none_iff]

/-- A host passes when it is a literal or a name of public addresses. -/
theorem checkHost_eq_ok_iff {host : String} :
    checkHost tables toSocketAddrs host = .ok () ↔
      match IpAddr.parse host.toList with
      | some ip => ¬ ip.Internal
      | none => ∃ addrs, toSocketAddrs host = .ok addrs ∧ ∀ ip ∈ addrs, ¬ ip.Internal := by
  unfold checkHost
  cases IpAddr.parse host.toList with
  | some ip =>
      dsimp only
      rw [← ipIsBlocked_eq_none_iff]
      cases ipIsBlocked ip with
      | some reason => simp
      | none => simp
  | none =>
      dsimp only
      cases toSocketAddrs host with
      | error e => simp
      | ok addrs =>
          simp only [Except.ok.injEq, exists_eq_left', ← firstBlocked_eq_none_iff]
          cases firstBlocked addrs with
          | some blocked => simp
          | none => simp

/-! ## URLs of the usual form -/

/-- A host: a name or an IPv4 address, or an IPv6 address in brackets. -/
inductive HostForm
  | plain (text : List Char) (ne_nil : text ≠ []) (head_ne : text.head? ≠ some '[')
      (chars : ∀ ch ∈ text, isAuthorityEnd ch = false ∧ ch ≠ ':' ∧ ch ≠ '@')
  | bracketed (text : List Char) (addr : Ipv6Addr) (parse_eq : Ipv6Addr.parse text = some addr)

namespace HostForm

/-- The host without brackets. -/
def text : HostForm → List Char
  | plain text _ _ _ => text
  | bracketed text _ _ => text

/-- The host as it stands in the URL. -/
def written : HostForm → List Char
  | plain text _ _ _ => text
  | bracketed text _ _ => '[' :: (text ++ [']'])

/-- The address that a host is by itself. -/
def literal : HostForm → Option IpAddr
  | plain text _ _ _ => (Ipv4Addr.parse text).map .v4
  | bracketed _ addr _ => some (.v6 addr)

/-- Not an internal address, and no name of one. -/
def Public (host : HostForm) (toSocketAddrs : Resolver) : Prop :=
  match host.literal with
  | some ip => ¬ ip.Internal
  | none =>
      ∃ addrs, toSocketAddrs (String.ofList host.text) = .ok addrs ∧ ∀ ip ∈ addrs, ¬ ip.Internal

end HostForm

/-- `scheme://[userinfo@]host[:port]` and a tail. -/
structure UrlForm where
  scheme : List Char
  userinfo : Option (List Char)
  host : HostForm
  port : Option (List Char)
  tail : List Char
  scheme_chars : ':' ∉ scheme
  userinfo_chars : ∀ text ∈ userinfo, ∀ ch ∈ text, isAuthorityEnd ch = false
  port_chars : ∀ text ∈ port, ∀ ch ∈ text, isAuthorityEnd ch = false ∧ ch ≠ ':' ∧ ch ≠ '@'
  tail_begins : ∀ ch ∈ tail.head?, isAuthorityEnd ch

namespace UrlForm

/-- The port with its colon. -/
def portPart (url : UrlForm) : List Char :=
  match url.port with
  | some port => ':' :: port
  | none => []

def userinfoPart (url : UrlForm) : List Char :=
  match url.userinfo with
  | some userinfo => userinfo ++ ['@']
  | none => []

def text (url : UrlForm) : String :=
  String.ofList (url.scheme ++ [':', '/', '/'] ++
    (url.userinfoPart ++ (url.host.written ++ url.portPart) ++ url.tail))

end UrlForm

/-! ## The guard reads them as they are written -/

theorem isAuthorityEnd_of_isAddressChar {ch : Char} (h : isAddressChar ch) :
    isAuthorityEnd ch = false ∧ ch ≠ '@' ∧ ch ≠ ']' := by
  have hne : ∀ other, isAddressChar other = false → ch ≠ other := by
    intro other hother heq
    rw [heq, hother] at h
    cases h
  have hslash := hne '/' (by decide)
  have hquery := hne '?' (by decide)
  have hfragment := hne '#' (by decide)
  have hbackslash := hne '\\' (by decide)
  refine ⟨?_, hne '@' (by decide), hne ']' (by decide)⟩
  simp [isAuthorityEnd, hslash, hquery, hfragment, hbackslash]

namespace HostForm

theorem literal_eq (host : HostForm) : IpAddr.parse host.text = host.literal := by
  cases host with
  | plain text _ _ hchars => exact IpAddr.parse_of_notMem fun hmem => (hchars ':' hmem).2.1 rfl
  | bracketed text addr hparse => exact IpAddr.parse_of_v6 hparse

theorem text_ne_nil (host : HostForm) : host.text ≠ [] := by
  cases host with
  | plain text hne _ _ => exact hne
  | bracketed text addr hparse =>
      intro hnil
      have htext : text = [] := hnil
      have hnone : Ipv6Addr.parse [] = none := by decide
      rw [htext, hnone] at hparse
      cases hparse

theorem chars_written (host : HostForm) :
    ∀ ch ∈ host.written, isAuthorityEnd ch = false ∧ ch ≠ '@' := by
  cases host with
  | plain text _ _ hchars => exact fun ch hch => ⟨(hchars ch hch).1, (hchars ch hch).2.2⟩
  | bracketed text addr hparse =>
      have haddress := isAddressChar_of_parse hparse
      intro ch hch
      rw [written, List.mem_cons, List.mem_append, List.mem_singleton] at hch
      rcases hch with rfl | hch | rfl
      · decide
      · have hend := isAuthorityEnd_of_isAddressChar (haddress ch hch)
        exact ⟨hend.1, hend.2.1⟩
      · decide

/-- The host is found in front of its port. -/
theorem urlHost_written (host : HostForm) (url : UrlForm) :
    urlHost (host.written ++ url.portPart) = some host.text := by
  cases host with
  | plain text hne hhead hchars =>
      have hcolon : ':' ∉ text := fun hmem => (hchars ':' hmem).2.1 rfl
      rw [written, UrlForm.portPart]
      cases hport : url.port with
      | none =>
          rw [List.append_nil]
          exact urlHost_of_notMem hhead hcolon
      | some port =>
          apply urlHost_append
          · rw [List.head?_append_of_ne_nil _ hne]
            exact hhead
          · exact fun hmem => (url.port_chars port hport ':' hmem).2.1 rfl
  | bracketed text addr hparse =>
      have hbracket : ']' ∉ text := fun hmem =>
        (isAuthorityEnd_of_isAddressChar (isAddressChar_of_parse hparse _ hmem)).2.2 rfl
      rw [written, List.cons_append, List.append_assoc, List.singleton_append]
      exact urlHost_bracket hbracket

end HostForm

namespace UrlForm

theorem chars_portPart (url : UrlForm) :
    ∀ ch ∈ url.portPart, isAuthorityEnd ch = false ∧ ch ≠ '@' := by
  intro ch hch
  rw [portPart] at hch
  split at hch
  next port hport =>
    rcases List.mem_cons.mp hch with rfl | hch
    · decide
    · have hchars := url.port_chars port hport ch hch
      exact ⟨hchars.1, hchars.2.2⟩
  next => exact absurd hch List.not_mem_nil

theorem chars_userinfoPart (url : UrlForm) :
    ∀ ch ∈ url.userinfoPart, isAuthorityEnd ch = false := by
  intro ch hch
  rw [userinfoPart] at hch
  split at hch
  next userinfo huserinfo =>
    rcases List.mem_append.mp hch with hch | hch
    · exact url.userinfo_chars userinfo huserinfo ch hch
    · rw [List.mem_singleton.mp hch]
      decide
  next => exact absurd hch List.not_mem_nil

theorem chars_hostPart (url : UrlForm) :
    ∀ ch ∈ url.host.written ++ url.portPart, isAuthorityEnd ch = false ∧ ch ≠ '@' := by
  intro ch hch
  rcases List.mem_append.mp hch with hch | hch
  · exact url.host.chars_written ch hch
  · exact url.chars_portPart ch hch

theorem authority_text (url : UrlForm) :
    authority (url.userinfoPart ++ (url.host.written ++ url.portPart) ++ url.tail) =
      url.userinfoPart ++ (url.host.written ++ url.portPart) := by
  apply authority_append
  · intro ch hch
    rcases List.mem_append.mp hch with hch | hch
    · exact url.chars_userinfoPart ch hch
    · exact (url.chars_hostPart ch hch).1
  · exact url.tail_begins

/-- Userinfo ends in front of the host, whatever it holds. -/
theorem hostAndPort_text (url : UrlForm) :
    hostAndPort (url.userinfoPart ++ (url.host.written ++ url.portPart)) =
      url.host.written ++ url.portPart := by
  have hnotMem : '@' ∉ url.host.written ++ url.portPart :=
    fun hmem => (url.chars_hostPart _ hmem).2 rfl
  rw [userinfoPart]
  cases url.userinfo with
  | none => exact hostAndPort_of_notMem hnotMem
  | some userinfo =>
      rw [List.append_assoc, List.singleton_append]
      exact hostAndPort_append hnotMem

theorem parseUrlParts_text (url : UrlForm) :
    parseUrlParts tables url.text =
      .ok (String.ofList url.scheme, String.ofList url.host.text) := by
  have hne : url.userinfoPart ++ (url.host.written ++ url.portPart) ≠ [] := by
    intro hnil
    have hhost := url.host.urlHost_written url
    rw [(List.append_eq_nil_iff.mp hnil).2] at hhost
    exact url.host.text_ne_nil (Option.some.inj hhost).symm
  refine parseUrlParts_eq_ok_iff.mpr ⟨url.scheme, _, url.host.text,
    splitScheme_ofList url.scheme_chars, ?_, ?_, url.host.text_ne_nil, rfl⟩
  · rw [authority_text]
    exact hne
  · rw [authority_text, hostAndPort_text, HostForm.urlHost_written]

end UrlForm

/-- The guard admits exactly the web URLs of public destinations: for every URL with a
scheme and a host, with userinfo, port, path, query and fragment of any kind, and
whatever addresses the resolver gives for the name, none included. -/
theorem isSafeUrl_eq_ok_iff (tables : UnicodeTables) (toSocketAddrs : Resolver) (url : UrlForm) :
    isSafeUrl tables toSocketAddrs url.text = .ok () ↔
      isWebScheme (String.ofList url.scheme) ∧ url.host.Public toSocketAddrs := by
  have hparts : isSafeUrl tables toSocketAddrs url.text =
      if isWebScheme (String.ofList url.scheme) then
        checkHost tables toSocketAddrs (String.ofList url.host.text)
      else
        .error ("scheme " ++ strDebug tables (String.ofList url.scheme) ++
          " is not permitted; only 'http' and 'https' are allowed") := by
    unfold isSafeUrl
    rw [UrlForm.parseUrlParts_text]
    rfl
  rw [hparts]
  split
  next hscheme =>
    rw [checkHost_eq_ok_iff, String.toList_ofList, HostForm.literal_eq]
    exact (and_iff_right hscheme).symm
  next hscheme =>
    simp [hscheme]

theorem length_localhost : ([0, 0, 0, 0, 0, 0, 0, 1] : List UInt16).length = 8 := rfl

/-- At signs, colons and brackets in the userinfo, and a tail that begins with a backslash. -/
def crowdedUrl : UrlForm where
  scheme := "Http".toList
  userinfo := some "8.8.8.8:80@[u]".toList
  host := .bracketed "::1".toList ⟨[0, 0, 0, 0, 0, 0, 0, 1], length_localhost⟩ (by decide +kernel)
  port := some "80".toList
  tail := "\\@8.8.8.8/".toList
  scheme_chars := by decide
  userinfo_chars := by
    intro text htext
    obtain rfl := Option.some.inj htext
    have hall : "8.8.8.8:80@[u]".toList.all (fun ch => !isAuthorityEnd ch) := by decide
    simpa only [List.all_eq_true, Bool.not_eq_true'] using hall
  port_chars := by
    intro text htext
    obtain rfl := Option.some.inj htext
    have hall : "80".toList.all (fun ch => !isAuthorityEnd ch && ch != ':' && ch != '@') := by
      decide
    simpa only [List.all_eq_true, Bool.and_eq_true, Bool.not_eq_true', bne_iff_ne, ne_eq,
      and_assoc] using hall
  tail_begins := by
    intro ch hch
    obtain rfl := Option.some.inj hch
    rfl

example : crowdedUrl.text = "Http://8.8.8.8:80@[u]@[::1]:80\\@8.8.8.8/" := by rfl

end HabitatGraph
