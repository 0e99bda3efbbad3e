import HabitatGraph.Core.Schema
import HabitatGraph.Foundation.Program
import HabitatGraph.Source.SafeUrl

/-! # Fetching a URL for `add`

The URL is checked once. The HTTP library then looks its host up again, connects to the
addresses it is given, and follows redirects; between two of these steps the resolver may
change its answers, and a server chooses where a redirect leads.
-/

namespace HabitatGraph

/-- Maximum permitted size of a response body. -/
def maxContentBytes : Nat := 10 * 1024 * 1024

/-- The HTTP library as far as it is not the program's: the host it reads from a URL, or
why it refuses the URL, how many redirects it follows, and what it says when it gives up. -/
structure Transport where
  host : String → Except String String
  redirectLimit : Nat
  refusedByAll : String → String
  tooManyRedirects : String

inductive HttpResponse
  | redirect (location : String)
  | body (bytes : List UInt8)
  | brokenBody (error : String)
  | failure (error : String)

/-- What the world does at one step: the answers of the resolver, the addresses that
accept a connection, and the response of the server. -/
structure Turn where
  toSocketAddrs : Resolver
  accepts : IpAddr → Bool
  response : HttpResponse

inductive FetchPhase
  | unchecked
  | requesting (url : String) (redirects : Nat)
  | done (result : Except GraphError (List UInt8))

/-- How far a fetch is, and the addresses that connections were made to. -/
structure Fetch where
  phase : FetchPhase
  connections : List IpAddr

/-- No step has been made. -/
def Fetch.start : Fetch := ⟨.unchecked, []⟩

/-- The addresses of a host, a literal without the resolver. -/
def hostAddrs (toSocketAddrs : Resolver) (host : String) : Except String (List IpAddr) :=
  match IpAddr.parse host.toList with
  | some ip => .ok [ip]
  | none => toSocketAddrs host

/-- The addresses that are tried: all up to the first that accepts. -/
def dialled (accepts : IpAddr → Bool) (addrs : List IpAddr) : List IpAddr :=
  (addrs.takeWhile fun ip => !accepts ip) ++ (addrs.find? accepts).toList

section Step

variable (tables : UnicodeTables) (transport : Transport) (url : String)

/-- A failed call of the HTTP library. -/
def fetchError (e : String) : Except GraphError (List UInt8) :=
  .error (.guard ("fetch " ++ strDebug tables url ++ ": " ++ e))

/-- What a response means, after some redirects. -/
def readResponse (redirects : Nat) : HttpResponse → FetchPhase
  | .redirect location =>
      if redirects < transport.redirectLimit then .requesting location (redirects + 1)
      else .done (fetchError tables url transport.tooManyRedirects)
  | .failure e => .done (fetchError tables url e)
  | .brokenBody e =>
      .done (.error (.io ("read body from " ++ strDebug tables url ++ ": " ++ e)))
  | .body bytes =>
      if maxContentBytes < bytes.length then
        .done (.error (.guard ("response from " ++ strDebug tables url ++ " exceeded the " ++
          toString maxContentBytes ++ "-byte cap")))
      else .done (.ok bytes)

/-- Look up the host of the requested URL, connect, and read the response. -/
def request (requested : String) (redirects : Nat) (turn : Turn) (connections : List IpAddr) :
    Fetch :=
  match (transport.host requested).bind (hostAddrs turn.toSocketAddrs) with
  | .error e => ⟨.done (fetchError tables url e), connections⟩
  | .ok addrs =>
      let connections := connections ++ dialled turn.accepts addrs
      if addrs.any turn.accepts then
        ⟨readResponse tables transport url redirects turn.response, connections⟩
      else ⟨.done (fetchError tables url (transport.refusedByAll requested)), connections⟩

/-- One step: the check, then one request after another. -/
def fetchStep (fetch : Fetch) (turn : Turn) : Option Fetch :=
  match fetch.phase with
  | .unchecked =>
      match isSafeUrl tables turn.toSocketAddrs url with
      | .error e => some { fetch with phase := .done (.error (.guard e)) }
      | .ok () => some { fetch with phase := .requesting url 0 }
  | .requesting requested redirects =>
      some (request tables transport url requested redirects turn fetch.connections)
  | .done _ => none

end Step

variable {tables : UnicodeTables} {transport : Transport} {url : String}

/-- No connection was made to a blocked address. -/
def Fetch.Public (fetch : Fetch) : Prop := ∀ ip ∈ fetch.connections, ipIsBlocked ip = none

/-- A request whose URL would pass the check with the answers that the request itself is
given, and whose host the HTTP library reads as the check does. -/
def Vetted (tables : UnicodeTables) (transport : Transport) (fetch : Fetch) (turn : Turn) : Prop :=
  ∀ requested redirects host, fetch.phase = .requesting requested redirects →
    transport.host requested = .ok host →
      (∃ scheme, parseUrlParts tables requested = .ok (scheme, host)) ∧
        isSafeUrl tables turn.toSocketAddrs requested = .ok ()

/-- A step of which the request, if it is one, is vetted. -/
def VettedStep (tables : UnicodeTables) (transport : Transport) (url : String) (fetch : Fetch)
    (turn : Turn) (next : Fetch) : Prop :=
  fetchStep tables transport url fetch turn = some next ∧ Vetted tables transport fetch turn

theorem dialled_subset {accepts : IpAddr → Bool} {addrs : List IpAddr} :
    dialled accepts addrs ⊆ addrs := by
  intro ip hip
  rcases List.mem_append.mp hip with hip | hip
  · exact (List.takeWhile_sublist _).subset hip
  · exact List.mem_of_find?_eq_some (Option.mem_toList.mp hip)

/-- The check passes a host only if none of its addresses is blocked. -/
theorem public_of_checkHost {toSocketAddrs : Resolver} {host : String}
    (h : checkHost tables toSocketAddrs host = .ok ()) {addrs : List IpAddr}
    (haddrs : hostAddrs toSocketAddrs host = .ok addrs) : ∀ ip ∈ addrs, ipIsBlocked ip = none := by
  rw [checkHost_eq_ok_iff] at h
  unfold hostAddrs at haddrs
  intro ip hip
  rw [ipIsBlocked_eq_none_iff]
  cases hliteral : IpAddr.parse host.toList with
  | some literal =>
      rw [hliteral] at h haddrs
      cases haddrs
      rw [List.mem_singleton.mp hip]
      exact h
  | none =>
      rw [hliteral] at h haddrs
      obtain ⟨answered, hanswered, hpublic⟩ := h
      dsimp only at haddrs
      rw [hanswered] at haddrs
      cases haddrs
      exact hpublic ip hip

theorem checkHost_of_isSafeUrl {toSocketAddrs : Resolver} {scheme host : String}
    (hparts : parseUrlParts tables url = .ok (scheme, host))
    (h : isSafeUrl tables toSocketAddrs url = .ok ()) :
    checkHost tables toSocketAddrs host = .ok () := by
  have hsafe : (if isWebScheme scheme then checkHost tables toSocketAddrs host
      else .error ("scheme " ++ strDebug tables scheme ++
        " is not permitted; only 'http' and 'https' are allowed")) = Except.ok () := by
    unfold isSafeUrl at h
    rw [hparts] at h
    exact h
  split at hsafe
  next => exact hsafe
  next => cases hsafe

/-- The connections of a request are those before it and addresses of its host. -/
theorem mem_connections_request {requested : String} {redirects : Nat} {turn : Turn}
    {connections : List IpAddr} {ip : IpAddr}
    (hip : ip ∈ (request tables transport url requested redirects turn connections).connections) :
    ip ∈ connections ∨ ∃ host addrs, transport.host requested = .ok host ∧
      hostAddrs turn.toSocketAddrs host = .ok addrs ∧ ip ∈ addrs := by
  unfold request at hip
  cases hhost : transport.host requested with
  | error e =>
      rw [hhost] at hip
      exact Or.inl hip
  | ok host =>
      rw [hhost] at hip
      change ip ∈ (match hostAddrs turn.toSocketAddrs host with
        | .error e => _
        | .ok addrs => _ : Fetch).connections at hip
      cases haddrs : hostAddrs turn.toSocketAddrs host with
      | error e =>
          rw [haddrs] at hip
          exact Or.inl hip
      | ok addrs =>
          rw [haddrs] at hip
          have hmem : ip ∈ connections ++ dialled turn.accepts addrs := by
            dsimp only at hip
            split at hip
            next => exact hip
            next => exact hip
          rcases List.mem_append.mp hmem with hbefore | hdialled
          · exact Or.inl hbefore
          · exact Or.inr ⟨host, addrs, rfl, haddrs, dialled_subset hdialled⟩

/-- A vetted step makes no connection to a blocked address. -/
theorem Fetch.Public.step {fetch next : Fetch} {turn : Turn} (hpublic : fetch.Public)
    (hstep : VettedStep tables transport url fetch turn next) : next.Public := by
  obtain ⟨hnext, hvetted⟩ := hstep
  intro ip hip
  unfold fetchStep at hnext
  split at hnext
  next =>
    split at hnext
    next =>
      cases hnext
      exact hpublic ip hip
    next =>
      cases hnext
      exact hpublic ip hip
  next requested redirects hphase =>
    cases hnext
    rcases mem_connections_request hip with hbefore | ⟨host, addrs, hhost, haddrs, hmem⟩
    · exact hpublic ip hbefore
    · obtain ⟨⟨scheme, hparts⟩, hsafe⟩ := hvetted requested redirects host hphase hhost
      exact public_of_checkHost (checkHost_of_isSafeUrl hparts hsafe) haddrs ip hmem
  next => cases hnext

/-- In a run whose requests are all vetted no connection is made to a blocked address: for
every URL, every behaviour of the resolver, the servers and the HTTP library, and however
many redirects it follows. -/
theorem fetch_public {turns : List Turn} {fetch : Fetch}
    (h : Program.Steps (VettedStep tables transport url) Fetch.start turns fetch) :
    fetch.Public :=
  h.preserves Fetch.Public (fun _ _ _ _ hstep hpublic => hpublic.step hstep)
    fun _ hip => absurd hip List.not_mem_nil

/-- The first request is vetted when the resolver answers it as it answered the check. -/
theorem vetted_of_check {checked asked : Turn} {fetch : Fetch}
    (hchecked : fetchStep tables transport url Fetch.start checked = some fetch)
    (hanswers : asked.toSocketAddrs = checked.toSocketAddrs)
    (hhost : ∀ host, transport.host url = .ok host →
      ∃ scheme, parseUrlParts tables url = .ok (scheme, host)) :
    Vetted tables transport fetch asked := by
  intro requested redirects host hphase hread
  change (match isSafeUrl tables checked.toSocketAddrs url with
    | .error e => _
    | .ok () => _ : Option Fetch) = some fetch at hchecked
  cases hsafe : isSafeUrl tables checked.toSocketAddrs url with
  | error e =>
      rw [hsafe] at hchecked
      cases hchecked
      cases hphase
  | ok passed =>
      rw [hsafe] at hchecked
      cases hchecked
      cases hphase
      rw [hanswers]
      exact ⟨hhost host hread, hsafe⟩

/-- A library that reads the host as the check does. -/
def plainTransport : Transport where
  host url := (parseUrlParts asciiTables url).map Prod.snd
  redirectLimit := 4
  refusedByAll url := url ++ ": Connection refused"
  tooManyRedirects := "Too many redirects"

/-- A name of one address, which accepts connections. -/
def turnTo (ip : IpAddr) (response : HttpResponse) : Turn where
  toSocketAddrs _ := .ok [ip]
  accepts _ := true
  response := response

def publicIp : IpAddr := .v4 ⟨8, 8, 8, 8⟩

def metadataIp : IpAddr := .v4 ⟨169, 254, 169, 254⟩

theorem fetch_public_redirect :
    (⟨.done (.ok []), [publicIp, publicIp]⟩ : Fetch).Public := by
  have hcheck : VettedStep asciiTables plainTransport "http://a/" Fetch.start
      (turnTo publicIp (.body [])) ⟨.requesting "http://a/" 0, []⟩ :=
    ⟨rfl, fun _ _ _ hphase => nomatch hphase⟩
  have hfirst : VettedStep asciiTables plainTransport "http://a/" ⟨.requesting "http://a/" 0, []⟩
      (turnTo publicIp (.redirect "http://b/")) ⟨.requesting "http://b/" 1, [publicIp]⟩ := by
    refine ⟨rfl, fun requested redirects host hphase hread => ?_⟩
    cases hphase
    obtain rfl : "a" = host := Except.ok.inj hread
    exact ⟨⟨"http", rfl⟩, rfl⟩
  have hsecond : VettedStep asciiTables plainTransport "http://a/"
      ⟨.requesting "http://b/" 1, [publicIp]⟩ (turnTo publicIp (.body []))
      ⟨.done (.ok []), [publicIp, publicIp]⟩ := by
    refine ⟨rfl, fun requested redirects host hphase hread => ?_⟩
    cases hphase
    obtain rfl : "b" = host := Except.ok.inj hread
    exact ⟨⟨"http", rfl⟩, rfl⟩
  exact fetch_public (.cons hcheck (.cons hfirst (.cons hsecond (.nil _))))

/-- A redirect to an internal literal, and a name that becomes internal after the check. -/
theorem fetch_reaches_metadata :
    (∃ fetch, Program.Steps
        (fun fetch turn next => fetchStep asciiTables plainTransport "http://a/" fetch turn =
          some next) Fetch.start
        [turnTo publicIp (.body []), turnTo publicIp (.redirect "http://169.254.169.254/"),
          turnTo publicIp (.body [])] fetch ∧ ¬ fetch.Public) ∧
      ∃ fetch, Program.Steps
        (fun fetch turn next => fetchStep asciiTables plainTransport "http://a/" fetch turn =
          some next) Fetch.start
        [turnTo publicIp (.body []), turnTo metadataIp (.body [])] fetch ∧ ¬ fetch.Public := by
  apply And.intro
  · refine ⟨⟨.done (.ok []), [publicIp, metadataIp]⟩, ?_, ?_⟩
    · exact .cons rfl (.cons rfl (.cons rfl (.nil _)))
    · intro hpublic
      have hblocked := hpublic metadataIp (by decide)
      cases hblocked
  · refine ⟨⟨.done (.ok []), [metadataIp]⟩, ?_, ?_⟩
    · exact .cons rfl (.cons rfl (.nil _))
    · intro hpublic
      have hblocked := hpublic metadataIp (by decide)
      cases hblocked

end HabitatGraph
