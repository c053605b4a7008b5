import Silo.Proxy.Routes

namespace Silo.Proxy

open Silo.Lib ProxyState

variable {state : ProxyState} {host : String} {port : UInt16} {secure : Bool} {visit : Visit}
  {addr : SocketAddr} {out : UpstreamRequest} {headers : HeaderMap}

theorem connectFirst_tried (net : Network) {last : String} {n : Nat} {addrs : List SocketAddr} :
    (UpstreamConnector.connectFirst net last n addrs).1 ⊆ addrs := by
  induction addrs generalizing last n with
  | nil => exact List.Subset.refl _
  | cons first rest ih =>
      simp only [UpstreamConnector.connectFirst]
      split
      · simp
      · exact List.cons_subset_cons first ih

theorem connectFirst_opened {net : Network} {last : String} {n : Nat} {addrs : List SocketAddr}
    (h : (UpstreamConnector.connectFirst net last n addrs).2 = .ok addr) :
    addr ∈ (UpstreamConnector.connectFirst net last n addrs).1 := by
  induction addrs generalizing last n with
  | nil => cases h
  | cons first rest ih =>
      simp only [UpstreamConnector.connectFirst] at h ⊢
      split at h
      · cases h
        simp
      · exact List.mem_cons_of_mem _ (ih h)

/-- A connection is tried only to addresses of one resolution, all of which pass
the guard: the addresses that the resolver gave in its one call, or the one that
overrides it. -/
structure Guarded (up : UpstreamConnector) (net : Network) (dial : Dial) : Prop where
  once : dial.lookups.length ≤ 1
  answers : ∀ (n : Nat) lookup, dial.lookups[n]? = some lookup → lookup.answer = net.lookup n lookup.name
  single : dial.tried ≠ [] → dial.lookups = [⟨dial.host ++ ":" ++ toString dial.port, .ok dial.resolved⟩] ∨
    ∃ addr, up.resolverOverrides.lookup (normalizeHost dial.host) = some addr ∧ dial.resolved = [addr]
  listed : dial.tried ⊆ dial.resolved
  passed : dial.tried ≠ [] → ∀ addr ∈ dial.resolved, up.guard.check addr.ip = none

/-- What `resolve` does to the log of lookups, and where its addresses come from. -/
theorem resolve_cases (up : UpstreamConnector) (net : Network) (host : String) (port : UInt16) :
    (∃ addr, up.resolverOverrides.lookup (normalizeHost host) = some addr ∧
      up.resolve net host port [] = ([], .ok [addr])) ∨
    ∃ result, up.resolve net host port [] =
        ([⟨host ++ ":" ++ toString port, net.lookup 0 (host ++ ":" ++ toString port)⟩], result) ∧
      ∀ addrs, result = .ok addrs → net.lookup 0 (host ++ ":" ++ toString port) = .ok addrs := by
  rw [UpstreamConnector.resolve]
  cases up.resolverOverrides.lookup (normalizeHost host) with
  | some addr => exact .inl ⟨addr, rfl, rfl⟩
  | none =>
      refine .inr ⟨_, rfl, ?_⟩
      intro addrs hok
      rw [List.length_nil] at hok
      split at hok
      · cases hok
      · next heq =>
          cases hok
          exact heq
      · cases hok

theorem resolve_answers (up : UpstreamConnector) (net : Network) (host : String) (port : UInt16) :
    (up.resolve net host port []).1.length ≤ 1 ∧ ∀ (n : Nat) lookup,
      (up.resolve net host port []).1[n]? = some lookup → lookup.answer = net.lookup n lookup.name := by
  rcases resolve_cases up net host port with ⟨addr, -, heq⟩ | ⟨result, heq, -⟩
  · rw [heq]
    exact ⟨Nat.zero_le _, fun n lookup h => by cases h⟩
  · rw [heq]
    refine ⟨Nat.le_refl _, ?_⟩
    intro n lookup h
    obtain ⟨hn, hget⟩ := List.getElem?_eq_some_iff.mp h
    obtain rfl : n = 0 := Nat.lt_one_iff.mp hn
    rw [← hget]
    rfl

theorem connectTcp_guarded (up : UpstreamConnector) (net : Network) (host : String) (port : UInt16) :
    Guarded up net (up.connectTcp net host port).1 := by
  obtain ⟨honce, hanswers⟩ := resolve_answers up net host port
  rw [UpstreamConnector.connectTcp]
  split
  · next heq =>
      rw [heq] at honce hanswers
      exact ⟨honce, hanswers, by simp, List.Subset.refl _, by simp⟩
  · next lookups addrs heq =>
      rw [heq] at honce hanswers
      split
      · exact ⟨honce, hanswers, by simp, by simp, by simp⟩
      · next hnone =>
          refine ⟨honce, hanswers, ?_, connectFirst_tried net, ?_⟩
          · intro _
            rcases resolve_cases up net host port with ⟨addr, hlook, hres⟩ | ⟨result, hres, hok⟩
            · rw [hres] at heq
              cases heq
              exact .inr ⟨addr, hlook, rfl⟩
            · rw [hres] at heq
              cases heq
              rw [hok addrs rfl]
              exact .inl rfl
          · intro _ addr hmem
            have hcheck := List.findSome?_eq_none_iff.mp hnone addr hmem
            simpa using hcheck

theorem connectTcp_opened {up : UpstreamConnector} {net : Network}
    (h : (up.connectTcp net host port).2 = .ok addr) : addr ∈ (up.connectTcp net host port).1.tried := by
  rw [UpstreamConnector.connectTcp] at h ⊢
  split at h
  · cases h
  · split at h
    · cases h
    · simp only at h ⊢
      apply connectFirst_opened
      cases hopened : (UpstreamConnector.connectFirst net "no addresses" 0 _).2 with
      | error e =>
          rw [hopened] at h
          cases h
      | ok addr' =>
          rw [hopened] at h
          cases h
          rfl

theorem connect_opened {up : UpstreamConnector} {net : Network}
    (h : (up.connect net secure host port).2 = .ok addr) : addr ∈ (up.connect net secure host port).1.tried := by
  rw [connect_dial]
  suffices htcp : (up.connectTcp net host port).2 = .ok addr from connectTcp_opened htcp
  rw [UpstreamConnector.connect] at h
  split at h
  · next heq =>
      rw [heq]
      split at h
      · split at h
        · exact h
        · cases h
      · exact h
  · exact h

/-- Host, port and transport of the inner requests that are served on a
connection, if any are. -/
def admitted (state : ProxyState) (stream : List UInt8) (tlsAccepted : Bool) : Option (String × UInt16 × Bool) := do
  let (head, _) ← readRequestHead [] stream
  let (method, target) ← parseRequestLine head
  if method.toList.map Char.toLower = "connect".toList then
    let (host, port) := splitHostPort target.toList 443
    if (state.hostPolicy host).toBool ∧ tlsAccepted then some (host, port, true) else none
  else
    let (host, port) ← plainTarget target
    if (state.hostPolicy host).toBool then some (host, port, false) else none

theorem serveConnection_exchanges (state : ProxyState) (stream : List UInt8) (tlsAccepted : Bool)
    (visits : List Visit) :
    (state.serveConnection stream tlsAccepted visits).exchanges =
      match admitted state stream tlsAccepted with
      | none => []
      | some (host, port, secure) => visits.map (state.handleInner host port secure) := by
  simp only [serveConnection, admitted]
  cases hhead : readRequestHead [] stream with
  | none => rfl
  | some head =>
      simp only [Option.bind_some, Option.bind_eq_bind]
      cases hline : parseRequestLine head.1 with
      | none => rfl
      | some line =>
          obtain ⟨method, target⟩ := line
          simp only [Option.bind_some]
          split
          · simp only [serveConnect]
            cases hpolicy : state.hostPolicy (splitHostPort target.toList 443).1 with
            | error note => simp [Except.toBool]
            | ok _ => cases tlsAccepted <;> simp [Except.toBool, serveInnerHttp]
          · simp only [servePlain]
            cases hplain : plainTarget target with
            | none => rfl
            | some own =>
                obtain ⟨host, port⟩ := own
                cases hpolicy : state.hostPolicy host with
                | error note => simp [Except.toBool, hpolicy]
                | ok _ => simp [Except.toBool, hpolicy, serveInnerHttp]

theorem allows_of_policy (h : (state.hostPolicy host).toBool = true) : state.allowlist.allows host = true := by
  rw [hostPolicy] at h
  split at h
  · cases h
  · next hallows => simpa using hallows

theorem allows_of_admitted {stream : List UInt8} {tlsAccepted : Bool}
    (h : admitted state stream tlsAccepted = some (host, port, secure)) : state.allowlist.allows host = true := by
  simp only [admitted, Option.bind_eq_bind, Option.bind_eq_some_iff] at h
  obtain ⟨head, -, line, -, h⟩ := h
  split at h
  · simp only [Option.ite_none_right_eq_some, Option.some.injEq, Prod.mk.injEq] at h
    obtain ⟨⟨hpolicy, -⟩, rfl, -⟩ := h
    exact allows_of_policy hpolicy
  · obtain ⟨own, -, h⟩ := Option.bind_eq_some_iff.mp h
    simp only [Option.ite_none_right_eq_some, Option.some.injEq, Prod.mk.injEq] at h
    obtain ⟨hpolicy, rfl, -⟩ := h
    exact allows_of_policy hpolicy

/-- The header and value that the store injects for `host`. -/
def injection (state : ProxyState) (host : String) : Option (String × List UInt8) := do
  let resolved ← state.credentials.byHost.lookup (normalizeHost host)
  let name ← state.http.name resolved.header
  let value ← state.http.value resolved.value
  return (name, value)

/-- The forwarded request has a header of the configured credential's name, with
the configured value and no other. -/
def Injected (state : ProxyState) (host : String) (out : UpstreamRequest) : Prop :=
  ∀ resolved, state.credentials.byHost.lookup (normalizeHost host) = some resolved →
    ∃ name value, state.http.name resolved.header = some name ∧ state.http.value resolved.value = some value ∧
      out.headers.values name = [value]

/-- What one inner request may do to the outside: connections only for an allowed
host and to guarded addresses, and the configured secret only in its one header,
for the configured host. What is neither the client's nor the credential's is the
host's own name. -/
structure Confined (state : ProxyState) (host : String) (visit : Visit) (exchange : Exchange) : Prop where
  dialled : ∀ dial, exchange.dial = some dial →
    dial.host = host ∧ state.allowlist.allows host = true ∧ Guarded state.upstream visit.net dial
  connected : ∀ addr out, exchange.sent = some (addr, out) → ∃ dial, exchange.dial = some dial ∧ addr ∈ dial.tried
  unsecret : ∀ addr out, exchange.sent = some (addr, out) → ∀ header ∈ out.headers, header ∈ visit.request.headers ∨
    header = ("host", (state.http.value host).getD []) ∨ injection state host = some header
  injected : ∀ addr out, exchange.sent = some (addr, out) → Injected state host out

/-- A credential for the host makes a header; under the name `Host` it is what the
proxy sets anyway. -/
def CredentialKept (state : ProxyState) (host : String) : Prop :=
  ∀ resolved, state.credentials.byHost.lookup (normalizeHost host) = some resolved →
    ∃ name value, state.http.name resolved.header = some name ∧ state.http.value resolved.value = some value ∧
      (name = "host" → value = (state.http.value host).getD [])

theorem injection_eq_some {name : String} {value : List UInt8} :
    injection state host = some (name, value) ↔
      ∃ resolved, state.credentials.byHost.lookup (normalizeHost host) = some resolved ∧
        state.http.name resolved.header = some name ∧ state.http.value resolved.value = some value := by
  simp [injection, Option.bind_eq_some_iff]

theorem apply_cases (state : ProxyState) (host : String) (headers : HeaderMap) :
    (∃ name value, injection state host = some (name, value) ∧
      state.credentials.apply state.http host headers = ((headers.remove name).insert name value, true)) ∨
    (injection state host = none ∧ (state.credentials.apply state.http host headers).1 ⊆ headers) := by
  simp only [injection, CredentialStore.apply, Option.bind_eq_bind]
  cases state.credentials.byHost.lookup (normalizeHost host) with
  | none => exact .inr ⟨rfl, List.Subset.refl _⟩
  | some resolved =>
      simp only [Option.bind_some]
      cases state.http.name resolved.header with
      | none => exact .inr ⟨rfl, List.Subset.refl _⟩
      | some name =>
          simp only [Option.bind_some]
          cases state.http.value resolved.value with
          | none => exact .inr ⟨rfl, fun _ h => (List.mem_filter.mp h).1⟩
          | some value => exact .inl ⟨name, value, rfl, rfl⟩

theorem mem_insert {headers : HeaderMap} {name : String} {value : List UInt8} {header : String × List UInt8}
    (h : header ∈ headers.insert name value) : header ∈ headers ∨ header = (name, value) := by
  obtain h | h := List.mem_append.mp h
  · exact .inl (List.mem_filter.mp h).1
  · exact .inr (List.mem_singleton.mp h)

theorem rewrite_headers (state : ProxyState) (host : String) (request : Request) {header : String × List UInt8}
    (h : header ∈ (state.rewrite host request).1.headers) :
    header ∈ request.headers ∨ header = ("host", (state.http.value host).getD []) ∨
      injection state host = some header := by
  simp only [rewrite] at h
  obtain h | rfl := mem_insert h
  · obtain ⟨name, value, hinj, happly⟩ | ⟨-, hsub⟩ := apply_cases state host request.headers
    · rw [happly] at h
      obtain h | rfl := mem_insert h
      · exact .inl (List.mem_filter.mp h).1
      · exact .inr (.inr hinj)
    · exact .inl (hsub h)
  · exact .inr (.inl rfl)

/-- The forwarded request has the injected value and no other under its name,
unless the name is that of the host. -/
theorem rewrite_values (state : ProxyState) (request : Request) {name : String} {value : List UInt8}
    (hinj : injection state host = some (name, value)) :
    (state.rewrite host request).1.headers.values name =
      [if name = "host" then (state.http.value host).getD [] else value] := by
  obtain ⟨name', value', hinj', happly⟩ | ⟨hnone, -⟩ := apply_cases state host request.headers
  · rw [hinj] at hinj'
    cases hinj'
    simp only [rewrite, happly]
    split
    · next hname =>
        subst hname
        rw [HeaderMap.values_insert_self]
    · next hname =>
        rw [HeaderMap.values_insert_of_ne _ _ hname, HeaderMap.values_insert_self]
  · rw [hinj] at hnone
    cases hnone

/-- The request is forwarded: it is no upgrade, and the upstream connection opens. -/
def forwards (state : ProxyState) (host : String) (port : UInt16) (secure : Bool) (visit : Visit) : Bool :=
  !isUpgrade visit.request.headers && (state.upstream.connect visit.net secure host port).2.toBool

theorem handleInner_forwards (h : forwards state host port secure visit = true) :
    ∃ addr, (state.handleInner host port secure visit).sent =
      some (addr, (state.rewrite host visit.request).1) := by
  simp only [forwards, Bool.and_eq_true, Bool.not_eq_true'] at h
  obtain ⟨hup, hopen⟩ := h
  simp only [handleInner, forwardRequest, hup]
  cases hc : state.upstream.connect visit.net secure host port with
  | mk dial opened =>
      rw [hc] at hopen
      cases opened with
      | error e => cases hopen
      | ok addr =>
          simp only
          cases visit.reply (state.rewrite host visit.request).1 with
          | error e => exact ⟨addr, rfl⟩
          | ok response => exact ⟨addr, rfl⟩

theorem handleInner_connected (h : (state.handleInner host port secure visit).sent = some (addr, out)) :
    forwards state host port secure visit = true ∧
      ∃ dial, (state.handleInner host port secure visit).dial = some dial ∧ addr ∈ dial.tried := by
  simp only [handleInner, forwardRequest, forwards] at h ⊢
  split at h
  · cases h
  · next hup =>
      cases hc : state.upstream.connect visit.net secure host port with
      | mk dial opened =>
          have htried : opened = .ok addr → addr ∈ dial.tried := by
            intro ho
            have hopen : (state.upstream.connect visit.net secure host port).2 = .ok addr := by
              rw [hc]
              exact ho
            have hmem := connect_opened hopen
            rwa [hc] at hmem
          cases opened with
          | error e => simp [hc] at h
          | ok addr' =>
              simp only [hc] at h ⊢
              cases hr : visit.reply (state.rewrite host visit.request).1 with
              | error e =>
                  simp only [hr, Option.some.injEq, Prod.mk.injEq] at h
                  obtain ⟨rfl, -⟩ := h
                  simpa [hup, hr, Except.toBool] using htried rfl
              | ok response =>
                  simp only [hr, Option.some.injEq, Prod.mk.injEq] at h
                  obtain ⟨rfl, -⟩ := h
                  simpa [hup, hr, Except.toBool] using htried rfl

theorem injected_rewrite_iff (request : Request) :
    Injected state host (state.rewrite host request).1 ↔ CredentialKept state host := by
  constructor
  · intro h resolved hlook
    obtain ⟨name, value, hname, hvalue, hout⟩ := h resolved hlook
    refine ⟨name, value, hname, hvalue, ?_⟩
    rintro rfl
    rw [rewrite_values state request (injection_eq_some.mpr ⟨resolved, hlook, hname, hvalue⟩), if_pos rfl,
      List.singleton_inj] at hout
    exact hout.symm
  · intro h resolved hlook
    obtain ⟨name, value, hname, hvalue, hhost⟩ := h resolved hlook
    refine ⟨name, value, hname, hvalue, ?_⟩
    rw [rewrite_values state request (injection_eq_some.mpr ⟨resolved, hlook, hname, hvalue⟩)]
    split
    · next heq => rw [hhost heq]
    · rfl

theorem confined_iff (hallows : state.allowlist.allows host = true) :
    Confined state host visit (state.handleInner host port secure visit) ↔
      (forwards state host port secure visit = true → CredentialKept state host) := by
  constructor
  · intro h hf
    obtain ⟨addr, hsent⟩ := handleInner_forwards hf
    exact (injected_rewrite_iff visit.request).mp (h.injected addr _ hsent)
  · intro h
    constructor
    · intro dial hdial
      rw [handleInner_dial hdial]
      exact ⟨(connectTcp_dial ..).1, hallows, connectTcp_guarded ..⟩
    · intro addr out hsent
      exact (handleInner_connected hsent).2
    · intro addr out hsent header hmem
      rw [handleInner_sent hsent] at hmem
      exact rewrite_headers state host visit.request hmem
    · intro addr out hsent
      rw [handleInner_sent hsent, injected_rewrite_iff]
      exact h (handleInner_connected hsent).1

/-- Egress obeys the policy on a connection exactly when no request is forwarded
on it for a host whose credential makes no header, or another `Host`. -/
theorem egress_confined_iff (state : ProxyState) (stream : List UInt8) (tlsAccepted : Bool) (visits : List Visit) :
    (∀ visit exchange, (visit, exchange) ∈ visits.zip (state.serveConnection stream tlsAccepted visits).exchanges →
      ∃ host port secure, admitted state stream tlsAccepted = some (host, port, secure) ∧
        Confined state host visit exchange) ↔
    ∀ host port secure, admitted state stream tlsAccepted = some (host, port, secure) →
      ∀ visit ∈ visits, forwards state host port secure visit = true → CredentialKept state host := by
  rw [serveConnection_exchanges]
  cases hadm : admitted state stream tlsAccepted with
  | none => simp
  | some own =>
      obtain ⟨host, port, secure⟩ := own
      have hallows := allows_of_admitted hadm
      simp only [mem_zip_map, Option.some.injEq, Prod.mk.injEq]
      constructor
      · rintro h _ _ _ ⟨rfl, rfl, rfl⟩ visit hmem
        obtain ⟨_, _, _, ⟨rfl, rfl, rfl⟩, hconf⟩ := h visit _ ⟨hmem, rfl⟩
        exact (confined_iff hallows).mp hconf
      · rintro h visit _ ⟨hmem, rfl⟩
        exact ⟨host, port, secure, ⟨rfl, rfl, rfl⟩,
          (confined_iff hallows).mpr (h host port secure ⟨rfl, rfl, rfl⟩ visit hmem)⟩

/-- A credential for the `Host` header of one host. -/
def hostCredential : ProxyState :=
  { oneHost with
    credentials := ⟨[("a.example", ⟨"Host", "\x7bsecret\x7d.internal", "vhost"⟩)]⟩ }

/-- The credential is configured for the host, and the request goes upstream
without it. -/
theorem host_credential_lost : ¬ ∀ visit exchange, (visit, exchange) ∈ [getVisit "http://a.example/x" "/x"].zip
      (hostCredential.serveConnection getStream false [getVisit "http://a.example/x" "/x"]).exchanges →
    ∃ host port secure, admitted hostCredential getStream false = some (host, port, secure) ∧
      Confined hostCredential host visit exchange := by
  intro h
  have hadm : admitted hostCredential getStream false = some ("a.example", 80, false) := by decide +kernel
  have hmem : (getVisit "http://a.example/x" "/x",
      hostCredential.handleInner "a.example" 80 false (getVisit "http://a.example/x" "/x")) ∈
      [getVisit "http://a.example/x" "/x"].zip
        (hostCredential.serveConnection getStream false [getVisit "http://a.example/x" "/x"]).exchanges := by
    rw [serveConnection_exchanges, hadm]
    exact mem_zip_map.mpr ⟨by simp, rfl⟩
  obtain ⟨_, _, _, heq, hconf⟩ := h _ _ hmem
  rw [hadm] at heq
  cases heq
  have hkept := (confined_iff (allows_of_admitted hadm)).mp hconf rfl
  obtain ⟨name, value, hname, hvalue, hhost⟩ := hkept ⟨"Host", "\x7bsecret\x7d.internal", "vhost"⟩ rfl
  obtain rfl : name = "host" := by
    rw [← Option.some_inj, ← hname]
    decide +kernel
  have hlost : hostCredential.http.value (Resolved.value ⟨"Host", "\x7bsecret\x7d.internal", "vhost"⟩) ≠
      some ((hostCredential.http.value "a.example").getD []) := by decide +kernel
  rw [hvalue, hhost rfl] at hlost
  exact hlost rfl

/-- The request that goes upstream is the client's, but for the header `Host` and the
one that a credential is configured for. -/
structure Faithful (state : ProxyState) (host : String) (request : Request) (out : UpstreamRequest) : Prop where
  method : out.method = request.method
  target : out.uri = request.pathAndQuery.getD "/"
  body : request.body = some out.body
  named : ∃ value, state.http.value host = some value ∧ out.headers.values "host" = [value]
  credential : ∀ resolved, state.credentials.byHost.lookup (normalizeHost host) = some resolved →
    ∃ name value, injection state host = some (name, value) ∧ out.headers.values name = [value]
  others : ∀ name, name ≠ "host" → (∀ value, injection state host ≠ some (name, value)) →
    out.headers.values name = request.headers.values name

/-- A credential for the host makes a header, which is not another `Host`. -/
def CredentialSet (state : ProxyState) (host : String) : Prop :=
  ∀ resolved, state.credentials.byHost.lookup (normalizeHost host) = some resolved →
    ∃ name value, injection state host = some (name, value) ∧
      (name = "host" → state.http.value host = some value)

theorem HeaderMap.values_remove_of_ne (headers : HeaderMap) {name name' : String} (h : name' ≠ name) :
    (headers.remove name).values name' = headers.values name' := by
  have hinsert := HeaderMap.values_insert_of_ne headers [] h
  simpa [HeaderMap.insert, HeaderMap.values, List.filter_append, Ne.symm h] using hinsert

theorem apply_others {name : String} (hset : CredentialSet state host)
    (hother : ∀ value, injection state host ≠ some (name, value)) :
    (state.credentials.apply state.http host headers).1.values name = headers.values name := by
  obtain ⟨name', value', hinj, happly⟩ | ⟨hnone, -⟩ := apply_cases state host headers
  · have hne : name ≠ name' := by
      rintro rfl
      exact hother value' hinj
    rw [happly, HeaderMap.values_insert_of_ne _ _ hne, HeaderMap.values_remove_of_ne _ hne]
  · cases hlook : state.credentials.byHost.lookup (normalizeHost host) with
    | none => rw [CredentialStore.apply, hlook]
    | some resolved =>
        obtain ⟨name', value', hinj, -⟩ := hset resolved hlook
        rw [hnone] at hinj
        cases hinj

theorem rewrite_others {name : String} (request : Request) (hset : CredentialSet state host) (hne : name ≠ "host")
    (hother : ∀ value, injection state host ≠ some (name, value)) :
    (state.rewrite host request).1.headers.values name = request.headers.values name := by
  rw [rewrite, HeaderMap.values_insert_of_ne _ _ hne, apply_others hset hother]

theorem rewrite_host (request : Request) :
    (state.rewrite host request).1.headers.values "host" = [(state.http.value host).getD []] := by
  rw [rewrite, HeaderMap.values_insert_self]

/-- A request is forwarded faithfully exactly if its body was read, the host makes a
header value, and so does a credential that is configured for it. -/
theorem faithful_iff (h : (state.handleInner host port secure visit).sent = some (addr, out)) :
    Faithful state host visit.request out ↔
      visit.request.body.isSome = true ∧ (state.http.value host).isSome = true ∧ CredentialSet state host := by
  rw [handleInner_sent h]
  constructor
  · intro hf
    obtain ⟨value, hvalue, -⟩ := hf.named
    refine ⟨by rw [hf.body]; rfl, by rw [hvalue]; rfl, ?_⟩
    intro resolved hlook
    obtain ⟨name, secret, hinj, hvalues⟩ := hf.credential resolved hlook
    refine ⟨name, secret, hinj, ?_⟩
    rintro rfl
    rw [rewrite_host, hvalue, Option.getD_some, List.singleton_inj] at hvalues
    rw [hvalue, hvalues]
  · rintro ⟨hbody, hhost, hset⟩
    obtain ⟨bytes, hbytes⟩ := Option.isSome_iff_exists.mp hbody
    obtain ⟨value, hvalue⟩ := Option.isSome_iff_exists.mp hhost
    constructor
    · rfl
    · rfl
    · rw [rewrite, hbytes]
      rfl
    · exact ⟨value, hvalue, by rw [rewrite_host, hvalue, Option.getD_some]⟩
    · intro resolved hlook
      obtain ⟨name, secret, hinj, hname⟩ := hset resolved hlook
      refine ⟨name, secret, hinj, ?_⟩
      rw [rewrite_values state visit.request hinj]
      split
      · next heq =>
          rw [hname heq]
          rfl
      · rfl
    · intro name hne hother
      exact rewrite_others visit.request hset hne hother

def brokenVisit : Visit :=
  { getVisit "http://a.example/x" "/x" with request := ⟨"PUT", "http://a.example/x", "/x", some "/x", [], none⟩ }

/-- A proxy with a token for the host that it lets through. -/
def withToken : ProxyState :=
  { oneHost with credentials := ⟨[("a.example", ⟨"Authorization", "Bearer \x7bsecret\x7d", "t0"⟩)]⟩ }

/-- The client has a token of its own, and names another host. -/
def postVisit : Visit :=
  { getVisit "http://a.example/x?q=1" "/x" with
    request := ⟨"POST", "http://a.example/x?q=1", "/x", some "/x?q=1",
      [("host", "b.example".toUTF8.toList), ("authorization", "Bearer mine".toUTF8.toList),
        ("accept", "text/plain".toUTF8.toList)], some [1, 2, 3]⟩ }

theorem sent_of_open (state : ProxyState) (visit : Visit) (hup : isUpgrade visit.request.headers = false)
    (hnet : (state.upstream.connect visit.net false "a.example" 80).2.toBool = true) :
    ∃ addr, (state.handleInner "a.example" 80 false visit).sent =
      some (addr, (state.rewrite "a.example" visit.request).1) := by
  apply handleInner_forwards
  rw [forwards, hup, hnet]
  rfl

theorem faithful_post :
    CredentialStore.fromSettings (fun _ => some "t0") [⟨"a.example", "Authorization", "TOKEN", "Bearer \x7bsecret\x7d"⟩] =
        .ok withToken.credentials ∧
      ∃ addr out, (withToken.handleInner "a.example" 80 false postVisit).sent = some (addr, out) ∧
        out = ⟨"POST", "/x?q=1", [("accept", "text/plain".toUTF8.toList),
          ("authorization", "Bearer t0".toUTF8.toList), ("host", "a.example".toUTF8.toList)], [1, 2, 3]⟩ ∧
        Faithful withToken "a.example" postVisit.request out := by
  obtain ⟨addr, hsent⟩ := sent_of_open withToken postVisit (by decide +kernel) rfl
  refine ⟨by decide +kernel, addr, _, hsent, by decide +kernel, (faithful_iff hsent).mpr ⟨rfl, by decide +kernel, ?_⟩⟩
  intro resolved hlook
  obtain rfl : resolved = ⟨"Authorization", "Bearer \x7bsecret\x7d", "t0"⟩ := by
    have heq : withToken.credentials.byHost.lookup (normalizeHost "a.example") =
        some ⟨"Authorization", "Bearer \x7bsecret\x7d", "t0"⟩ := by decide +kernel
    rw [heq] at hlook
    exact (Option.some.inj hlook).symm
  have hinj : injection withToken "a.example" = some ("authorization", "Bearer t0".toUTF8.toList) := by decide +kernel
  refine ⟨_, _, hinj, ?_⟩
  decide

/-- A request whose body cannot be read is forwarded, with an empty one. -/
theorem broken_body_forwarded :
    ¬ ∀ (visit : Visit) (addr : SocketAddr) (out : UpstreamRequest),
      (oneHost.handleInner "a.example" 80 false visit).sent = some (addr, out) →
        Faithful oneHost "a.example" visit.request out := by
  intro h
  obtain ⟨addr, hsent⟩ := sent_of_open oneHost brokenVisit (by decide) rfl
  have hbody := (h brokenVisit addr _ hsent).body
  cases hbody

end Silo.Proxy
