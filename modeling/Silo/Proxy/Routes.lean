import Silo.Proxy.HttpProxy

namespace Silo.Proxy

open Silo.Lib

variable {state : ProxyState} {host : String} {port : UInt16} {secure : Bool} {visit : Visit}

theorem connectTcp_dial (up : UpstreamConnector) (net : Network) (host : String) (port : UInt16) :
    (up.connectTcp net host port).1.host = host ∧ (up.connectTcp net host port).1.port = port := by
  rw [UpstreamConnector.connectTcp]
  split
  · exact ⟨rfl, rfl⟩
  · split <;> exact ⟨rfl, rfl⟩

theorem connect_dial (up : UpstreamConnector) (net : Network) (secure : Bool) (host : String) (port : UInt16) :
    (up.connect net secure host port).1 = (up.connectTcp net host port).1 := by
  rw [UpstreamConnector.connect]
  split
  · next heq =>
      rw [heq]
      split
      · split <;> rfl
      · rfl
  · rfl

namespace ProxyState

theorem forwardRequest_dial (state : ProxyState) (host : String) (port : UInt16) (secure : Bool) (visit : Visit) :
    (state.forwardRequest host port secure visit).1 = (state.upstream.connectTcp visit.net host port).1 := by
  rw [← connect_dial state.upstream visit.net secure]
  simp only [forwardRequest]
  split
  · next heq => rw [heq]
  · next heq =>
      rw [heq]
      split <;> rfl

theorem forwardRequest_sent {addr : SocketAddr} {out : UpstreamRequest}
    (h : (state.forwardRequest host port secure visit).2.1 = some (addr, out)) :
    out = (state.rewrite host visit.request).1 := by
  simp only [forwardRequest] at h
  split at h
  · cases h
  · split at h
    · cases h
      rfl
    · cases h
      rfl

end ProxyState

open ProxyState

theorem handleInner_record (state : ProxyState) (host : String) (port : UInt16) (secure : Bool) (visit : Visit) :
    ((state.handleInner host port secure visit).record.host,
      (state.handleInner host port secure visit).record.port) = (host, port) := by
  simp only [handleInner]
  split
  · rfl
  · split <;> rfl

theorem handleInner_dial {dial : Dial} (h : (state.handleInner host port secure visit).dial = some dial) :
    dial = (state.upstream.connectTcp visit.net host port).1 := by
  rw [← forwardRequest_dial state host port secure visit]
  simp only [handleInner] at h
  split at h
  · cases h
  · split at h
    · next heq =>
        cases h
        rw [heq]
    · next heq =>
        cases h
        rw [heq]

theorem handleInner_sent {addr : SocketAddr} {out : UpstreamRequest}
    (h : (state.handleInner host port secure visit).sent = some (addr, out)) :
    out = (state.rewrite host visit.request).1 := by
  simp only [handleInner] at h
  split at h
  · cases h
  · split at h
    · next heq =>
        have hsent : (state.forwardRequest host port secure visit).2.1 = some (addr, out) := by
          rw [heq]
          exact h
        exact forwardRequest_sent hsent
    · next heq =>
        have hsent : (state.forwardRequest host port secure visit).2.1 = some (addr, out) := by
          rw [heq]
          exact h
        exact forwardRequest_sent hsent

/-- Host and port that an absolute-form target names, as a URI: the authority
ends at the first `/`, `?` or `#`, and user information is no part of the host. -/
def named (target : String) : Option (String × UInt16) :=
  if (target.toList.take 7).map Char.toLower = "http://".toList then
    let authority := (target.toList.drop 7).takeWhile fun c => c ≠ '/' ∧ c ≠ '?' ∧ c ≠ '#'
    match rsplitOnce '@' authority with
    | some (_, hostport) => some (splitHostPort hostport 80)
    | none => some (splitHostPort authority 80)
  else none

/-- A request that was dealt with as one for `target`: the host and port. -/
structure Routed (state : ProxyState) (target : String × UInt16) (request : Request) (exchange : Exchange) :
    Prop where
  recorded : (exchange.record.host, exchange.record.port) = target
  dialled : ∀ dial, exchange.dial = some dial →
    (dial.host, dial.port) = target ∧ state.hostPolicy target.1 = .ok ()
  credentialed : ∀ addr out, exchange.sent = some (addr, out) → out = (state.rewrite target.1 request).1
  refused : ∀ note, state.hostPolicy target.1 = .error note →
    exchange.dial = none ∧ exchange.record.allowed = false ∧ exchange.response.status = 403

/-- On a connection with these requests each is dealt with as one for the target
it names itself. -/
def RoutesOwn (state : ProxyState) (stream : List UInt8) (tlsAccepted : Bool) (first : Visit) (rest : List Visit) :
    Prop :=
  let trace := state.serveConnection stream tlsAccepted (first :: rest)
  (∀ visit exchange, (visit, exchange) ∈ (first :: rest).zip trace.exchanges →
    ∀ target, named visit.request.target = some target → Routed state target visit.request exchange) ∧
  ∀ record ∈ trace.blocks, ∀ target, named first.request.target = some target →
    (record.host, record.port) = target

/-- The requests that the proxy deals with: all, unless it turns the first away. -/
def attended (state : ProxyState) (first : Visit) (rest : List Visit) : List Visit :=
  match plainTarget first.request.target with
  | none => []
  | some (host, _) =>
    match state.hostPolicy host with
    | .error _ => [first]
    | .ok () => first :: rest

theorem routed_handleInner (hpolicy : state.hostPolicy host = .ok ()) (visit : Visit) :
    Routed state (host, port) visit.request (state.handleInner host port secure visit) := by
  constructor
  · exact handleInner_record ..
  · intro dial hdial
    obtain ⟨hhost, hport⟩ := connectTcp_dial state.upstream visit.net host port
    rw [handleInner_dial hdial, hhost, hport]
    exact ⟨rfl, hpolicy⟩
  · intro addr out hsent
    exact handleInner_sent hsent
  · intro note hnote
    rw [hpolicy] at hnote
    cases hnote

theorem mem_zip_map {α β : Type} {f : α → β} {l : List α} {a : α} {b : β} :
    (a, b) ∈ l.zip (l.map f) ↔ a ∈ l ∧ b = f a := by
  induction l with
  | nil => simp
  | cons x l ih =>
      simp only [List.map_cons, List.zip_cons_cons, List.mem_cons, Prod.mk.injEq, ih]
      constructor
      · rintro (⟨rfl, rfl⟩ | ⟨hmem, rfl⟩)
        · exact ⟨.inl rfl, rfl⟩
        · exact ⟨.inr hmem, rfl⟩
      · rintro ⟨rfl | hmem, rfl⟩
        · exact .inl ⟨rfl, rfl⟩
        · exact .inr ⟨hmem, rfl⟩

theorem eq_of_named {target : String} {own : String × UInt16} (hform : (named target).isSome = true)
    (h : ∀ t, named target = some t → own = t) : named target = some own := by
  obtain ⟨t, ht⟩ := Option.isSome_iff_exists.mp hform
  rw [ht, h t ht]

/-- Every request goes to its own target exactly when all that are dealt with
name the host and port that the first request line was read to name. -/
theorem routesOwn_iff {stream : List UInt8} {tlsAccepted : Bool} {first : Visit} {rest : List Visit}
    (hline : ((readRequestHead [] stream).bind fun r => parseRequestLine r.1) =
      some (first.request.method, first.request.target))
    (hmethod : first.request.method.toList.map Char.toLower ≠ "connect".toList)
    (hform : ∀ visit ∈ first :: rest, (named visit.request.target).isSome = true) :
    RoutesOwn state stream tlsAccepted first rest ↔
      ∀ visit ∈ attended state first rest, named visit.request.target = plainTarget first.request.target := by
  have hfirst := hform first List.mem_cons_self
  simp only [RoutesOwn, serveConnection, hline, hmethod, if_false, servePlain, attended]
  cases hplain : plainTarget first.request.target with
  | none => simp
  | some own =>
      obtain ⟨host, port⟩ := own
      dsimp only
      cases hpolicy : state.hostPolicy host with
      | error note =>
          simp only [List.zip_nil_right, List.not_mem_nil, false_implies, implies_true, true_and, List.mem_singleton,
            forall_eq, blockRecord]
          constructor
          · exact eq_of_named hfirst
          · intro hnamed t ht
            exact Option.some.inj (hnamed.symm.trans ht)
      | ok _ =>
          simp only [serveInnerHttp, mem_zip_map, List.not_mem_nil, false_implies, implies_true, and_true]
          constructor
          · intro h visit hmem
            apply eq_of_named (hform visit hmem)
            intro t ht
            rw [← (h visit _ ⟨hmem, rfl⟩ t ht).recorded]
            exact (handleInner_record ..).symm
          · rintro hall visit _ ⟨hmem, rfl⟩ t ht
            have heq : (host, port) = t := Option.some.inj ((hall visit hmem).symm.trans ht)
            rw [← heq]
            exact routed_handleInner hpolicy visit

section Example

def getStream : List UInt8 := "GET http://a.example/x HTTP/1.1\r\nHost: a.example\r\n\r\n".toUTF8.toList

theorem getStream_line : ((readRequestHead [] getStream).bind fun r => parseRequestLine r.1) =
    some ("GET", "http://a.example/x") := by decide +kernel

theorem getStream_target : plainTarget "http://a.example/x" = some ("a.example", 80) := by decide

def httpSyntax : HeaderSyntax where
  name text :=
    if text ≠ "" ∧ text.toList.all fun c => c.isAlphanum || "!#$%&'*+-.^_\x60|~".toList.contains c then
      some (String.ofList (text.toList.map Char.toLower))
    else none
  value text :=
    if text.toList.all fun c => (32 ≤ c.toNat && c.toNat < 127) || c = '\t' then some text.toUTF8.toList else none

/-- A proxy that lets one host through. -/
def oneHost : ProxyState where
  allowlist := .new ["a.example"]
  credentials := ⟨[]⟩
  upstream := ⟨⟨false⟩, [], fun _ => ""⟩
  http := httpSyntax

theorem oneHost_policy : oneHost.hostPolicy "a.example" = .ok () := by
  have hallows : oneHost.allowlist.allows "a.example" = true := by decide
  have hip : parseIp "a.example" = none := by decide
  simp [hostPolicy, hallows, hip]

/-- A network where every name has one public address that answers. -/
def getVisit (target path : String) : Visit where
  request := ⟨"GET", target, path, some path, [], some []⟩
  net := ⟨fun _ _ => .ok [⟨.v4 ⟨93, 184, 216, 34⟩, 80⟩], fun _ _ => .ok (), fun _ => .ok ()⟩
  reply := fun _ => .ok ⟨200, [], []⟩

theorem routesOwn_same_host :
    RoutesOwn oneHost getStream false (getVisit "http://a.example/x" "/x") [getVisit "http://a.example:80/y" "/y"] := by
  have hboth : ∀ visit ∈ [getVisit "http://a.example/x" "/x", getVisit "http://a.example:80/y" "/y"],
      named visit.request.target = some ("a.example", 80) := by
    simp only [List.mem_cons, List.not_mem_nil, or_false, forall_eq_or_imp, forall_eq]
    decide
  refine (routesOwn_iff getStream_line (by decide) ?_).mpr ?_
  · intro visit hmem
    rw [hboth visit hmem]
    rfl
  · intro visit hmem
    have hplain : plainTarget (getVisit "http://a.example/x" "/x").request.target = some ("a.example", 80) :=
      getStream_target
    simp only [attended, hplain, oneHost_policy] at hmem
    rw [hboth visit hmem, hplain]

/-- A second request on the connection, for a host that is not allowed, goes to
the first one's. -/
theorem second_host_not_routed : ¬ RoutesOwn oneHost getStream false (getVisit "http://a.example/x" "/x")
    [getVisit "http://b.example/y" "/y"] := by
  intro h
  have hmem : (getVisit "http://b.example/y" "/y", oneHost.handleInner "a.example" 80 false
      (getVisit "http://b.example/y" "/y")) ∈
      [getVisit "http://a.example/x" "/x", getVisit "http://b.example/y" "/y"].zip
        (oneHost.serveConnection getStream false
          [getVisit "http://a.example/x" "/x", getVisit "http://b.example/y" "/y"]).exchanges := by
    have hmethod : "GET".toList.map Char.toLower ≠ "connect".toList := by decide
    simp only [serveConnection, getStream_line, hmethod, if_false, servePlain, getStream_target, oneHost_policy,
      serveInnerHttp]
    exact mem_zip_map.mpr ⟨by simp, rfl⟩
  have hrecord := (h.1 _ _ hmem ("b.example", 80) rfl).recorded
  rw [handleInner_record] at hrecord
  revert hrecord
  decide

end Example

end Silo.Proxy
