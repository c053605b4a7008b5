import Silo.Lib.Text
import Silo.Proxy.Credentials
import Silo.Proxy.Upstream

namespace Silo.Proxy

open Silo.Lib

def parseU16 (text : List Char) : Option UInt16 :=
  let digits := if text.head? = some '+' then text.tail else text
  match readDigits 10 digits with
  | ([], _) => none
  | (ds, []) =>
    let value := ds.foldl (fun acc d => acc * 10 + d) 0
    if value < 65536 then some value.toUInt16 else none
  | _ => none

def splitHostPort (target : List Char) (defaultPort : UInt16) : String × UInt16 :=
  let bracketed :=
    match target with
    | '[' :: stripped => splitOnce ']' stripped
    | _ => none
  match bracketed with
  | some (host, ':' :: port) => (String.ofList host, (parseU16 port).getD defaultPort)
  | some (host, _) => (String.ofList host, defaultPort)
  | none =>
    match rsplitOnce ':' target with
    | some (host, port) => (String.ofList host, (parseU16 port).getD defaultPort)
    | none => (String.ofList target, defaultPort)

def parseRequestLine (head : List UInt8) : Option (String × String) := do
  let text ← String.fromUTF8? ⟨head.toArray⟩
  if text.toList = [] then none
  else
    let line := text.toList.takeWhile fun c => c ≠ '\n'
    let (method, rest) ← nextWord line
    let (target, _) ← nextWord rest
    return (String.ofList method, String.ofList target)

/-- Reads up to the end of the header block. Gives the head, and what is left of
the stream; `none` for a head that is too large. -/
def readRequestHead (read : List UInt8) : List UInt8 → Option (List UInt8 × List UInt8)
  | [] => some (read.reverse, [])
  | byte :: rest =>
    let read := byte :: read
    if read.take 4 = [10, 13, 10, 13] then some (read.reverse, rest)
    else if 64 * 1024 < read.length then none
    else readRequestHead read rest

structure NetworkRecord where
  host : String
  port : UInt16
  method : Option String
  path : Option String
  status : Option UInt16
  bytesSent : Nat
  bytesReceived : Nat
  allowed : Bool
  credentialInjected : Bool
  note : Option String
  deriving DecidableEq, Repr

/-- A request as hyper hands it to the service: `target` as on its request line,
`path` and `pathAndQuery` as parsed. A body that cannot be read is `none`. -/
structure Request where
  method : String
  target : String
  path : String
  pathAndQuery : Option String
  headers : HeaderMap
  body : Option (List UInt8)
  deriving DecidableEq, Repr

structure UpstreamRequest where
  method : String
  uri : String
  headers : HeaderMap
  body : List UInt8
  deriving DecidableEq, Repr

structure Response where
  status : UInt16
  headers : HeaderMap
  body : List UInt8
  deriving DecidableEq, Repr

structure ProxyState where
  allowlist : DomainAllowlist
  credentials : CredentialStore
  upstream : UpstreamConnector
  http : HeaderSyntax

def blockRecord (host : String) (port : UInt16) (note : String) : NetworkRecord :=
  ⟨host, port, none, none, none, 0, 0, false, false, some note⟩

/-- The policy for a target host; the error is the note for the journal. -/
def ProxyState.hostPolicy (state : ProxyState) (host : String) : Except String Unit :=
  if state.allowlist.allows host = false then .error "domain not allowlisted"
  else if (parseIp host).any state.upstream.guard.isBlocked then .error "blocked address"
  else .ok ()

def headerText (value : List UInt8) : Option (List Char) :=
  if value.all fun b => (32 ≤ b && b < 127) || b = 9 then some (value.map fun b => Char.ofNat b.toNat) else none

def isUpgrade (headers : HeaderMap) : Bool :=
  headers.any (fun h => h.1 = "upgrade") ||
    ((headers.values "connection").head?.bind headerText).any fun text =>
      occursIn "upgrade".toList (text.map Char.toLower)

/-- One inner request, with the network and the server as it finds them. -/
structure Visit where
  request : Request
  net : Network
  reply : UpstreamRequest → Except String Response

/-- What one inner request comes to. `sent` is the request that went upstream,
and the address it went to. -/
structure Exchange where
  dial : Option Dial
  sent : Option (SocketAddr × UpstreamRequest)
  record : NetworkRecord
  response : Response
  deriving DecidableEq

/-- What the proxy does for one connection: the status lines it writes itself,
the attempts it blocks, and the inner requests it handles. -/
structure Trace where
  statuses : List (UInt16 × String)
  blocks : List NetworkRecord
  exchanges : List Exchange
  deriving DecidableEq

def statusResponse (code : UInt16) (message : String) : Response := ⟨code, [], message.toUTF8.toList⟩

namespace ProxyState

variable (state : ProxyState)

/-- The request that goes upstream for `host`, and whether it got a credential. -/
def rewrite (host : String) (request : Request) : UpstreamRequest × Bool :=
  let (headers, injected) := state.credentials.apply state.http host request.headers
  (⟨request.method, request.pathAndQuery.getD "/", headers.insert "host" ((state.http.value host).getD []),
    request.body.getD []⟩, injected)

def forwardRequest (host : String) (port : UInt16) (secure : Bool) (visit : Visit) :
    Dial × Option (SocketAddr × UpstreamRequest) × Except UpstreamError (Response × Bool) :=
  let (out, injected) := state.rewrite host visit.request
  match state.upstream.connect visit.net secure host port with
  | (dial, .error e) => (dial, none, .error e)
  | (dial, .ok addr) =>
    match visit.reply out with
    | .error e => (dial, some (addr, out), .error (.connect e))
    | .ok response => (dial, some (addr, out), .ok (response, injected))

def errorNote : UpstreamError → String
  | .blocked _ => "blocked address"
  | .resolve _ => "resolve failed"
  | .connect _ => "connect failed"
  | .tls _ => "upstream tls failed"

def isBlockedError : UpstreamError → Bool
  | .blocked _ => true
  | _ => false

/-- Processes one inner request. -/
def handleInner (host : String) (port : UInt16) (secure : Bool) (visit : Visit) : Exchange :=
  let method := some visit.request.method
  let path := some visit.request.path
  if isUpgrade visit.request.headers then
    ⟨none, none, ⟨host, port, method, path, none, 0, 0, false, false, some "upgrade blocked"⟩,
      statusResponse 403 "upgrade blocked"⟩
  else
    match state.forwardRequest host port secure visit with
    | (dial, sent, .ok (response, injected)) =>
      ⟨some dial, sent, ⟨host, port, method, path, some response.status, (visit.request.body.getD []).length,
        response.body.length, true, injected, none⟩, response⟩
    | (dial, sent, .error e) =>
      ⟨some dial, sent, ⟨host, port, method, path, none, 0, 0, !isBlockedError e, false, some (errorNote e)⟩,
        statusResponse 502 ("upstream error: " ++ e.display)⟩

/-- The service of one connection: hyper calls it for each request in turn, with
the host that the connection was opened for. -/
def serveInnerHttp (host : String) (port : UInt16) (secure : Bool) (visits : List Visit) : List Exchange :=
  visits.map (state.handleInner host port secure)

def serveConnect (target : String) (tlsAccepted : Bool) (visits : List Visit) : Trace :=
  let (host, port) := splitHostPort target.toList 443
  match state.hostPolicy host with
  | .error note => ⟨[(403, "Forbidden")], [blockRecord host port note], []⟩
  | .ok () =>
    let established := [((200 : UInt16), "Connection Established")]
    if tlsAccepted then ⟨established, [], state.serveInnerHttp host port true visits⟩
    else ⟨established, [blockRecord host port "tls handshake failed"], []⟩

def plainTarget (target : String) : Option (String × UInt16) :=
  if "http://".toList.isPrefixOf target.toList then
    some (splitHostPort ((target.toList.drop 7).takeWhile fun c => c ≠ '/') 80)
  else none

def servePlain (target : String) (visits : List Visit) : Trace :=
  match plainTarget target with
  | none => ⟨[(400, "Bad Request")], [], []⟩
  | some (host, port) =>
    match state.hostPolicy host with
    | .error note => ⟨[(403, "Forbidden")], [blockRecord host port note], []⟩
    | .ok () => ⟨[], [], state.serveInnerHttp host port false visits⟩

/-- Reads the first request line, dispatches CONNECT versus absolute-form.
`visits` are the requests that hyper parses from the stream, decrypted or
replayed. -/
def serveConnection (stream : List UInt8) (tlsAccepted : Bool) (visits : List Visit) : Trace :=
  match (readRequestHead [] stream).bind fun r => parseRequestLine r.1 with
  | none => ⟨[], [], []⟩
  | some (method, target) =>
    if method.toList.map Char.toLower = "connect".toList then state.serveConnect target tlsAccepted visits
    else state.servePlain target visits

end ProxyState

end Silo.Proxy
