import Silo.Proxy.Allowlist
import Silo.Proxy.IpGuard

namespace Silo.Proxy

structure SocketAddr where
  ip : IpAddr
  port : UInt16
  deriving DecidableEq, Repr

inductive UpstreamError
  | blocked (detail : String)
  | resolve (detail : String)
  | connect (detail : String)
  | tls (detail : String)
  deriving DecidableEq, Repr

def UpstreamError.display : UpstreamError → String
  | blocked m => "blocked address: " ++ m
  | resolve m => "resolve failed: " ++ m
  | connect m => "connect failed: " ++ m
  | tls m => "upstream tls failed: " ++ m

/-- What the host system answers while one upstream connection is made:
`lookup` is `tokio::net::lookup_host`, `connect` is `TcpStream::connect`, and
`handshake` the TLS side of `connect_tls`. A resolver or a server may answer
each call differently, so the first two are given how many there were before. -/
structure Network where
  lookup : Nat → String → Except String (List SocketAddr)
  connect : Nat → SocketAddr → Except String Unit
  handshake : String → Except String Unit

structure Lookup where
  name : String
  answer : Except String (List SocketAddr)
  deriving DecidableEq

structure UpstreamConnector where
  guard : IpGuard
  resolverOverrides : List (String × SocketAddr)
  displayIp : IpAddr → String

/-- A call of `connect_tcp`: the calls of the resolver it made, the addresses it
resolved `host` to, and those it opened a connection to, or tried. -/
structure Dial where
  host : String
  port : UInt16
  lookups : List Lookup
  resolved : List SocketAddr
  tried : List SocketAddr
  deriving DecidableEq

namespace UpstreamConnector

variable (up : UpstreamConnector) (net : Network)

/-- `lookups` are the calls of the resolver so far; it comes back with those made here. -/
def resolve (host : String) (port : UInt16) (lookups : List Lookup) :
    List Lookup × Except UpstreamError (List SocketAddr) :=
  match up.resolverOverrides.lookup (normalizeHost host) with
  | some addr => (lookups, .ok [addr])
  | none =>
    let name := host ++ ":" ++ toString port
    let answer := net.lookup lookups.length name
    (lookups ++ [⟨name, answer⟩],
      match answer with
      | .ok [] => .error (.resolve ("no addresses for " ++ host))
      | .ok addrs => .ok addrs
      | .error e => .error (.resolve (host ++ ": " ++ e)))

/-- The connections tried, up to the first that opens; `n` were tried before. -/
def connectFirst (last : String) (n : Nat) : List SocketAddr → List SocketAddr × Except String SocketAddr
  | [] => ([], .error last)
  | addr :: rest =>
    match net.connect n addr with
    | .ok () => ([addr], .ok addr)
    | .error e => (addr :: (connectFirst e (n + 1) rest).1, (connectFirst e (n + 1) rest).2)

def connectTcp (host : String) (port : UInt16) : Dial × Except UpstreamError SocketAddr :=
  match up.resolve net host port [] with
  | (lookups, .error e) => (⟨host, port, lookups, [], []⟩, .error e)
  | (lookups, .ok addrs) =>
    match addrs.findSome? fun addr => (up.guard.check addr.ip).map fun reason => (addr, reason) with
    | some (addr, reason) =>
      (⟨host, port, lookups, addrs, []⟩,
        .error (.blocked (host ++ " resolves to " ++ up.displayIp addr.ip ++ " (" ++ reason.asStr ++ ")")))
    | none =>
      let (tried, opened) := connectFirst net "no addresses" 0 addrs
      (⟨host, port, lookups, addrs, tried⟩, opened.mapError UpstreamError.connect)

/-- `connect_tls`, or `connect_tcp` alone. -/
def connect (secure : Bool) (host : String) (port : UInt16) : Dial × Except UpstreamError SocketAddr :=
  match up.connectTcp net host port with
  | (dial, .ok addr) =>
    if secure then
      match net.handshake host with
      | .ok () => (dial, .ok addr)
      | .error e => (dial, .error (.tls e))
    else (dial, .ok addr)
  | failed => failed

end UpstreamConnector

end Silo.Proxy
