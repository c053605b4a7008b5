import Silo.Lib.Machine

namespace Silo.Clients

open Silo.Lib

namespace AppConnection

inductive ConnectionStatus
  | disconnected
  | connecting
  | authenticating
  | connected
  | reconnecting
  | failed
  deriving DecidableEq, Repr

/-- The frames of the server that the connection acts on; `authOk` tells whether it has a
key id. -/
inductive Message
  | hello
  | authChallenge
  | authOk (keyId : Bool)
  | authError
  | shuttingDown
  | other
  deriving DecidableEq, Repr

inductive Frame
  | localToken
  | challenge
  | pair
  | signature
  | requestEvents
  | requestAccessReport
  | requestCost
  | user
  deriving DecidableEq, Repr

/-- What a handler of a frame awaits: the three reads of `_startAuth` and the making of a
key pair, the same of `_answerChallenge`, the writes of `_onAuthOk`, or a close. -/
inductive Stage
  | token
  | keyId
  | seed (keyId : Bool)
  | keyPair
  | privateKey
  | publicKey
  | challengeKeyId
  | challengeSeed (keyId : Bool)
  | challengePair
  | sign
  | writeSeed
  | writeKeyId
  | close (channel : Nat)
  deriving DecidableEq, Repr

/-- What a call of `_connect` awaits. -/
inductive Attempt
  | settings
  | factory
  deriving DecidableEq, Repr

/-- What a call of `disconnect` awaits. -/
inductive Closing
  | cancel
  | close (channel : Option Nat)
  deriving DecidableEq, Repr

/-- A frame sent, with its channel, the channel of the frame it replies to, and whether a
`disconnect` had completed since the last `connect`. -/
structure Sent where
  frame : Frame
  channel : Nat
  origin : Option Nat
  released : Bool
  deriving DecidableEq, Repr

end AppConnection

open AppConnection in
/-- The channels are numbered in the order the factory opens them. `live` are those not
yet closed and `listening` those whose subscription is active. -/
structure AppConnection where
  status : ConnectionStatus
  closing : Bool
  timer : Bool
  reconnectAttempt : Nat
  channel : Option Nat
  subscription : Option Nat
  pairingCode : Bool
  pendingKeySeed : Bool
  opened : Nat
  live : List Nat
  listening : List Nat
  attempts : List Attempt
  handlers : List (Nat × Stage)
  disconnects : List Closing
  sent : List Sent
  released : Bool

namespace AppConnection

variable (maxAutoReconnects : Nat) (s : AppConnection)

/-- `settings`, `factory`, `cancelled`, `closed` and `resume` end what a call awaits, with
an error if there is no result or it is false. `drop` closes a channel at the transport,
and `done` tells the listener. -/
inductive Act
  | connect
  | disconnect
  | fire
  | settings (n : Nat) (ok : Bool)
  | factory (n : Nat) (ok : Bool)
  | cancelled (n : Nat) (ok : Bool)
  | closed (n : Nat) (ok : Bool)
  | frame (channel : Nat) (message : Message)
  | resume (n : Nat) (result : Option Bool)
  | drop (channel : Nat)
  | done (channel : Nat)
  | send
  deriving DecidableEq, Repr

def start (pairingCode : Bool) : AppConnection :=
  { status := .disconnected, closing := false, timer := false, reconnectAttempt := 0, channel := none,
    subscription := none, pairingCode := pairingCode, pendingKeySeed := false, opened := 0, live := [],
    listening := [], attempts := [], handlers := [], disconnects := [], sent := [], released := false }

def send (origin : Option Nat) (frame : Frame) : AppConnection :=
  match s.channel with
  | none => s
  | some channel => { s with sent := s.sent ++ [⟨frame, channel, origin, s.released⟩] }

def await (origin : Nat) (stage : Stage) : AppConnection := { s with handlers := s.handlers ++ [(origin, stage)] }

def active : Bool :=
  decide (s.status = .connecting) || decide (s.status = .authenticating) || decide (s.status = .connected)

/-- `_connect`, up to its first await. -/
def beginConnect : AppConnection :=
  if s.active then s
  else { s with closing := false, timer := false, status := .connecting, attempts := s.attempts ++ [.settings] }

def scheduleReconnect : AppConnection :=
  if s.closing then { s with status := .disconnected }
  else if maxAutoReconnects ≤ s.reconnectAttempt then { s with status := .failed }
  else { s with reconnectAttempt := s.reconnectAttempt + 1, timer := true, status := .reconnecting }

def onDisconnected : AppConnection :=
  let s := { s with subscription := none, channel := none }
  if s.closing || decide (s.status = .failed) then
    if s.status = .failed then s else { s with status := .disconnected }
  else s.scheduleReconnect maxAutoReconnects

/-- The status is `failed`, and whatever channel there is gets closed. -/
def giveUp (origin : Nat) : AppConnection :=
  let s := { s with closing := true, status := .failed }
  match s.channel with
  | none => s
  | some channel => s.await origin (.close channel)

/-- The end of `_onAuthOk`. -/
def welcome (origin : Nat) : AppConnection :=
  (({ s with reconnectAttempt := 0, status := .connected }.send origin .requestEvents).send origin
    .requestAccessReport).send origin .requestCost

def handleMessage (origin : Nat) : Message → AppConnection
  | .hello => { s with status := .authenticating }.await origin .token
  | .authChallenge => s.await origin .challengeKeyId
  | .authOk keyId => if s.pendingKeySeed && keyId then s.await origin .writeSeed else s.welcome origin
  | .authError => s.giveUp origin
  | .shuttingDown => { s with closing := true }
  | .other => s

/-- A handler of a frame of channel `origin` goes on with the result of what it awaited. -/
def proceed (origin : Nat) : Stage → Bool → AppConnection
  | .token, found => if found then s.send origin .localToken else s.await origin .keyId
  | .keyId, found => s.await origin (.seed found)
  | .seed keyId, found =>
    if keyId && found then s.send origin .challenge
    else if s.pairingCode then s.await origin .keyPair
    else s.giveUp origin
  | .keyPair, _ => s.await origin .privateKey
  | .privateKey, _ => { s with pendingKeySeed := true }.await origin .publicKey
  | .publicKey, _ => s.send origin .pair
  | .challengeKeyId, found => s.await origin (.challengeSeed found)
  | .challengeSeed keyId, found =>
    if keyId && found then s.await origin .challengePair else { s with status := .failed }
  | .challengePair, _ => s.await origin .sign
  | .sign, _ => s.send origin .signature
  | .writeSeed, _ => s.await origin .writeKeyId
  | .writeKeyId, _ => { s with pendingKeySeed := false, pairingCode := false }.welcome origin
  | .close channel, _ => { s with live := s.live.erase channel }

def next : Act → Option AppConnection
  | .connect =>
    let s := { s with released := false }
    if s.active then some s else some { s with reconnectAttempt := 0 }.beginConnect
  | .fire => if s.timer then some { s with timer := false }.beginConnect else none
  | .settings n ok =>
    if s.attempts[n]? = some .settings then
      if ok then some { s with attempts := s.attempts.set n .factory }
      else some ({ s with attempts := s.attempts.eraseIdx n }.scheduleReconnect maxAutoReconnects)
    else none
  | .factory n ok =>
    if s.attempts[n]? = some .factory then
      let s := { s with attempts := s.attempts.eraseIdx n }
      if ok then
        some { s with
          opened := s.opened + 1
          live := s.live ++ [s.opened]
          listening := s.listening ++ [s.opened]
          channel := some s.opened
          subscription := some s.opened }
      else some (s.scheduleReconnect maxAutoReconnects)
    else none
  | .disconnect =>
    some { s with
      closing := true
      timer := false
      listening := s.listening.filter fun channel => some channel ≠ s.subscription
      disconnects := s.disconnects ++ [.cancel] }
  | .cancelled n ok =>
    if s.disconnects[n]? = some .cancel then
      if ok then some { s with subscription := none, disconnects := s.disconnects.set n (.close s.channel) }
      else some { s with disconnects := s.disconnects.eraseIdx n }
    else none
  | .closed n ok =>
    match s.disconnects[n]? with
    | some (.close channel) =>
      let s := { s with disconnects := s.disconnects.eraseIdx n }
      if ok then
        some { s with
          live := s.live.filter fun c => some c ≠ channel
          channel := none
          status := .disconnected
          released := true }
      else some s
    | _ => none
  | .frame channel message => if channel ∈ s.listening then some (s.handleMessage channel message) else none
  | .resume n result =>
    match s.handlers[n]? with
    | none => none
    | some (origin, stage) =>
      let s := { s with handlers := s.handlers.eraseIdx n }
      match result with
      | none => some s
      | some result => some (s.proceed origin stage result)
  | .drop channel => if channel ∈ s.live then some { s with live := s.live.erase channel } else none
  | .done channel =>
    if channel ∈ s.listening ∧ channel ∉ s.live then
      some ({ s with listening := s.listening.filter (· ≠ channel) }.onDisconnected maxAutoReconnects)
    else none
  | .send => some (s.send none .user)

def machine : Machine AppConnection Act := ⟨fun s => ∃ pairingCode, s = start pairingCode, next maxAutoReconnects⟩

/-- At most one channel is open; from the end of `disconnect` to the next `connect` none
is, nothing is sent and the status stays; and a reply goes to the channel it is for. -/
structure Obedient : Prop where
  single : s.live.length ≤ 1
  closed : s.released = true → s.live = [] ∧ s.status = .disconnected
  silent : ∀ sent ∈ s.sent, sent.released = false
  replies : ∀ sent ∈ s.sent, ∀ origin, sent.origin = some origin → sent.channel = origin

def Stage.sends : Stage → Bool → Bool
  | .token, found => found
  | .seed hasKeyId, found => hasKeyId && found
  | .publicKey, _ => true
  | .sign, _ => true
  | .writeKeyId, _ => true
  | _, _ => false

def Stage.sets (pairingCode : Bool) : Stage → Bool → Bool
  | .seed hasKeyId, found => !(hasKeyId && found) && !pairingCode
  | .challengeSeed hasKeyId, found => !(hasKeyId && found)
  | .writeKeyId, _ => true
  | _, _ => false

/-- An attempt to connect starts only when no other attempt or `disconnect` is under way
and the last channel is gone; `disconnect` is not called during an attempt; and a handler
changes the status only when its channel is still the current one, and sends only then or
when there is none. -/
def orderly (s : AppConnection) : Act → Bool
  | .connect => s.active || (s.attempts.isEmpty && s.disconnects.isEmpty && s.channel.isNone)
  | .fire => s.active || (s.attempts.isEmpty && s.disconnects.isEmpty && s.channel.isNone)
  | .disconnect => s.attempts.isEmpty
  | .resume n (some result) =>
    match s.handlers[n]? with
    | none => true
    | some (origin, stage) =>
      (!stage.sends result || s.channel.isNone || decide (s.channel = some origin)) &&
        (!stage.sets s.pairingCode result || decide (s.channel = some origin))
  | _ => true

end AppConnection

end Silo.Clients
