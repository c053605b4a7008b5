import Silo.Core.EventBus
import Silo.Frontend.Auth
import Silo.Harness.Record
import Silo.Lib.Machine

namespace Silo.Frontend

open Silo.Lib Silo.Core Silo.Harness

inductive AuthRequest
  | localToken (token : String)
  | pair (code publicKeyB64 clientName : String)
  | challenge (keyId : String)
  | signature (keyId signatureB64 : String)
  deriving DecidableEq, Repr

inductive ClientMessage
  | authenticate (auth : AuthRequest)
  | prompt (text : String)
  | answerQuestion (questionId answer : String)
  | uploadFile (name contentB64 : String)
  | requestEvents (fromSeq : Nat)
  | requestAccessReport
  | requestCost
  | requestPairingCode
  | interrupt
  | shutdown
  | ping (nonce : Nat)
  deriving DecidableEq, Repr

/-- Messages of the server, less what the event pump and the writer send. -/
inductive ServerMessage
  | hello (harnessId : String) (protocolVersion : Nat)
  | authChallenge (challengeB64 : String)
  | authOk (clientId : String) (keyId : Option String) (nextSeq : Nat)
  | authError (message : String)
  | events (events : List (Event EventPayload))
  | accessReport
  | cost (backends : List String)
  | pairingCode (code : String) (expiresInSecs : Nat)
  | pong (nonce : Nat)
  | error (message : String)

/-- A WebSocket frame; `none` is text that is no `ClientMessage`. -/
inductive Frame
  | text (message : Option ClientMessage)
  | close
  | other
  deriving DecidableEq, Repr

/-- What an interactive frontend is started with. `ids` are the short ids it
draws for questions; `parseQuestion` and `parseSendUserFile` read the inputs of
its tools. -/
structure Config where
  crypto : Crypto
  token : String
  harnessId : String
  protocolVersion : Nat
  ids : Nat → String
  parseQuestion : Json → Except String Json
  parseSendUserFile : Json → Except String (String × String)

def Config.digest (cfg : Config) (token : String) : Bytes32 := cfg.crypto.sha256 token.toUTF8.toList

inductive QuestionOutcome
  | answered (answer : String)
  | interrupted
  deriving DecidableEq, Repr

/-- The oneshot channel of a question: nothing sent yet, sent, or the sender
dropped. -/
inductive Slot
  | empty
  | sent (outcome : QuestionOutcome)
  | closed
  deriving DecidableEq, Repr

/-- Where a call of `run_tool` that asks a question is: its sender is in the map;
it has emitted `QuestionAsked` and waits; it has returned; it was dropped. -/
inductive CallStage
  | unborn
  | inserted
  | waiting (seq : Nat)
  | returned (result : Except FrontendError ToolOutput)
  | dropped

structure Call where
  agent : AgentId
  question : Json
  stage : CallStage
  slot : Slot

def Call.listening (call : Call) : Bool := call.stage matches .inserted | .waiting _

/-- A call of `interrupt`: the senders it drained and has yet to use; between a
send and the `emit` for it; in that `emit`. -/
inductive Interrupting
  | unborn
  | sending (pending : List (String × Nat))
  | resolved (id : String) (pending : List (String × Nat))
  | emitting (seq : Nat) (pending : List (String × Nat))
  deriving DecidableEq, Repr

structure AuthOutcome where
  keyId : Option String
  clientName : Option String
  deriving DecidableEq, Repr

structure Client where
  id : String
  name : Option String
  deriving DecidableEq, Repr

/-- Where the task of a connection is. `authenticating` to `verified` are the
loop of `authenticate`, from `ready` on messages are read: `answering` holds a
question's sender, `resolved` has used it, `emitting` is inside `emit`, with the
text a prompt still has to enqueue, and `commanding` awaits the channel. -/
inductive Phase
  | away
  | connecting
  | authenticating (pending : Option (String × Bytes32))
  | pairing (publicKeyB64 clientName : String)
  | verified (keyId : String)
  | authenticated (outcome : AuthOutcome)
  | ready (client : Client)
  | emitting (client : Client) (seq : Nat) (text : Option String)
  | answering (client : Client) (id : String) (question : Nat) (answer : String)
  | resolved (client : Client) (id answer : String)
  | commanding (client : Client) (command : FrontendCommand)
  | closed
  deriving DecidableEq

/-- A connection. `heard` are its `Authenticate` frames and `issued` the
challenges it was sent. -/
structure Conn where
  phase : Phase
  heard : List AuthRequest
  issued : List (String × Bytes32)
  out : List ServerMessage

structure Redemption where
  conn : Nat
  code : String
  mint : Mint
  time : Nat
  deriving DecidableEq, Repr

structure Accepted where
  question : Nat
  clientId : String
  answer : String
  deriving DecidableEq, Repr

inductive ShutdownStage
  | running
  | signalled
  | cleared
  deriving DecidableEq, Repr

/-- The frontend, its shared state and its tasks. `prompts` is the prompt queue
and `commands` all that went through the command channel. `taken` are the texts
`next_user_input` returned; with `accepted` and `redeemed` it is only read by
statements. -/
structure State where
  bus : EventBus EventPayload
  commands : List FrontendCommand
  keys : AuthorizedKeys
  pairing : PairingCodes
  questions : List (String × Nat)
  cost : List String
  prompts : List String
  shutdown : ShutdownStage
  shutdownMessage : Option String
  now : Nat
  conns : Nat → Conn
  calls : Nat → Call
  asked : Nat
  interrupts : Nat → Interrupting
  interrupted : Nat
  taken : List String
  accepted : List Accepted
  redeemed : List Redemption

def EventPayload.ofFrontend : EventPayload → Bool
  | .userPrompt _ _ _ | .questionAsked _ _ _ | .questionAnswered _ _ _ => true
  | _ => false

namespace State

variable (cfg : Config) (s : State)

def down : Bool := s.shutdown ≠ .running

def setConn (c : Nat) (conn : Conn) : State := { s with conns := Function.update s.conns c conn }

def goto (c : Nat) (phase : Phase) : State := s.setConn c { s.conns c with phase := phase }

def say (c : Nat) (message : ServerMessage) : State :=
  s.setConn c { s.conns c with out := (s.conns c).out ++ [message] }

def setCall (n : Nat) (call : Call) : State := { s with calls := Function.update s.calls n call }

def setSlot (n : Nat) (slot : Slot) : State := s.setCall n { s.calls n with slot := slot }

def setInterrupt (i : Nat) (interrupt : Interrupting) : State :=
  { s with interrupts := Function.update s.interrupts i interrupt }

def emit (time : Timestamp) (payload : EventPayload) : State :=
  { s with bus := s.bus.emitAppend time payload }

/-- A call of `emit` that has not returned. -/
def inFlight (seq : Nat) : Bool := s.bus.emits.any fun e => e.event.seq = seq

def deny (c : Nat) (message : String) : State := (s.say c (.authError message)).goto c .closed

/-- The clock and the random source, as a step finds them. -/
structure Draw where
  time : Timestamp
  code : PairingCode
  challenge : Bytes32

/-- One `Authenticate` frame. -/
def authenticate (c : Nat) (pending : Option (String × Bytes32)) (draw : Draw) : AuthRequest → State
  | .localToken token =>
    if constantTimeEq (cfg.digest token) (cfg.digest cfg.token) then
      s.goto c (.authenticated ⟨none, none⟩)
    else s.deny c "invalid token"
  | .pair code publicKeyB64 clientName =>
    match s.pairing.redeemAt code s.now with
    | (none, pairing) => { s with pairing := pairing }.deny c "invalid or expired pairing code"
    | (some mint, pairing) =>
      let s : State := { s with pairing := pairing, redeemed := s.redeemed ++ [⟨c, code, mint, s.now⟩] }
      match parsePublicKey cfg.crypto publicKeyB64 with
      | none => s.deny c "invalid public key"
      | some _ => s.goto c (.pairing publicKeyB64 clientName)
  | .challenge keyId =>
    match s.keys.verifyingKey cfg.crypto keyId with
    | none => s.deny c "unknown key"
    | some _ =>
      let s := s.setConn c { s.conns c with
        phase := .authenticating (some (keyId, draw.challenge))
        issued := (s.conns c).issued ++ [(keyId, draw.challenge)] }
      s.say c (.authChallenge (cfg.crypto.b64 draw.challenge.toList))
  | .signature keyId signatureB64 =>
    match pending with
    | none => s.deny c "no pending challenge"
    | some (pendingId, challenge) =>
      if pendingId ≠ keyId then s.deny c "challenge does not match this key" else
      match s.keys.verifyingKey cfg.crypto keyId with
      | none => s.deny c "unknown key"
      | some key =>
        if validSignature cfg.crypto key challenge signatureB64 then s.goto c (.verified keyId)
        else s.deny c "invalid signature"

def authFrame (c : Nat) (pending : Option (String × Bytes32)) (draw : Draw) : Frame → State
  | .text (some (.authenticate auth)) =>
    (s.setConn c { s.conns c with heard := (s.conns c).heard ++ [auth] }).authenticate cfg c pending draw auth
  | .text (some _) => s.deny c "authentication required"
  | .text none => s.deny c "malformed message"
  | .close => s.goto c .closed
  | .other => s

/-- The beginning of an `emit` by the task of a connection. -/
def connEmit (c : Nat) (client : Client) (time : Timestamp) (payload : EventPayload) (text : Option String) :
    State :=
  (s.emit time payload).goto c (.emitting client s.bus.nextSeq text)

/-- The part of `handle_message` up to its first wait, or its next lock. -/
def handleMessage (c : Nat) (client : Client) (draw : Draw) : ClientMessage → State
  | .authenticate _ => s.say c (.error "already authenticated")
  | .prompt text => s.connEmit c client draw.time (.userPrompt (some client.id) client.name text) (some text)
  | .answerQuestion questionId answer =>
    match s.questions.lookup questionId with
    | none => s
    | some question =>
      { s with questions := s.questions.filter fun e => e.1 ≠ questionId }.goto c
        (.answering client questionId question answer)
  | .interrupt => s.goto c (.commanding client .interrupt)
  | .uploadFile name contentB64 =>
    s.connEmit c client draw.time (.fileShared name contentB64 (.client client.id)) none
  | .requestEvents fromSeq => s.say c (.events (s.bus.since fromSeq))
  | .requestAccessReport => s.say c .accessReport
  | .requestCost => s.say c (.cost s.cost)
  | .requestPairingCode =>
    { s with pairing := s.pairing.mintAt draw.code s.now }.say c
      (.pairingCode draw.code.1 (pairingCodeTtl / nanosPerSec))
  | .shutdown => s.goto c (.commanding client (.shutdown none))
  | .ping nonce => s.say c (.pong nonce)

def messageFrame (c : Nat) (client : Client) (draw : Draw) : Frame → State
  | .text (some message) => s.handleMessage c client draw message
  | .text none => s.say c (.error "unrecognized message")
  | .close => s.goto c .closed
  | .other => s

end State

end Silo.Frontend
