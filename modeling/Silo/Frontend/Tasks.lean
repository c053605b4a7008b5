import Silo.Frontend.Interactive

namespace Silo.Frontend

open Silo.Lib Silo.Core Silo.Harness

/-- One step of the task of a connection. `leave` is the end of the stream, a
failed write, or the shutdown signal. -/
inductive ConnAct
  | accept
  | hello
  | frame (frame : Frame) (draw : State.Draw)
  | timeout
  | register (keyId : String) (saved : Bool)
  | nameClient
  | announce (clientId : String)
  | send
  | emitAnswer (time : Timestamp)
  | resume
  | command (delivered : Bool)
  | leave

/-- One step of a call of `run_tool` that asks a question: `poll` takes the
channel's branch of the `select`, `observe` the branch of the shutdown signal. -/
inductive CallAct
  | emit (time : Timestamp)
  | poll
  | observe
  | drop

/-- One step of a call of `interrupt`; `send` takes the sender at `k` of those
left, since a map drains in any order. -/
inductive InterruptAct
  | send (k : Nat)
  | emit (time : Timestamp)
  | resume

inductive Act
  | conn (c : Nat) (act : ConnAct)
  | runTool (agent : AgentId) (call : ToolCall) (time : Timestamp)
  | call (n : Nat) (act : CallAct)
  | interrupt
  | interrupting (i : Nat) (act : InterruptAct)
  | nextUserInput
  | emit (time : Timestamp) (payload : EventPayload)
  | emitJournal (seq : Nat)
  | emitBroadcast (seq : Nat)
  | tick (nanos : Nat)
  | watchCost (backend : String)
  | shutdown (message : Option String)
  | clearQuestions

/-- The task is at an `await`, where it can be left. -/
def Phase.awaits : Phase → Bool
  | .connecting | .authenticating _ | .authenticated _ | .ready _ | .commanding _ _ => true
  | _ => false

namespace State

variable (cfg : Config) (s : State)

def connStep (c : Nat) (act : ConnAct) : Option State :=
  match act, (s.conns c).phase with
  | .accept, .away => if s.down then none else some (s.goto c .connecting)
  | .hello, .connecting =>
    some ((s.say c (.hello cfg.harnessId cfg.protocolVersion)).goto c
      (if s.down then .closed else .authenticating none))
  | .frame frame draw, .authenticating pending => some (s.authFrame cfg c pending draw frame)
  | .timeout, .authenticating _ => some (s.deny c "authentication timed out")
  | .register keyId saved, .pairing publicKeyB64 clientName =>
    if (s.keys.records.lookup keyId).isSome then none else
    match s.keys.add keyId publicKeyB64 clientName saved with
    | (some keyId, keys) =>
      some ({ s with keys := keys }.goto c
        (.authenticated ⟨some keyId, (some clientName).filter fun name => name ≠ ""⟩))
    | (none, keys) => some ({ s with keys := keys }.deny c "could not persist the public key")
  | .nameClient, .verified keyId =>
    some (s.goto c (.authenticated ⟨some keyId, s.keys.clientName keyId⟩))
  | .announce clientId, .authenticated outcome =>
    some ((s.say c (.authOk clientId outcome.keyId s.bus.nextSeq)).goto c
      (if s.down then .closed else .ready ⟨clientId, outcome.clientName⟩))
  | .frame frame draw, .ready client => some (s.messageFrame c client draw frame)
  | .send, .answering client id question answer =>
    if (s.calls question).listening then
      some ({ s.setSlot question (.sent (.answered answer)) with
        accepted := s.accepted ++ [Accepted.mk question client.id answer] }.goto c (.resolved client id answer))
    else some (s.goto c (.ready client))
  | .emitAnswer time, .resolved client id answer =>
    some (s.connEmit c client time (.questionAnswered id (some client.id) answer) none)
  | .resume, .emitting client seq text =>
    if s.inFlight seq then none
    else some ({ s with prompts := s.prompts ++ text.toList }.goto c (.ready client))
  | .command delivered, .commanding client command =>
    some ({ s with commands := if delivered then s.commands ++ [command] else s.commands }.goto c
      (.ready client))
  | .leave, phase => if phase.awaits then some (s.goto c .closed) else none
  | _, _ => none

def insertQuestion (id : String) (n : Nat) : State :=
  let s := match s.questions.lookup id with
    | some old => s.setSlot old .closed
    | none => s
  { s with questions := (id, n) :: s.questions.filter fun e => e.1 ≠ id }

/-- `run_tool` up to its `emit`. What it returns at once changes nothing. -/
def runTool (agent : AgentId) (call : ToolCall) (time : Timestamp) : State :=
  if s.down then s
  else if call.name = "AskUserQuestion" then
    match cfg.parseQuestion call.input with
    | .error _ => s
    | .ok question =>
      { (s.insertQuestion (cfg.ids s.asked) s.asked).setCall s.asked ⟨agent, question, .inserted, .empty⟩ with
        asked := s.asked + 1 }
  else if call.name = "SendUserFile" then
    match cfg.parseSendUserFile call.input with
    | .error _ => s
    | .ok (name, contentB64) => s.emit time (.fileShared name contentB64 (.llm agent))
  else s

def callReturns (n : Nat) (result : Except FrontendError ToolOutput) : State :=
  s.setCall n { s.calls n with stage := .returned result }

def callStep (n : Nat) (act : CallAct) : Option State :=
  match act, (s.calls n).stage with
  | .emit time, .inserted =>
    let call := s.calls n
    some ((s.emit time (.questionAsked (cfg.ids n) call.agent call.question)).setCall n
      { call with stage := .waiting s.bus.nextSeq })
  | .poll, .waiting seq =>
    if s.inFlight seq then none else
    match (s.calls n).slot with
    | .sent (.answered answer) => some (s.callReturns n (.ok (.ok answer)))
    | .sent .interrupted => some (s.callReturns n (.ok (.error interruptedByUser)))
    | .closed => some (s.callReturns n (.error (.closed "the question was cancelled by shutdown")))
    | .empty => none
  | .observe, .waiting seq =>
    if s.inFlight seq || !s.down then none
    else some ({ s with questions := s.questions.filter fun e => e.1 ≠ cfg.ids n }.callReturns n
      (.error (.closed "the frontend is shutting down")))
  | .drop, .waiting seq =>
    if s.inFlight seq then none else some (s.setCall n { s.calls n with stage := .dropped })
  | _, _ => none

def interrupt : State :=
  if s.down then s
  else
    { s.setInterrupt s.interrupted (.sending s.questions) with
      questions := [], interrupted := s.interrupted + 1 }

def interruptStep (i : Nat) (act : InterruptAct) : Option State :=
  match act, s.interrupts i with
  | .send k, .sending pending =>
    (pending[k]?).map fun e =>
      if (s.calls e.2).listening then
        (s.setSlot e.2 (.sent .interrupted)).setInterrupt i (.resolved e.1 (pending.eraseIdx k))
      else s.setInterrupt i (.sending (pending.eraseIdx k))
  | .emit time, .resolved id pending =>
    some ((s.emit time (.questionAnswered id none interruptedAnswer)).setInterrupt i
      (.emitting s.bus.nextSeq pending))
  | .resume, .emitting seq pending =>
    if s.inFlight seq then none else some (s.setInterrupt i (.sending pending))
  | _, _ => none

def nextUserInput : Option State :=
  match s.prompts with
  | text :: prompts => if s.down then none else some { s with prompts := prompts, taken := s.taken ++ [text] }
  | [] => none

/-- `shutdown` takes the frontend by `&mut`: no other call is under way. -/
def unborrowed : Bool :=
  ((List.range s.asked).all fun n => !(s.calls n).listening) &&
    (List.range s.interrupted).all fun i => s.interrupts i = .sending []

def clearQuestions : State :=
  { s with
    questions := []
    calls := fun n => if n ∈ s.questions.map Prod.snd then { s.calls n with slot := .closed } else s.calls n
    shutdown := .cleared }

def next (s : State) : Act → Option State
  | .conn c act => s.connStep cfg c act
  | .runTool agent call time => some (s.runTool cfg agent call time)
  | .call n act => s.callStep cfg n act
  | .interrupt => some s.interrupt
  | .interrupting i act => s.interruptStep i act
  | .nextUserInput => s.nextUserInput
  | .emit time payload => if EventPayload.ofFrontend payload then none else some (s.emit time payload)
  | .emitJournal seq => (s.bus.emitJournal seq).map fun bus => { s with bus := bus }
  | .emitBroadcast seq => (s.bus.emitBroadcast seq).map fun bus => { s with bus := bus }
  | .tick nanos => some { s with now := s.now + nanos }
  | .watchCost backend => some { s with cost := if backend ∈ s.cost then s.cost else s.cost ++ [backend] }
  | .shutdown message =>
    if s.shutdown = .running && s.unborrowed then
      some { s with shutdown := .signalled, shutdownMessage := message }
    else none
  | .clearQuestions => if s.shutdown = .signalled then some s.clearQuestions else none

/-- `records` is what the key file held, and `issue` the pairing code that `start`
prints. -/
def start (records : List (String × KeyRecord)) (now : Nat) (issue : Option PairingCode) : State where
  bus := .empty
  commands := []
  keys := ⟨records, [records]⟩
  pairing := issue.elim .new fun code => PairingCodes.new.mintAt code now
  questions := []
  cost := []
  prompts := []
  shutdown := .running
  shutdownMessage := none
  now := now
  conns _ := ⟨.away, [], [], []⟩
  calls _ := ⟨topLevelAgentId, .null, .unborn, .empty⟩
  asked := 0
  interrupts _ := .unborn
  interrupted := 0
  taken := []
  accepted := []
  redeemed := []

def machine : Machine State Act := ⟨fun s => ∃ records now issue, s = start records now issue, next cfg⟩

end State

end Silo.Frontend
