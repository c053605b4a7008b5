import Silo.Sandbox.ToolImpl
import Silo.Sandbox.HelperLeavings
import Silo.Harness.SessionStep

namespace Silo.Harness

open Silo.Core Silo.Lib Silo.Sandbox Session

/-- The future of `run_tool`, once polled: returned without a request, or in
`request`. -/
inductive ToolFuture
  | answered (result : ToolResult)
  | asked (n : Nat)

/-- `cancel_inflight` past its snapshot: the ids not yet cancelled, and the call
for the one in hand. -/
structure CancelInflight where
  ids : List UInt64
  current : Option Nat

/-- The call whose `run_tool` is under way. SendUserFile reads the file by a call
of its own. -/
def Phase.sandboxCall : Phase → Option ToolCall
  | .driving stage .sandbox | .driving stage .sandboxInterrupt | .driving stage .sandboxDrain =>
    currentCall stage
  | .driving stage (.read path) =>
    (currentCall stage).map fun call =>
      ⟨call.id ++ "-read", "Read", .object [("path", .string path)]⟩
  | _ => none

def Phase.inSandbox : Phase → Bool
  | .driving _ .sandbox | .driving _ .sandboxInterrupt | .driving _ .sandboxDrain
  | .driving _ (.read _) => true
  | _ => false

def Phase.cancelsSandbox : Phase → Bool
  | .driving _ .sandboxInterrupt => true
  | _ => false

/-- The agents of a session with the helper session of their sandbox. `caller`
names the agent that made a call of `request`, if one did. -/
structure SandboxedRun where
  session : Session
  helper : HelperSession
  tool : AgentId → Option ToolFuture
  cancels : AgentId → Option CancelInflight
  caller : Nat → Option AgentId

namespace SandboxedRun

variable (ctx : SessionCtx) (env : ToolEnv) (p : SandboxedRun) (a : AgentId)

def phase : Phase := (p.session.agents a).phase

def returned (n : Nat) : Option Sandbox.Reply :=
  match (p.helper.calls n).stage with
  | .returned reply => some reply
  | _ => none

def ready : Option ToolResult :=
  match p.tool a with
  | some (.answered result) => some result
  | some (.asked n) =>
    (p.phase a).sandboxCall.bind fun call =>
      (p.returned n).map fun reply =>
        match env.runTool call with
        | .ok (_, after) => after reply
        | .error result => result
  | none => none

def cancelled : Bool :=
  (p.cancels a).any fun c => c.ids.isEmpty && c.current.all fun n => (p.returned n).isSome

def answer (choice : Choice) : Answer :=
  match p.phase a with
  | .driving _ .sandbox | .driving _ .sandboxDrain | .driving _ (.read _) =>
    (p.ready env a).elim .pending .sandbox
  | .driving _ .sandboxInterrupt => if p.cancelled a then .sandboxInterrupt none else .pending
  | _ => choice.answer

def begin : Option SandboxedRun :=
  match p.tool a, p.phase a with
  | none, .driving _ .sandbox | none, .driving _ (.read _) =>
    (p.phase a).sandboxCall.bind fun call =>
      match env.runTool call with
      | .error result => some { p with tool := Function.update p.tool a (some (.answered result)) }
      | .ok (op, _) =>
        (p.helper.draw op).map fun helper =>
          { p with
            helper := helper
            tool := Function.update p.tool a (some (.asked p.helper.drawn))
            caller := Function.update p.caller p.helper.drawn (some a) }
  | _, _ => none

/-- `interrupt` is called: `cancel_inflight` takes the ids in flight. -/
def snapshot : Option SandboxedRun :=
  match p.cancels a, p.phase a with
  | none, .driving _ .sandboxInterrupt =>
    some { p with cancels := Function.update p.cancels a (some ⟨p.helper.inflightExecs, none⟩) }
  | _, _ => none

def cancel (id : UInt64) : Option SandboxedRun :=
  (p.cancels a).bind fun c =>
    if id ∈ c.ids ∧ c.current.all (fun n => (p.returned n).isSome) then
      (p.helper.draw (.cancel id)).map fun helper =>
        { p with
          helper := helper
          cancels := Function.update p.cancels a (some ⟨c.ids.erase id, some p.helper.drawn⟩)
          caller := Function.update p.caller p.helper.drawn (some a) }
    else none

def toolCalls : List Nat :=
  match p.tool a with
  | some (.asked n) => [n]
  | _ => []

def cancelCalls : List Nat := ((p.cancels a).bind CancelInflight.current).toList

/-- The calls not yet returned whose futures go when the task gets to `phase`. -/
def forsaken (phase : Phase) : List Nat :=
  ((if phase.inSandbox then [] else p.toolCalls a) ++
    (if phase.cancelsSandbox then [] else p.cancelCalls a)).filter fun n => (p.returned n).isNone

def abandon (calls : List Nat) (helper : HelperSession) : Option HelperSession :=
  calls.foldlM (fun h n => h.next env.debug (.abandon n)) helper

/-- The session has moved and the task of `a` with it: its futures are kept or
dropped. -/
def settle (session : Session) : Option SandboxedRun :=
  let phase := (session.agents a).phase
  (abandon env (p.forsaken a phase) p.helper).map fun helper =>
    { p with
      session := session
      helper := helper
      tool := Function.update p.tool a (if phase.inSandbox then p.tool a else none)
      cancels := Function.update p.cancels a (if phase.cancelsSandbox then p.cancels a else none) }

def polled : Bool :=
  match p.phase a with
  | .driving _ .sandbox | .driving _ (.read _) => (p.tool a).isSome
  | .driving _ .sandboxInterrupt => (p.cancels a).isSome
  | _ => true

/-- The steps of the helper session itself and of the calls in it. Uploads and
the owner of the session make calls too, none of them an `Exec`. -/
inductive Act
  | session (act : Session.Act)
  | begin (a : AgentId)
  | snapshot (a : AgentId)
  | cancel (a : AgentId) (id : UInt64)
  | helper (label : HelperSession.Label)

def others : HelperSession.Label → Bool
  | .draw op => !op.isExec
  | .abandon n => (p.caller n).isNone
  | _ => true

def next : Act → Option SandboxedRun
  | .session (.step a choice) =>
    if p.polled a then
      (Session.next ctx p.session (.step a { choice with answer := p.answer env a choice })).bind
        (p.settle env a)
    else none
  | .session (.drop a) => (Session.next ctx p.session (.drop a)).bind (p.settle env a)
  | .session act => (Session.next ctx p.session act).map fun session => { p with session := session }
  | .begin a => p.begin env a
  | .snapshot a => p.snapshot a
  | .cancel a id => p.cancel a id
  | .helper label =>
    if p.others label then
      (p.helper.next env.debug label).map fun helper => { p with helper := helper }
    else none

def start : SandboxedRun where
  session := Session.start
  helper := HelperSession.start
  tool := fun _ => none
  cancels := fun _ => none
  caller := fun _ => none

def machine : Machine SandboxedRun Act := ⟨fun p => p = start, next ctx env⟩

end SandboxedRun

end Silo.Harness
