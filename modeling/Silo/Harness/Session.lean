import Silo.Harness.Signal
import Silo.Harness.TopLevel

namespace Silo.Harness

open Silo.Core

def maxSubagentDepth : Nat := 3

def maxConcurrentSubagents : Nat := 8

structure ChildResult where
  output : String
  isError : Bool
  shutdown : Bool
  scriptFailure : Option String
  deriving DecidableEq, Repr

def childResultOf : Except HarnessError TurnOutcome → ChildResult
  | .ok (.completed finalText) => ⟨finalText, false, false, none⟩
  | .ok (.llmFailed message) => ⟨message, true, false, none⟩
  | .ok (.scriptFailed message) => ⟨message, true, false, some message⟩
  | .ok .interrupted => ⟨"interrupted by the user", true, false, none⟩
  | .ok .shutdownRequested => ⟨"session shutdown requested", true, true, none⟩
  | .error error => ⟨error.display, true, false, none⟩

/-- A child's join handle with its permit. The `emitted` flag it shares with
the task is kept with the task. -/
structure ChildHandle where
  id : AgentId
  name : Option String
  deriving DecidableEq, Repr

/-- `chan` is the pool's done channel and `doneRx` the channel whose receiving
half is parked in the pool. -/
structure ChildPool where
  children : List ChildHandle
  chan : Nat
  doneRx : Option Nat

/-- Where `execute_tool` stands. The steps before an acquisition of the child
registry's lock are named after what is done under it. -/
inductive ToolPc
  | idle
  | sandbox
  | sandboxInterrupt
  | sandboxDrain
  | read (path : String)
  | frontend (forwarded : ToolCall)
  | frontendInterrupt (forwarded : ToolCall)
  | frontendDrain (forwarded : ToolCall)
  | spawnEntry (child : ChildHandle) (prompt : String) (generation : Nat)
  | spawnInsert (child : ChildHandle)
  | awaitKnown (requested : String)
  | awaitHas
  | anyFinished
  | anyTakeRx
  | anyWait (chan : Nat)
  | anyPut (chan : Nat) (signalled : Option AgentId)
  | anyAbort (chan : Nat) (reason : AbortReason)
  | anyStill (child : AgentId)
  | collect (child : AgentId)
  | join (child : ChildHandle)
  | reinsert (child : ChildHandle) (reason : AbortReason)
  | done (result : Except HarnessError ToolDisposition)

/-- One call of `cancel_uncollected_children` past its lock: the children still
in the removed pool, and the one aborted and not yet joined. -/
structure Frame where
  owner : AgentId
  rest : List ChildHandle
  current : Option ChildHandle
  cancelled : Nat
  chan : Nat

/-- The recursion of `cancel_uncollected_children`: the call about to take the
lock, and the calls below it. -/
structure Walk where
  entering : Option AgentId
  frames : List Frame

/-- Where a task stands. `head`, `input`, `interrupting` and `over` are the top
level's; `returned` is the moment `drive` returns, and `finishing` the moment a
subagent has signalled its end and is not yet joinable. -/
inductive Phase
  | unborn
  | head
  | input
  | interrupting
  | over (result : Except HarnessError SessionEnd)
  | driving (stage : Stage) (tool : ToolPc)
  | cancelling (result : Except HarnessError TurnOutcome) (walk : Walk)
  | returned (result : Except HarnessError TurnOutcome)
  | finishing (result : ChildResult)
  | completed (result : ChildResult)
  | dropped

/-- The child handles that live in the task itself, outside the registry. -/
def Phase.held : Phase → List ChildHandle
  | .driving _ (.spawnInsert child) | .driving _ (.join child) | .driving _ (.reinsert child _) =>
    [child]
  | .cancelling _ walk => walk.frames.flatMap fun f => f.rest ++ f.current.toList
  | _ => []

/-- A task. `wait` is its wait on the signal; `suspended` says that its last
poll has returned, so that it is not in the middle of one. -/
structure Agent where
  parent : Option AgentId
  turn : Turn
  messages : List Message
  failures : Nat
  phase : Phase
  wait : Option Wait
  suspended : Bool
  aborted : Bool
  emitted : Bool
  doneTx : Nat

def Agent.finished (x : Agent) : Bool :=
  match x.phase with
  | .completed _ | .dropped => true
  | _ => false

def Agent.running (x : Agent) : Bool :=
  match x.phase with
  | .unborn | .completed _ | .dropped => false
  | _ => true

structure Session where
  signal : Signal AgentId
  agents : AgentId → Agent
  registry : AgentId → Option ChildPool
  chans : Nat → List AgentId
  nextChan : Nat
  counter : Nat
  permits : Nat
  log : List Record

inductive Answer
  | pending
  | completion (result : Except LlmError CompletionResponse)
  | sandbox (result : Except SandboxError ToolOutput)
  | sandboxInterrupt (error : Option SandboxError)
  | frontend (result : Except FrontendError ToolOutput)
  | frontendInterrupt (error : Option FrontendError)
  | input (result : Except FrontendError String)
  | joinError (display : String)

/-- The choices of one step of a task: the answer of the outside, the branch a
`select` takes when a command is ready too, and the child an iteration over a
pool comes to. -/
structure Choice where
  answer : Answer
  command : Bool
  pick : AgentId

namespace Session

variable (s : Session) (a : AgentId)

def setAgent (x : Agent) : Session := { s with agents := Function.update s.agents a x }

def setPool (pool : Option ChildPool) : Session :=
  { s with registry := Function.update s.registry a pool }

def record (records : List Record) : Session := { s with log := s.log ++ records }

def setSignal (sig : Signal AgentId) : Session :=
  { s with
    signal := sig
    log := s.log ++ (sig.applied.drop s.signal.applied.length).map
      fun command => .journal (.frontendCommand command) }

def goto (phase : Phase) : Session :=
  s.setAgent a { s.agents a with phase := phase, suspended := false }

def pend : Session := s.setAgent a { s.agents a with suspended := true }

/-- The poll of the wait in a `select`, which is started if it is new. -/
def pollWait (kind : WaitKind) (command : Bool) : Session × Option AbortReason :=
  let (sig, polled) :=
    match (s.agents a).wait with
    | none => s.signal.loop a kind
    | some w => s.signal.poll a w command
  match polled with
  | .ready reason => ((s.setSignal sig).setAgent a { s.agents a with wait := none }, some reason)
  | .pending w => ((s.setSignal sig).setAgent a { s.agents a with wait := some w }, none)

/-- The other branch of the `select` is ready: the wait is dropped. -/
def dropWait : Session :=
  { s with signal := s.signal.dropWait a }.setAgent a { s.agents a with wait := none }

end Session

end Silo.Harness
