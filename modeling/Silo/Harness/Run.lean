import Mathlib.Data.Finset.Basic
import Silo.Frontend.Tasks
import Silo.Harness.TopLevel

namespace Silo.Harness.Run

open Silo.Lib Silo.Core

/-- The errors of `run` past the workspace attach. -/
inductive RunError
  | llm (error : LlmError)
  | proxy (detail : String)
  | conversation (error : HarnessError)
  | other (message : String)
  deriving DecidableEq, Repr

def RunError.display : RunError → String
  | .llm error => error.display
  | .proxy detail => detail
  | .conversation error => error.display
  | .other message => message

def RunError.isScriptMismatch : RunError → Bool
  | .conversation (.frontend (.scriptMismatch _)) => true
  | _ => false

/-- The components that `run` starts and shuts down. -/
inductive Component
  | proxy
  | sandbox
  | frontend
  deriving DecidableEq, Repr

/-- The options that the teardown reads. A script is what it says of itself once the
session is over: whether all of it was consumed, and what is left. -/
structure RunOptions where
  script : Option (Bool × String)
  deterministic : Bool

structure HarnessOutcome where
  message : Option String
  llmFailure : Option String
  scriptFailure : Option String

/-- Why `finish` is called: a setup step failed, or the session ended. -/
inductive Ending
  | setup (error : RunError)
  | ended (result : SessionEnd)
  | failed (error : RunError)

def Ending.error : Ending → Option RunError
  | .setup error | .failed error => some error
  | .ended _ => none

/-- The arguments of a call of `finish` and its first error so far. The bus, the proxy
and the attachment are always among them. -/
structure Finish where
  ending : Ending
  frontend : Bool
  sandbox : Bool
  message : Option String
  firstError : Option RunError

/-- `get_or_insert`. -/
def Finish.note (f : Finish) : Except RunError Unit → Finish
  | .ok () => f
  | .error error => { f with firstError := f.firstError.or (some error) }

def Finish.takes (f : Finish) : Component → Bool
  | .proxy => true
  | .sandbox => f.sandbox
  | .frontend => f.frontend

/-- Where `run` stands: before each of its setup steps, in the session, before each step
of `finish`, and past its return. -/
inductive RunStage
  | startProxy
  | createSandbox
  | startSandbox
  | createFrontend
  | startFrontend
  | createBackend
  | session
  | announce (f : Finish)
  | close (c : Component) (f : Finish)
  | detach (f : Finish)
  | returned (f : Finish)

def RunStage.afterClose (f : Finish) : Component → RunStage
  | .frontend => .close .sandbox f
  | .sandbox => .close .proxy f
  | .proxy => .detach f

def scriptFailure (script : Bool × String) (result : SessionEnd) (finishMismatch : Bool) : Option String :=
  match result.scriptMismatch with
  | some detail => some (detail ++ "; remaining: " ++ script.2)
  | none =>
    if finishMismatch then some ("frontend shutdown step did not match; remaining: " ++ script.2)
    else if script.1 then none
    else some ("script entries left unconsumed; remaining: " ++ script.2)

/-- What `run` returns after `finish`. -/
def Finish.result (options : RunOptions) (f : Finish) : Except RunError HarnessOutcome :=
  match f.ending with
  | .setup error | .failed error => .error error
  | .ended result =>
    let mismatch := f.firstError.any RunError.isScriptMismatch
    let outcome : HarnessOutcome := ⟨result.message, result.llmFailure,
      options.script.bind fun script => scriptFailure script result mismatch⟩
    if options.script.isSome && mismatch then .ok outcome
    else
      match f.firstError with
      | some error => .error error
      | none => .ok outcome

/-- The tasks in the background of a call of `run`, those that serve one peer by its number. -/
inductive Background
  | signalListener
  | uploads
  /-- A task of the session that outlived it. -/
  | straggler
  | acceptLoop
  | costWatcher
  | writer (c : Nat)
  | pump (c : Nat)
  /-- A connection that was accepted when the frontend was shutting down. -/
  | late (n : Nat)
  | helperReader
  | helperWriter
  | forwarder
  | piped (n : Nat)
  | proxyLoop
  | dnsServer
  | exchange (n : Nat)
  /-- The driver of an exchange's connection upstream. -/
  | upstream (n : Nat)
  /-- The reader of a local model server's output. -/
  | serverLog
  deriving DecidableEq, Repr

/-- The tasks that a component's shutdown aborts. -/
def Component.tasks : Component → Finset Background
  | .proxy => {.proxyLoop, .dnsServer}
  | .sandbox => {.helperReader, .helperWriter, .forwarder}
  | .frontend => {.acceptLoop, .costWatcher}

/-- A call of `run`, the tasks of its frontend and the session's. `starts`, `shutdowns`
and `releases` count calls, `tasks` are those that have not ended and were not aborted,
`serving` is the frontend once it has started, and `connTasks` its connections to join. -/
structure RunState where
  stage : RunStage
  front : Frontend.State
  starts : Component → Nat
  shutdowns : Component → Nat
  releases : Nat
  tasks : Finset Background
  serving : Bool
  connTasks : List Nat
  failures : List RunError

/-- `operate` is the return of the call that `run` awaits at its stage. At the end of the
session the two flags tell whether a task still shares the component. `join` is the end of
the connection that the frontend's shutdown waits for, `abort` that of its patience. -/
inductive RunAct
  | operate (result : Except RunError Unit)
  | endSession (result : Except RunError SessionEnd) (sharedFrontend sharedSandbox : Bool) (time : Timestamp)
  | announce (time : Timestamp)
  | detach
  | front (act : Frontend.Act)
  | spawn (b : Background)
  | ends (b : Background)
  | join
  | abort

namespace RunState

variable (options : RunOptions) (s : RunState)

def begin (c : Component) : RunState := { s with starts := Function.update s.starts c (s.starts c + 1) }

def spawn (b : Background) : RunState := { s with tasks := insert b s.tasks }

def stop (tasks : Finset Background) : RunState := { s with tasks := s.tasks \ tasks }

def abandon (frontend sandbox : Bool) (error : RunError) : RunState :=
  { s with
    stage := .announce ⟨.setup error, frontend, sandbox, none, none⟩
    failures := s.failures ++ [error] }

def setup (frontend sandbox : Bool) (next : RunStage) : Except RunError Unit → RunState
  | .ok () => { s with stage := next }
  | .error error => s.abandon frontend sandbox error

/-- The frontend has signalled its tasks, aborted the two that it keeps, and joined its
connections. -/
def closable : Component → Bool
  | .frontend => !s.serving || (s.front.shutdown = .cleared && s.connTasks.isEmpty)
  | _ => true

/-- The shutdown of a component, if `finish` was given it. -/
def close (c : Component) (f : Finish) (result : Except RunError Unit) : Option RunState :=
  if f.takes c then
    if s.closable c then
      some { s.stop c.tasks with
        stage := .afterClose (f.note result) c
        shutdowns := Function.update s.shutdowns c (s.shutdowns c + 1)
        failures := s.failures ++ (match result with
          | .ok () => []
          | .error error => [error]) }
    else none
  else
    match result with
    | .ok () => some { s with stage := .afterClose f c }
    | .error _ => none

def operate (result : Except RunError Unit) : Option RunState :=
  match s.stage with
  | .startProxy => some ((s.begin .proxy).setup false false .createSandbox result)
  | .createSandbox => some (s.setup false false .startSandbox result)
  | .startSandbox =>
    match result with
    | .ok () =>
      some { s.begin .sandbox with
        stage := .createFrontend
        tasks := if options.deterministic then s.tasks else insert .signalListener s.tasks }
    | .error error => some (((s.begin .sandbox).stop Component.sandbox.tasks).abandon false true error)
  | .createFrontend => some (s.setup false true .startFrontend result)
  | .startFrontend =>
    match result with
    | .ok () =>
      some (({ s.begin .frontend with stage := .createBackend, serving := true }.spawn .costWatcher).spawn .acceptLoop)
    | .error error => some ((s.begin .frontend).abandon true true error)
  | .createBackend =>
    match result with
    | .ok () => some ({ s with stage := .session }.spawn .uploads)
    | .error error => some (s.abandon true true error)
  | .close c f => s.close c f result
  | _ => none

/-- The end of the session: its `select` drops the upload listener, the signal listener is
aborted, and `finish_shared` reclaims what nothing shares. -/
def endSession (result : Except RunError SessionEnd) (sharedFrontend sharedSandbox : Bool) (time : Timestamp) :
    RunState :=
  let tasks := s.tasks \ {.signalListener, .uploads}
  let s := { s with tasks := if sharedFrontend || sharedSandbox then insert Background.straggler tasks else tasks }
  match result with
  | .ok result =>
    let message := if result.llmFailure.isSome || result.scriptMismatch.isSome then none else result.message
    { s with stage := .announce ⟨.ended result, !sharedFrontend, !sharedSandbox, message, none⟩ }
  | .error error =>
    { s with
      stage := .announce ⟨.failed error, !sharedFrontend, !sharedSandbox, none, none⟩
      front := s.front.emit time (.error "harness" error.display)
      failures := s.failures ++ [error] }

def closing (message : Option String) : Bool :=
  match s.stage with
  | .close .frontend f => s.serving && f.frontend && f.message = message
  | _ => false

/-- The session's tasks run in the session or have outlived it. Only `finish` emits
`shutdown`. -/
def allows : Frontend.Act → Bool
  | .conn _ .accept => decide (.acceptLoop ∈ s.tasks)
  | .conn _ _ | .emitJournal _ | .emitBroadcast _ | .tick _ => true
  | .watchCost _ => decide (.costWatcher ∈ s.tasks)
  | .shutdown message => s.closing message
  | .clearQuestions => s.closing s.front.shutdownMessage
  | .emit _ (.shutdown _) => false
  | _ =>
    match s.stage with
    | .session => true
    | _ => .straggler ∈ s.tasks

/-- What a step of the frontend's tasks starts and ends. A connection starts its writer and
its pump when it has told the client its id, and ends the pump itself. -/
def follow (front : Frontend.State) : Frontend.Act → RunState
  | .conn c .accept => { s with front := front, connTasks := s.connTasks ++ [c] }
  | .conn c act =>
    let opened := if (act matches .announce _) then insert (.writer c) (insert (.pump c) s.tasks) else s.tasks
    { s with
      front := front
      tasks := if (front.conns c).phase = .closed then opened.erase (.pump c) else opened }
  | .clearQuestions => { s.stop Component.frontend.tasks with front := front }
  | _ => { s with front := front }

/-- Where a task is spawned: by a component that starts, or by one that serves peers. -/
def spawns : Background → Bool
  | .proxyLoop | .dnsServer => (s.stage matches .startProxy)
  | .helperReader | .helperWriter | .forwarder => (s.stage matches .startSandbox)
  | .serverLog => (s.stage matches .createBackend)
  | .exchange _ => .proxyLoop ∈ s.tasks ∨ .dnsServer ∈ s.tasks
  | .upstream n => .exchange n ∈ s.tasks
  | .piped _ => .forwarder ∈ s.tasks
  | .late _ => (s.stage matches .close .frontend _) && s.serving && s.front.down
  | _ => false

def joining : Option Nat :=
  match s.stage with
  | .close .frontend _ => if s.front.shutdown = .cleared then s.connTasks.head? else none
  | _ => none

def gone (c : Nat) : Bool := (s.front.conns c).phase = .closed && .writer c ∉ s.tasks

def next (cfg : Frontend.Config) (s : RunState) : RunAct → Option RunState
  | .operate result => s.operate options result
  | .endSession result sharedFrontend sharedSandbox time =>
    match s.stage with
    | .session => some (s.endSession result sharedFrontend sharedSandbox time)
    | _ => none
  | .announce time =>
    match s.stage with
    | .announce f => some { s with stage := .close .frontend f, front := s.front.emit time (.shutdown f.message) }
    | _ => none
  | .detach =>
    match s.stage with
    | .detach f => some { s with stage := .returned f, releases := s.releases + 1 }
    | _ => none
  | .front act => if s.allows act then (s.front.next cfg act).map fun front => s.follow front act else none
  | .spawn b => if s.spawns b then some (s.spawn b) else none
  | .ends b => some (s.stop {b})
  | .join => s.joining.bind fun c => if s.gone c then some { s with connTasks := s.connTasks.tail } else none
  | .abort =>
    -- the connection's writer and pump go on
    s.joining.map fun c => { s with connTasks := s.connTasks.tail, front := s.front.goto c .closed }

def start (front : Frontend.State) : RunState :=
  ⟨.startProxy, front, fun _ => 0, fun _ => 0, 0, ∅, false, [], []⟩

def machine (cfg : Frontend.Config) : Machine RunState RunAct :=
  ⟨fun s => ∃ front, (Frontend.State.machine cfg).init front ∧ s = start front, next options cfg⟩

end RunState

end Silo.Harness.Run
