import Silo.Lib.Machine
import Silo.Harness.SessionTools

namespace Silo.Harness

open Silo.Lib Silo.Core

namespace Session

variable (ctx : SessionCtx) (s : Session) (a : AgentId) (stage : Stage)

def currentCall : Stage → Option ToolCall
  | .calling response results | .running response results => response.toolCalls[results.length]?
  | _ => none

def drive : Drive := ⟨(s.agents a).messages, stage⟩

def turn : Turn := (s.agents a).turn

def checkpointStep : Option Session :=
  let (sig, found) := s.signal.checkpoint (s.turn a).generation
  let s' := s.setSignal sig
  ((s.drive a stage).advance ctx (s.turn a) (.checkpoint found)).map fun step =>
    match step.1.stage, currentCall step.1.stage with
    | .running _ _, some call => (s'.advance a step).startTool ctx a step.1.stage call
    | _, _ => s'.advance a step

def completionReady (choice : Choice) (s' : Session) : Session :=
  match choice.answer with
  | .completion result =>
    (s'.dropWait a).advance a ((s.drive a stage).completed ctx (s.turn a) result)
  | _ => s'.pend a

def driveStep (choice : Choice) (tool : ToolPc) : Option Session :=
  match stage with
  | .top | .calling _ _ => s.checkpointStep ctx a stage
  | .asking =>
    some (s.orAbort a (s.turnWait a) choice
      (fun s' reason => s'.advance a ((s.drive a stage).aborted (s.turn a) reason))
      (s.completionReady ctx a stage choice))
  | .running response results =>
    (currentCall stage).bind fun call =>
      match tool with
      | .done result =>
        some (s.advance a ((s.drive a stage).toolDone (s.turn a) response results call result))
      | tool => (s.outsideStep ctx a stage call choice tool).or (s.childStep a stage choice tool)
  | .ended _ => none

/-- `JoinHandle::abort`, which a finished task does not notice. -/
def abortTask : Session := s.setAgent a { s.agents a with aborted := true }

/-- A cancelled child has been joined. Its completion is announced unless its
own task did so. -/
def reap (result : Except HarnessError TurnOutcome) (child : ChildHandle) (f : Frame)
    (frames : List Frame) : Session :=
  let x := s.agents child.id
  let cancelled := if x.emitted then f.cancelled else f.cancelled + 1
  { s with permits := s.permits + 1 }.record
      (if x.emitted then []
        else [.event (.agentCompleted child.id "cancelled (parent ended turn without collecting)" true)])
    |>.setAgent child.id { x with emitted := true }
    |>.goto a (.cancelling result ⟨none, { f with current := none, cancelled := cancelled } :: frames⟩)

def cancelStep (choice : Choice) (result : Except HarnessError TurnOutcome) (walk : Walk) :
    Option Session :=
  match walk.entering, walk.frames with
  | some e, frames =>
    match s.registry e with
    | none => some (s.goto a (.cancelling result ⟨none, frames⟩))
    | some pool =>
      some ((s.setPool e none).goto a
        (.cancelling result ⟨none, ⟨e, pool.children, none, 0, pool.chan⟩ :: frames⟩))
  | none, [] => some (s.goto a (.returned result))
  | none, f :: frames =>
    match f.current with
    | some child =>
      if (s.agents child.id).finished then some (s.reap a result child f frames) else some (s.pend a)
    | none =>
      if f.rest.isEmpty then
        some ((s.record (if 0 < f.cancelled then
            [.journal (.lifecycle (agentName f.owner ++ ": cancelled " ++ toString f.cancelled ++
              " uncollected subagent(s)"))]
          else [])).goto a (.cancelling result ⟨none, frames⟩))
      else
        (f.rest.find? fun c => c.id = choice.pick).map fun child =>
          (s.abortTask child.id).goto a (.cancelling result
            ⟨some child.id,
              { f with rest := f.rest.filter fun c => c.id ≠ child.id, current := some child } :: frames⟩)

/-- The end of a subagent's task, after its `drive`: the completion is announced
unless the parent did so, and the done channel told. -/
def completeStep (result : Except HarnessError TurnOutcome) : Session :=
  let x := s.agents a
  let child := childResultOf result
  { s with chans := Function.update s.chans x.doneTx (s.chans x.doneTx ++ [a]) }.record
      (if x.emitted then [] else [.event (.agentCompleted a child.output child.isError)])
    |>.setAgent a { x with phase := .finishing child, emitted := true, suspended := false }

def topLevel : TopLevel := ⟨(s.agents a).messages, (s.agents a).failures, .head⟩

def follow (step : TopLevel × List Record) : Session :=
  let x := s.agents a
  let (turn, phase) :=
    match step.1.stage with
    | .head => (x.turn, Phase.head)
    | .input => (x.turn, .input)
    | .driving turn stage => (turn, .driving stage .idle)
    | .interrupting => (x.turn, .interrupting)
    | .over result => (x.turn, .over result)
  (s.record step.2).setAgent a { x with
    messages := step.1.messages, failures := step.1.failures, turn := turn, phase := phase,
    suspended := false }

def inputReady (choice : Choice) (s' : Session) : Session :=
  let freed := s'.dropWait a
  match choice.answer with
  | .input (.ok text) =>
    let sig := freed.signal.check.1
    (freed.setSignal sig).follow a
      ((freed.topLevel a).prompted ctx text sig.interruptGeneration freed.signal.check.2)
  | .input (.error error) => freed.follow a ((freed.topLevel a).inputFailed error)
  | _ => s'.pend a

/-- `wait` ends with a shutdown only. -/
def idleEnds (s' : Session) : AbortReason → Session
  | .shutdown message => s'.follow a ((s'.topLevel a).finish (.normal message) [])
  | .interrupted => s'.pend a

def returnStep (result : Except HarnessError TurnOutcome) : Session :=
  match (s.agents a).parent, result with
  | some _, _ => s.completeStep a result
  | none, .ok .shutdownRequested =>
    (s.setSignal s.signal.check.1).follow a
      ((s.topLevel a).turnEnded ctx s.signal.check.2 (.ok .shutdownRequested))
  | none, result => s.follow a ((s.topLevel a).turnEnded ctx none result)

def step (choice : Choice) : Option Session :=
  match (s.agents a).phase with
  | .head =>
    some ((s.setSignal s.signal.check.1).follow a ((s.topLevel a).atHead s.signal.check.2))
  | .input => some (s.orAbort a .shutdown choice (idleEnds a) (inputReady ctx a choice))
  | .interrupting =>
    match choice.answer with
    | .frontendInterrupt error => some (s.follow a ((s.topLevel a).interruptDone error))
    | _ => some (s.pend a)
  | .driving stage tool => s.driveStep ctx a stage choice tool
  | .cancelling result walk => s.cancelStep a choice result walk
  | .returned result => some (s.returnStep ctx a result)
  | .finishing result => some (s.goto a (.completed result))
  | .unborn | .over _ | .completed _ | .dropped => none

/-- An aborted task is dropped where it is suspended: its wait ends, and the
handles it holds go with it, which detaches their tasks. -/
def dropTask : Session :=
  let x := s.agents a
  { s with
    signal := s.signal.dropWait a
    permits := s.permits + x.phase.held.length }.setAgent a
      { x with phase := .dropped, wait := none }

end Session

namespace Session

inductive Act
  | send (command : FrontendCommand)
  | hangUp
  | request (message : Option String)
  | step (a : AgentId) (choice : Choice)
  | drop (a : AgentId)

def next (ctx : SessionCtx) (s : Session) : Act → Option Session
  | .send command => if s.signal.senders then some { s with signal := s.signal.send command } else none
  | .hangUp => some { s with signal := { s.signal with senders := false } }
  | .request message => some { s with signal := s.signal.request message }
  | .step a choice =>
    let x := s.agents a
    if x.aborted && x.suspended then none else s.step ctx a choice
  | .drop a =>
    let x := s.agents a
    if x.aborted && x.suspended && x.running then some (s.dropTask a) else none

def unbornAgent : Agent :=
  { parent := none, turn := ⟨0, .subagent, 0, 0⟩, messages := [], failures := 0, phase := .unborn,
    wait := none, suspended := true, aborted := false, emitted := false, doneTx := 0 }

def start : Session :=
  { signal := .new
    agents := Function.update (fun _ => unbornAgent) topLevelAgentId
      { unbornAgent with turn := TopLevel.turn 0, phase := .head }
    registry := fun _ => none
    chans := fun _ => []
    nextChan := 0
    counter := 1
    permits := maxConcurrentSubagents
    log := [] }

def machine (ctx : SessionCtx) : Machine Session Act := ⟨fun s => s = start, next ctx⟩

end Session

end Silo.Harness
