import Silo.Frontend.Answers

namespace Silo.Frontend

open Silo.Lib Silo.Core Silo.Harness

/-- A call of `AskUserQuestion` that got an answer or an interrupt, with the positions in
the log of its `tool_use`, of its `question_asked` and of its `tool_result`, and the
length of the log when it returned. -/
structure Nested where
  agent : AgentId
  call : ToolCall
  question : Nat
  use : Nat
  asked : Nat
  returned : Nat
  output : ToolOutput
  result : Option Nat

def Nested.ends (seq : Nat) (x : Nested) : Nested := { x with result := some seq }

/-- Where an agent is with its tool calls: in an `emit` or past it; between `tool_use` and
`run_tool`; in a question; or between the end of a tool and its `tool_result`. -/
inductive AgentPhase
  | idle (emitted : Option Nat)
  | used (call : ToolCall) (use : Nat)
  | asking (call : ToolCall) (use n : Nat)
  | finishing (call : ToolCall) (output : ToolOutput) (nested : Option Nested)

/-- The agents over an interactive frontend. `done` are the calls whose result is out. -/
structure ToolCalls where
  front : State
  agents : AgentId → AgentPhase
  done : List Nested

/-- `front` are the steps of the other tasks and the other events of the agents. `run` is
`run_tool` up to its wait for an answer, or with the output it returns at once. -/
inductive ToolAct
  | front (act : Act)
  | use (agent : AgentId) (time : Timestamp) (call : ToolCall)
  | run (agent : AgentId) (time : Timestamp) (output : ToolOutput)
  | call (agent : AgentId) (act : CallAct)
  | result (agent : AgentId) (time : Timestamp)

/-- The steps of `run_tool` are the agents' own. -/
def ofAgent : Act → Bool
  | .runTool _ _ _ | .call _ _ => true
  | _ => false

namespace ToolCalls

variable (cfg : Config) (s : ToolCalls)

def goto (agent : AgentId) (phase : AgentPhase) : ToolCalls :=
  { s with agents := Function.update s.agents agent phase }

/-- Where the agent is after a step of its call `n`, which before was at `stage`. -/
def after (front : State) (agent : AgentId) (call : ToolCall) (use n : Nat) (stage : CallStage) : AgentPhase :=
  match (front.calls n).stage, stage with
  | .returned (.ok output), .waiting seq =>
    .finishing call output (some ⟨agent, call, n, use, seq, front.bus.nextSeq, output, none⟩)
  | .returned _, _ | .dropped, _ => .idle none
  | _, _ => .asking call use n

def next (s : ToolCalls) : ToolAct → Option ToolCalls
  | .front act =>
    if ofAgent act then none else (s.front.next cfg act).map fun front => { s with front := front }
  | .use agent time call =>
    match s.agents agent with
    | .idle emitted =>
      if emitted.any s.front.inFlight then none
      else
        (s.front.next cfg (.emit time (.toolUse agent call))).map fun front =>
          { s with front := front }.goto agent (.used call s.front.bus.nextSeq)
    | _ => none
  | .run agent time output =>
    match s.agents agent with
    | .used call use =>
      if s.front.inFlight use then none
      else
        (s.front.next cfg (.runTool agent call time)).map fun front =>
          { s with front := front }.goto agent
            (if front.asked = s.front.asked then .finishing call output none else .asking call use s.front.asked)
    | _ => none
  | .call agent act =>
    match s.agents agent with
    | .asking call use n =>
      (s.front.next cfg (.call n act)).map fun front =>
        { s with front := front }.goto agent (after front agent call use n (s.front.calls n).stage)
    | _ => none
  | .result agent time =>
    match s.agents agent with
    | .finishing call output nested =>
      (s.front.next cfg (.emit time (.toolResult agent call.id call.name output))).map fun front =>
        { s with
          front := front
          done := s.done ++ (nested.map (Nested.ends s.front.bus.nextSeq)).toList }.goto agent
            (.idle (some s.front.bus.nextSeq))
    | _ => none

def machine : Machine ToolCalls ToolAct :=
  ⟨fun s => (State.machine cfg).init s.front ∧ (∀ agent, s.agents agent = .idle none) ∧ s.done = [], next cfg⟩

/-- The calls that have got an answer or an interrupt. -/
def Returned (x : Nested) : Prop := x ∈ s.done ∨ ∃ agent call output, s.agents agent = .finishing call output (some x)

def logged (front : State) (i : Nat) (payload : EventPayload) : Prop :=
  ∃ time, front.bus.history[i]? = some ⟨i, time, payload⟩

/-- The four events of a call are in the log in their order, with the only
`question_answered` of the question before anything that follows the return. -/
structure Nests (x : Nested) : Prop where
  use : logged s.front x.use (.toolUse x.agent x.call)
  asked : ∃ question, cfg.parseQuestion x.call.input = .ok question ∧
    logged s.front x.asked (.questionAsked (cfg.ids x.question) x.agent question)
  answered : ∃ i clientId answer, logged s.front i (.questionAnswered (cfg.ids x.question) clientId answer) ∧
    x.asked < i ∧ i < x.returned ∧
    ∀ j clientId' answer', logged s.front j (.questionAnswered (cfg.ids x.question) clientId' answer') → j = i
  result : ∀ r, x.result = some r →
    logged s.front r (.toolResult x.agent x.call.id x.call.name x.output) ∧ x.returned ≤ r
  order : x.use < x.asked

def waits (front : State) (n : Nat) : Bool := !((front.calls n).stage matches .inserted)

/-- A question's sender is used only when its `question_asked` is in the log, and its call
takes what was sent only when its `question_answered` is. -/
def orderly (s : ToolCalls) : ToolAct → Bool
  | .front (.conn c .send) =>
    match (s.front.conns c).phase with
    | .answering _ _ n _ => waits s.front n
    | _ => true
  | .front (.interrupting i (.send k)) =>
    match s.front.interrupts i with
    | .sending pending => pending[k]?.all fun e => waits s.front e.2
    | _ => true
  | .call agent .poll =>
    match s.agents agent with
    | .asking _ _ n => !((s.front.calls n).slot matches .sent _) || !(s.front.answers (cfg.ids n)).isEmpty
    | _ => true
  | _ => true

end ToolCalls

end Silo.Frontend
