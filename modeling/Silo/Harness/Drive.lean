import Silo.Harness.Record

namespace Silo.Harness

open Silo.Core

/-- The parts of the session context that stay fixed. `b64` is the base64
encoding of a text's bytes. -/
structure SessionCtx where
  backend : String
  frontendKind : String
  registry : ToolRegistry
  system : String
  maxTokens : Nat
  b64 : String → String

/-- The arguments of one `drive`. -/
structure Turn where
  agent : AgentId
  kind : AgentKind
  depth : Nat
  generation : Nat

inductive TurnOutcome
  | completed (finalText : String)
  | shutdownRequested
  | interrupted
  | llmFailed (message : String)
  | scriptFailed (message : String)
  deriving DecidableEq, Repr

inductive ToolDisposition
  | output (owner : String) (output : ToolOutput)
  | shutdown
  | interrupted
  | scriptFailed (message : String)
  deriving DecidableEq, Repr

inductive Checkpoint
  | shutdown
  | interrupted
  | clear
  deriving DecidableEq, Repr

inductive AbortReason
  | shutdown (message : Option String)
  | interrupted
  deriving DecidableEq, Repr

/-- Where `drive_inner` stands. In the tool loop, `results` are the blocks of
the calls already made, so that the current call is number `results.length`. -/
inductive Stage
  | top
  | asking
  | calling (response : CompletionResponse) (results : List ContentBlock)
  | running (response : CompletionResponse) (results : List ContentBlock)
  | ended (result : Except HarnessError TurnOutcome)

structure Drive where
  messages : List Message
  stage : Stage

/-- A piece of `drive_inner` between two of its stages, with what it records. -/
abbrev Advance := Drive × List Record

namespace Drive

variable (ctx : SessionCtx) (turn : Turn) (d : Drive)

def stop (outcome : TurnOutcome) (records : List Record) : Advance :=
  ({ d with stage := .ended (.ok outcome) }, records)

def request : CompletionRequest :=
  ⟨ctx.system, d.messages, ctx.registry.defsFor turn.kind, ctx.maxTokens⟩

def lifecycle (message : String) : Record := .journal (.lifecycle message)

def endOfTurn (response : CompletionResponse) : Advance :=
  d.stop (.completed response.text)
    ((if response.stopReason = .maxTokens then
        [lifecycle (agentName turn.agent ++ ": response hit max_tokens; treated as end of turn")]
      else []) ++
     (if turn.kind = .topLevel then
        [.event (.turnComplete turn.agent response.stopReason)]
      else []))

def pushResults (results : List ContentBlock) : Drive :=
  { d with messages := d.messages ++ [⟨.user, results⟩] }

def cancelledResult (call : ToolCall) : ContentBlock := .toolResult call.id interruptedByUser true

/-- The tool calls that were not made get results of their own, so that the
conversation stays well-formed for the next request. -/
def cancelCalls (response : CompletionResponse) (results : List ContentBlock) : Advance :=
  let calls := response.toolCalls
  (d.pushResults (results ++ (calls.drop results.length).map cancelledResult)).stop .interrupted
    [lifecycle (agentName turn.agent ++ ": interrupt cancelled " ++
      toString (calls.length - results.length) ++ " tool call(s)")]

def nextCall (response : CompletionResponse) (results : List ContentBlock) : Advance :=
  if results.length < response.toolCalls.length then ({ d with stage := .calling response results }, [])
  else if response.stopReason = .toolUse then ({ d.pushResults results with stage := .top }, [])
  else (d.pushResults results).endOfTurn turn response

def atTop : Checkpoint → Advance
  | .shutdown => d.stop .shutdownRequested []
  | .interrupted => d.stop .interrupted []
  | .clear =>
    ({ d with stage := .asking },
      [.journal (.llmRequest turn.agent ctx.backend (d.request ctx turn))])

def aborted : AbortReason → Advance
  | .shutdown _ => d.stop .shutdownRequested []
  | .interrupted =>
    d.stop .interrupted [lifecycle (agentName turn.agent ++ ": llm call aborted by interrupt")]

def responded (response : CompletionResponse) : Advance :=
  let records := .journal (.llmResponse turn.agent ctx.backend response) ::
    (response.content.filterMap ContentBlock.asText).map
      (fun text => .event (.assistantText turn.agent text)) ++ [.event (.costReport ctx.backend)]
  let pushed := { d with messages := d.messages ++ [Message.assistant response.content] }
  let (after, more) :=
    if response.toolCalls.isEmpty then pushed.endOfTurn turn response
    else ({ pushed with stage := .calling response [] }, [])
  (after, records ++ more)

def completed : Except LlmError CompletionResponse → Advance
  | .ok response => d.responded ctx turn response
  | .error (.scriptMismatch detail) =>
    let message := (LlmError.scriptMismatch detail).display
    d.stop (.scriptFailed message)
      [lifecycle ("llm script mismatch for " ++ agentName turn.agent ++ ": " ++ message)]
  | .error error =>
    d.stop (.llmFailed error.display)
      [lifecycle ("llm request failed for " ++ agentName turn.agent ++ ": " ++ error.display),
        .event (.error ("llm:" ++ agentName turn.agent) error.display)]

def atCall (response : CompletionResponse) (results : List ContentBlock) (call : ToolCall) :
    Checkpoint → Advance
  | .shutdown => d.stop .shutdownRequested []
  | .interrupted => d.cancelCalls turn response results
  | .clear => ({ d with stage := .running response results }, [.event (.toolUse turn.agent call)])

def toolDone (response : CompletionResponse) (results : List ContentBlock) (call : ToolCall) :
    Except HarnessError ToolDisposition → Advance
  | .error error => ({ d with stage := .ended (.error error) }, [])
  | .ok .shutdown => d.stop .shutdownRequested []
  | .ok .interrupted => d.cancelCalls turn response results
  | .ok (.scriptFailed message) => d.stop (.scriptFailed message) []
  | .ok (.output owner output) =>
    let (after, more) :=
      d.nextCall turn response (results ++ [.toolResult call.id output.content output.isError])
    (after, .journal (.toolExec turn.agent owner call output) ::
      .event (.toolResult turn.agent call.id call.name output) :: more)

end Drive

/-- What the rest of the session answers at each stage of `drive_inner`. -/
inductive Reply
  | checkpoint (found : Checkpoint)
  | abort (reason : AbortReason)
  | completion (result : Except LlmError CompletionResponse)
  | disposition (result : Except HarnessError ToolDisposition)

def Drive.advance (ctx : SessionCtx) (turn : Turn) (d : Drive) (reply : Reply) : Option Advance :=
  match d.stage, reply with
  | .top, .checkpoint found => some (d.atTop ctx turn found)
  | .asking, .abort reason => some (d.aborted turn reason)
  | .asking, .completion result => some (d.completed ctx turn result)
  | .calling response results, .checkpoint found =>
    (response.toolCalls[results.length]?).map fun call => d.atCall turn response results call found
  | .running response results, .disposition result =>
    (response.toolCalls[results.length]?).map fun call => d.toolDone turn response results call result
  | _, _ => none

def Drive.start (messages : List Message) : Drive := ⟨messages, .top⟩

end Silo.Harness
