import Silo.Harness.Drive

namespace Silo.Harness

open Silo.Core

structure SessionEnd where
  message : Option String
  llmFailure : Option String
  scriptMismatch : Option String
  deriving DecidableEq, Repr

def SessionEnd.normal (message : Option String) : SessionEnd := ⟨message, none, none⟩

def maxConsecutiveLlmFailures : Nat := 8

/-- A prompt goes into the last message when that is the user's, so that no
two user messages stand side by side. -/
def pushUserPrompt (messages : List Message) (text : String) : List Message :=
  match messages.getLast? with
  | some ⟨.user, content⟩ => messages.dropLast ++ [⟨.user, content ++ [.text text]⟩]
  | _ => messages ++ [.userText text]

/-- Where `top_level_loop` stands: before its first check, waiting for input,
in a turn, in `frontend.interrupt()` after one, or returned. -/
inductive LoopStage
  | head
  | input
  | driving (turn : Turn) (stage : Stage)
  | interrupting
  | over (result : Except HarnessError SessionEnd)

structure TopLevel where
  messages : List Message
  failures : Nat
  stage : LoopStage

namespace TopLevel

variable (ctx : SessionCtx) (t : TopLevel)

def start : TopLevel := ⟨[], 0, .head⟩

def finish (result : SessionEnd) (records : List Record) : TopLevel × List Record :=
  ({ t with stage := .over (.ok result) }, records)

def atHead : Option (Option String) → TopLevel × List Record
  | some message => t.finish (.normal message) []
  | none => ({ t with stage := .input }, [.event .awaitingInput])

def turn (generation : Nat) : Turn := ⟨topLevelAgentId, .topLevel, 0, generation⟩

def prompted (text : String) (generation : Nat) : Option (Option String) → TopLevel × List Record
  | some message => t.finish (.normal message) []
  | none =>
    ({ t with messages := pushUserPrompt t.messages text, stage := .driving (turn generation) .top },
      if ctx.frontendKind = "interactive" then [] else [.event (.userPrompt none none text)])

def inputFailed : FrontendError → TopLevel × List Record
  | .scriptMismatch detail =>
    t.finish (.normal (some "frontend script exhausted"))
      [.journal (.lifecycle ("frontend script exhausted: " ++ detail))]
  | error =>
    ({ t with stage := .over (.error (.frontend error)) },
      [.event (.error "frontend input" error.display)])

/-- `check` is the answer of the `shutdown.check()` made when the turn ended
with a shutdown. -/
def turnEnded (check : Option (Option String)) :
    Except HarnessError TurnOutcome → TopLevel × List Record
  | .error error => ({ t with stage := .over (.error error) }, [])
  | .ok (.completed _) => ({ t with failures := 0, stage := .head }, [])
  | .ok .interrupted => ({ t with stage := .interrupting }, [])
  | .ok (.llmFailed message) =>
    let failures := t.failures + 1
    if ctx.frontendKind = "headless" ∨ maxConsecutiveLlmFailures ≤ failures then
      { t with failures := failures }.finish ⟨some message, some message, none⟩
        [.journal (.lifecycle ("session ended after " ++ toString failures ++
          " consecutive LLM failure(s): " ++ message))]
    else ({ t with failures := failures, stage := .head }, [])
  | .ok (.scriptFailed message) =>
    t.finish ⟨none, none, some message⟩
      [.journal (.lifecycle ("session ended by a script mismatch: " ++ message))]
  | .ok .shutdownRequested => t.finish (.normal (check.getD none)) []

def interruptDone (error : Option FrontendError) : TopLevel × List Record :=
  ({ t with failures := 0, stage := .head },
    (error.toList.map fun e => .event (.error "frontend interrupt" e.display)) ++
      [.event (.interrupted topLevelAgentId)])

end TopLevel

end Silo.Harness
