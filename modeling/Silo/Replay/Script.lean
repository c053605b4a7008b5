import Silo.Core.Json
import Silo.Harness.SessionTools

namespace Silo.Replay

open Silo.Core Silo.Harness

structure ScriptedLlmTurn where
  expectUserContains : Option String
  response : CompletionResponse

structure ScriptedToolExec where
  expectName : String
  expectInput : Option Json
  output : ToolOutput

inductive FrontendStep
  | sendPrompt (text : String)
  | expectEvent (kind : String) (contains : Option String)
  | answerQuestion (contains : Option String) (answer : String)
  | uploadFile (name contentB64 : String)
  | interrupt
  | expectShutdown (messageContains : Option String)
  deriving DecidableEq, Repr

structure TestScript where
  name : String
  llm : List ScriptedLlmTurn
  tools : List ScriptedToolExec
  frontend : List FrontendStep

/-- A script in use, with one flag for each model turn and each tool execution
that has been consumed. -/
structure SharedScript where
  script : TestScript
  llmConsumed : List Bool
  toolConsumed : List Bool
  frontendCursor : Nat

def contains (text needle : String) : Bool :=
  text.toList.tails.any fun rest => needle.toList.isPrefixOf rest

/-- `{:?}` of a list of strings. -/
def debugList (items : List String) : String := "[" ++ ", ".intercalate (items.map debugString) ++ "]"

def messageText (m : Message) : String := "\n".intercalate (m.content.filterMap ContentBlock.asText)

namespace SharedScript

def new (script : TestScript) : SharedScript :=
  ⟨script, script.llm.map fun _ => false, script.tools.map fun _ => false, 0⟩

variable (st : SharedScript)

/-- The index of the first entry that is not consumed and meets `p`. -/
def firstOpen {α : Type} (p : α → Bool) : List α → List Bool → Option Nat
  | entry :: entries, consumed :: rest =>
    if !consumed && p entry then some 0 else (firstOpen p entries rest).map (· + 1)
  | _, _ => none

def openEntries {α : Type} : List α → List Bool → List α
  | entry :: entries, consumed :: rest =>
    if consumed then openEntries entries rest else entry :: openEntries entries rest
  | _, _ => []

def lastUserText (request : CompletionRequest) : String :=
  ((request.messages.reverse.find? fun m => m.role = .user).map messageText).getD ""

def nextLlm (request : CompletionRequest) : Except LlmError (CompletionResponse × SharedScript) :=
  if st.llmConsumed.all id then .error (.scriptMismatch "llm script exhausted")
  else
    let text := lastUserText request
    let chosen := (firstOpen (fun turn : ScriptedLlmTurn => turn.expectUserContains.any fun needle => contains text needle)
      st.script.llm st.llmConsumed).orElse fun _ =>
        (firstOpen (fun _ => true) st.script.llm st.llmConsumed).filter fun i =>
          (st.script.llm[i]?).any fun turn => turn.expectUserContains.isNone
    match chosen.bind fun i => (st.script.llm[i]?).map fun turn => (i, turn) with
    | some (i, turn) => .ok (turn.response, { st with llmConsumed := st.llmConsumed.set i true })
    | none => .error (.scriptMismatch ("no unconsumed llm turn matches the request; expected one of " ++
        debugList ((openEntries st.script.llm st.llmConsumed).filterMap ScriptedLlmTurn.expectUserContains) ++
        ", got " ++ debugString text))

def fits (call : ToolCall) (scripted : ScriptedToolExec) : Bool :=
  decide (scripted.expectName = call.name) &&
    scripted.expectInput.all fun expected => expected.subsetMatches call.input

/-- `display` writes a value as JSON text. -/
def nextTool (display : Json → String) (call : ToolCall) : Except SandboxError (ToolOutput × SharedScript) :=
  if st.toolConsumed.all id then .error (.scriptMismatch "tool script exhausted")
  else
    match (firstOpen (fits call) st.script.tools st.toolConsumed).bind fun i =>
        (st.script.tools[i]?).map fun scripted => (i, scripted) with
    | some (i, scripted) => .ok (scripted.output, { st with toolConsumed := st.toolConsumed.set i true })
    | none => .error (.scriptMismatch ("no unconsumed tool exec matches " ++ debugString call.name ++
        " with input " ++ display call.input ++ "; expected one of " ++
        debugList ((openEntries st.script.tools st.toolConsumed).map ScriptedToolExec.expectName)))

def peekFrontend : Option FrontendStep := st.script.frontend[st.frontendCursor]?

def nextFrontend : Option FrontendStep × SharedScript :=
  match st.peekFrontend with
  | some step => (some step, { st with frontendCursor := st.frontendCursor + 1 })
  | none => (none, st)

def finished : Bool :=
  st.llmConsumed.all id && st.toolConsumed.all id && decide (st.script.frontend.length ≤ st.frontendCursor)

end SharedScript

/-- What one record of a journal adds to the script made from it. -/
def TestScript.push (script : TestScript) : Record → TestScript
  | .journal (.llmResponse _ _ response) => { script with llm := script.llm ++ [⟨none, response⟩] }
  | .journal (.toolExec _ owner call output) =>
    if owner = "sandbox" then
      { script with tools := script.tools ++ [⟨call.name, some call.input, output⟩] }
    else script
  | .event (.userPrompt _ _ text) => { script with frontend := script.frontend ++ [.sendPrompt text] }
  | .event (.questionAnswered _ clientId answer) =>
    if clientId.isSome || decide (answer ≠ interruptedAnswer) then
      { script with frontend := script.frontend ++ [.answerQuestion none answer] }
    else script
  | .event (.fileShared name contentB64 (.client _)) =>
    { script with frontend := script.frontend ++ [.uploadFile name contentB64] }
  | .event (.shutdown message) => { script with frontend := script.frontend ++ [.expectShutdown message] }
  | .journal (.frontendCommand .interrupt) => { script with frontend := script.frontend ++ [.interrupt] }
  | _ => script

def scriptFromJournal (records : List Record) (name : String) : TestScript :=
  records.foldl TestScript.push ⟨name, [], [], []⟩

end Silo.Replay
