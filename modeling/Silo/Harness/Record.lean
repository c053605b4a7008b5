import Silo.Core.Conversation

namespace Silo.Harness

open Silo.Core

inductive LlmError
  | api (detail : String)
  | transport (detail : String)
  | config (detail : String)
  | quotaExceeded (detail : String)
  | malformed (detail : String)
  | scriptMismatch (detail : String)
  deriving DecidableEq, Repr

def LlmError.display : LlmError → String
  | .api detail => "llm api error: " ++ detail
  | .transport detail => "llm transport error: " ++ detail
  | .config detail => "llm configuration error: " ++ detail
  | .quotaExceeded detail => "llm quota exceeded: " ++ detail
  | .malformed detail => "llm response malformed: " ++ detail
  | .scriptMismatch detail => "llm script mismatch: " ++ detail

inductive SandboxError
  | unavailable (detail : String)
  | setup (detail : String)
  | helper (detail : String)
  | rejected (detail : String)
  | io (detail : String)
  | scriptMismatch (detail : String)
  deriving DecidableEq, Repr

def SandboxError.display : SandboxError → String
  | .unavailable detail => "sandbox unavailable: " ++ detail
  | .setup detail => "sandbox setup failed: " ++ detail
  | .helper detail => "sandbox helper error: " ++ detail
  | .rejected detail => "sandbox rejected request: " ++ detail
  | .io detail => "sandbox io error: " ++ detail
  | .scriptMismatch detail => "sandbox script mismatch: " ++ detail

inductive FrontendError
  | setup (detail : String)
  | auth (detail : String)
  | closed (detail : String)
  | io (detail : String)
  | scriptMismatch (detail : String)
  deriving DecidableEq, Repr

def FrontendError.display : FrontendError → String
  | .setup detail => "frontend setup failed: " ++ detail
  | .auth detail => "frontend authentication error: " ++ detail
  | .closed detail => "frontend closed: " ++ detail
  | .io detail => "frontend io error: " ++ detail
  | .scriptMismatch detail => "frontend script mismatch: " ++ detail

/-- The errors a conversation can end with. -/
inductive HarnessError
  | sandbox (error : SandboxError)
  | frontend (error : FrontendError)
  deriving DecidableEq, Repr

def HarnessError.display : HarnessError → String
  | .sandbox error => error.display
  | .frontend error => error.display

inductive FrontendCommand
  | shutdown (message : Option String)
  | interrupt
  deriving DecidableEq, Repr

def FrontendCommand.isInterrupt : FrontendCommand → Bool
  | .interrupt => true
  | .shutdown _ => false

inductive FileOrigin
  | client (clientId : String)
  | llm (agent : AgentId)
  deriving DecidableEq, Repr

inductive EventPayload
  | userPrompt (clientId clientName : Option String) (text : String)
  | assistantText (agent : AgentId) (text : String)
  | toolUse (agent : AgentId) (call : ToolCall)
  | toolResult (agent : AgentId) (toolUseId toolName : String) (output : ToolOutput)
  | agentSpawned (parent agent : AgentId) (name : Option String) (prompt : String)
  | agentCompleted (agent : AgentId) (result : String) (isError : Bool)
  | questionAsked (id : String) (agent : AgentId) (question : Json)
  | questionAnswered (id : String) (clientId : Option String) (answer : String)
  | fileShared (name contentB64 : String) (origin : FileOrigin)
  | costReport (backend : String)
  | turnComplete (agent : AgentId) (stopReason : StopReason)
  | interrupted (agent : AgentId)
  | awaitingInput
  | error (context message : String)
  | shutdown (message : Option String)

def interruptedAnswer : String := "[interrupted]"

inductive JournalEntry
  | llmRequest (agent : AgentId) (backend : String) (request : CompletionRequest)
  | llmResponse (agent : AgentId) (backend : String) (response : CompletionResponse)
  | toolExec (agent : AgentId) (owner : String) (call : ToolCall) (output : ToolOutput)
  | frontendCommand (command : FrontendCommand)
  | lifecycle (message : String)

/-- What the session leaves behind, in order: events on the bus and entries
of the journal. -/
inductive Record
  | event (payload : EventPayload)
  | journal (entry : JournalEntry)

def Record.request : Record → Option CompletionRequest
  | .journal (.llmRequest _ _ request) => some request
  | _ => none

end Silo.Harness
