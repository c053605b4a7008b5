import Mathlib.Data.List.Basic

namespace Silo.Core

/-- The three number forms of `serde_json`, a float by its bits. -/
inductive Number
  | posInt (n : UInt64)
  | negInt (n : Int64)
  | float (bits : UInt64)
  deriving DecidableEq, Repr

inductive Json
  | null
  | bool (value : Bool)
  | number (value : Number)
  | string (value : String)
  | array (items : List Json)
  | object (fields : List (String × Json))

def Json.get : Json → String → Option Json
  | .object fields, key => (fields.find? fun f => f.1 = key).map Prod.snd
  | _, _ => none

def Json.asStr : Json → Option String
  | .string value => some value
  | _ => none

def Json.insert : Json → String → Json → Json
  | .object fields, key, value => .object (fields.filter (fun f => f.1 ≠ key) ++ [(key, value)])
  | json, _, _ => json

/-- The `n` of the agent id `agent-n`. -/
abbrev AgentId := Nat

def agentName (agent : AgentId) : String := "agent-" ++ toString agent

def topLevelAgentId : AgentId := 0

inductive AgentKind
  | topLevel
  | subagent
  deriving DecidableEq, Repr

inductive Role
  | user
  | assistant
  deriving DecidableEq, Repr

inductive ContentBlock
  | text (text : String)
  | toolUse (id name : String) (input : Json)
  | toolResult (toolUseId content : String) (isError : Bool)

structure Message where
  role : Role
  content : List ContentBlock

namespace Message

def userText (text : String) : Message := ⟨.user, [.text text]⟩

def assistant (content : List ContentBlock) : Message := ⟨.assistant, content⟩

end Message

inductive StopReason
  | endTurn
  | toolUse
  | maxTokens
  | other (reason : String)
  deriving DecidableEq, Repr

inductive ToolAvailability
  | topLevelOnly
  | subagentOnly
  | both
  deriving DecidableEq, Repr

def ToolAvailability.availableTo : ToolAvailability → AgentKind → Bool
  | .both, _ | .topLevelOnly, .topLevel | .subagentOnly, .subagent => true
  | _, _ => false

structure ToolDef where
  name : String
  description : String
  inputSchema : Json
  availability : ToolAvailability

structure ToolCall where
  id : String
  name : String
  input : Json

def interruptedByUser : String := "[interrupted by the user]"

structure ToolOutput where
  content : String
  isError : Bool
  deriving DecidableEq, Repr

def ToolOutput.ok (content : String) : ToolOutput := ⟨content, false⟩

def ToolOutput.error (content : String) : ToolOutput := ⟨content, true⟩

inductive ToolOwner
  | sandbox
  | frontend
  | harness
  deriving DecidableEq, Repr

structure RegisteredTool where
  tool : ToolDef
  owner : ToolOwner

abbrev ToolRegistry := List RegisteredTool

namespace ToolRegistry

def defsFor (registry : ToolRegistry) (kind : AgentKind) : List ToolDef :=
  (registry.filter fun e => e.tool.availability.availableTo kind).map RegisteredTool.tool

def ownerOf (registry : ToolRegistry) (name : String) : Option ToolOwner :=
  (registry.find? fun e => e.tool.name = name).map RegisteredTool.owner

end ToolRegistry

structure CompletionRequest where
  system : String
  messages : List Message
  tools : List ToolDef
  maxTokens : Nat

structure TokenDelta where
  inputTokens : Nat
  outputTokens : Nat
  deriving DecidableEq, Repr

structure CompletionResponse where
  content : List ContentBlock
  stopReason : StopReason
  usage : TokenDelta

def ContentBlock.asText : ContentBlock → Option String
  | .text t => some t
  | _ => none

def ContentBlock.asToolCall : ContentBlock → Option ToolCall
  | .toolUse id name input => some ⟨id, name, input⟩
  | _ => none

def ContentBlock.resultOf : ContentBlock → Option String
  | .toolResult toolUseId _ _ => some toolUseId
  | _ => none

namespace CompletionResponse

def text (response : CompletionResponse) : String :=
  "\n".intercalate (response.content.filterMap ContentBlock.asText)

def toolCalls (response : CompletionResponse) : List ToolCall :=
  response.content.filterMap ContentBlock.asToolCall

end CompletionResponse

def Message.toolUseIds (m : Message) : List String :=
  (m.content.filterMap ContentBlock.asToolCall).map ToolCall.id

/-- The message opens with one result for each of `ids`, in that order, and
goes on with text only. -/
def Message.Answers (m : Message) (ids : List String) : Prop :=
  ∃ results texts : List ContentBlock, m.content = results ++ texts ∧
    results.map ContentBlock.resultOf = ids.map some ∧ ∀ b ∈ texts, (ContentBlock.asText b).isSome

def Role.at (i : Nat) : Role := if i % 2 = 0 then .user else .assistant

/-- What strict backends ask of a request's messages: they start and end with
the user, alternate strictly, and answer every tool use in the next message. -/
structure WellFormed (messages : List Message) : Prop where
  alternates : ∀ i m, messages[i]? = some m → m.role = Role.at i
  endsWithUser : (messages.getLast?.map Message.role) = some .user
  answered : ∀ i m, messages[i]? = some m → m.role = .assistant → m.toolUseIds ≠ [] →
    ∃ n, messages[i + 1]? = some n ∧ n.role = .user ∧ n.Answers m.toolUseIds

end Silo.Core
