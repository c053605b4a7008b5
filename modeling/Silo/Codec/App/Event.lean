import Silo.Codec.Dynamic

namespace Silo.Codec.App

open Dyn Fields

variable {α : Type}

/-- `fromJson` of each element of a list of maps. -/
def eachMap (fromJson : Fields → Option α) (items : List Dyn) : Option (List α) :=
  items.mapM fun item => item.asMap.bind fromJson

def ifSome (key : String) : Option Dyn → Fields
  | some value => [(key, value)]
  | none => []

structure Timestamp where
  logical : Int64
  wallMs : Option Int64

namespace Timestamp

def fromJson (json : Fields) : Option Timestamp := do
  let logical ← (json.get "logical").asInt
  let wallMs ← orNull asInt (json.get "wall_ms")
  return { logical, wallMs }

def toJson (time : Timestamp) : Fields :=
  [("logical", .int time.logical)] ++ ifSome "wall_ms" (time.wallMs.map .int)

end Timestamp

structure ToolCall where
  id : String
  name : String
  input : Dyn

namespace ToolCall

def fromJson (json : Fields) : Option ToolCall := do
  let id ← (json.get "id").asString
  let name ← (json.get "name").asString
  return { id, name, input := json.get "input" }

def toJson (call : ToolCall) : Fields :=
  [("id", .string call.id), ("name", .string call.name), ("input", call.input)]

end ToolCall

structure ToolOutput where
  content : String
  isError : Bool

namespace ToolOutput

def fromJson (json : Fields) : Option ToolOutput := do
  let content ← (json.get "content").asString
  let isError ← (json.get "is_error").asBool
  return { content, isError }

def toJson (output : ToolOutput) : Fields :=
  [("content", .string output.content), ("is_error", .bool output.isError)]

end ToolOutput

structure StopReason where
  kind : String
  other : Option String

namespace StopReason

def endTurn : StopReason := ⟨"end_turn", none⟩

def toolUse : StopReason := ⟨"tool_use", none⟩

def maxTokens : StopReason := ⟨"max_tokens", none⟩

def ofOther (detail : String) : StopReason := ⟨"other", some detail⟩

def fromJson : Dyn → Option StopReason
  | .string "end_turn" => some endTurn
  | .string "tool_use" => some toolUse
  | .string "max_tokens" => some maxTokens
  | .map fields => (Fields.get fields "other").asString.map ofOther
  | _ => none

def toJson (reason : StopReason) : Dyn :=
  match reason.other with
  | none => .string reason.kind
  | some detail => .map [("other", .string detail)]

end StopReason

structure UsageSnapshot where
  inputTokens : Int64
  outputTokens : Int64
  usd : UInt64

namespace UsageSnapshot

def fromJson (json : Fields) : Option UsageSnapshot := do
  let inputTokens ← (json.get "input_tokens").asInt
  let outputTokens ← (json.get "output_tokens").asInt
  let usd ← (json.get "usd").toDouble
  return { inputTokens, outputTokens, usd }

def toJson (usage : UsageSnapshot) : Fields :=
  [("input_tokens", .int usage.inputTokens), ("output_tokens", .int usage.outputTokens),
    ("usd", .double usage.usd)]

end UsageSnapshot

structure QuotaConfig where
  maxTotalTokens : Option Int64
  maxUsd : Option UInt64

namespace QuotaConfig

def fromJson (json : Fields) : Option QuotaConfig := do
  let maxTotalTokens ← orNull asInt (json.get "max_total_tokens")
  let maxUsd ← orNull toDouble (json.get "max_usd")
  return { maxTotalTokens, maxUsd }

def toJson (quota : QuotaConfig) : Fields :=
  ifSome "max_total_tokens" (quota.maxTotalTokens.map .int) ++ ifSome "max_usd" (quota.maxUsd.map .double)

end QuotaConfig

/-- The lists are `cast` views, which check an element when it is read. -/
structure AccessReport where
  sandboxKind : String
  workspaceMount : String
  scratchDir : String
  readablePaths : List Dyn
  allowedDomains : List Dyn
  credentialDomains : List Dyn
  notes : List Dyn

namespace AccessReport

def stringList (value : Dyn) : Option (List Dyn) := (orNull asList value).map (·.getD [])

def fromJson (json : Fields) : Option AccessReport := do
  let sandboxKind ← (json.get "sandbox_kind").asString
  let workspaceMount ← (json.get "workspace_mount").asString
  let scratchDir ← (json.get "scratch_dir").asString
  let readablePaths ← stringList (json.get "readable_paths")
  let allowedDomains ← stringList (json.get "allowed_domains")
  let credentialDomains ← stringList (json.get "credential_domains")
  let notes ← stringList (json.get "notes")
  return { sandboxKind, workspaceMount, scratchDir, readablePaths, allowedDomains, credentialDomains, notes }

def toJson (report : AccessReport) : Fields :=
  [("sandbox_kind", .string report.sandboxKind), ("workspace_mount", .string report.workspaceMount),
    ("scratch_dir", .string report.scratchDir), ("readable_paths", .list report.readablePaths),
    ("allowed_domains", .list report.allowedDomains),
    ("credential_domains", .list report.credentialDomains), ("notes", .list report.notes)]

end AccessReport

structure QuestionOption where
  label : String
  description : String

namespace QuestionOption

def fromJson (json : Fields) : Option QuestionOption := do
  let label ← (json.get "label").asString
  let description ← orNull asString (json.get "description")
  return { label, description := description.getD "" }

def toJson (choice : QuestionOption) : Fields :=
  [("label", .string choice.label), ("description", .string choice.description)]

end QuestionOption

structure UserQuestion where
  question : String
  options : List QuestionOption
  multiSelect : Bool
  allowFreeText : Bool

namespace UserQuestion

def fromJson (json : Fields) : Option UserQuestion := do
  let question ← (json.get "question").asString
  let choices ← orNull asList (json.get "options")
  let options ← eachMap QuestionOption.fromJson (choices.getD [])
  let multiSelect ← orNull asBool (json.get "multi_select")
  let allowFreeText ← orNull asBool (json.get "allow_free_text")
  return { question, options, multiSelect := multiSelect.getD false, allowFreeText := allowFreeText.getD false }

def toJson (question : UserQuestion) : Fields :=
  [("question", .string question.question),
    ("options", .list (question.options.map fun choice => .map choice.toJson)),
    ("multi_select", .bool question.multiSelect), ("allow_free_text", .bool question.allowFreeText)]

end UserQuestion

inductive FileOrigin
  | client (clientId : String)
  | llm (agent : String)

namespace FileOrigin

def fromJson (json : Fields) : Option FileOrigin := do
  match ← orNull asString (json.get "origin") with
  | some "client" => return .client (← (json.get "client_id").asString)
  | some "llm" => return .llm (← (json.get "agent").asString)
  | _ => none

def toJson : FileOrigin → Fields
  | .client clientId => [("origin", .string "client"), ("client_id", .string clientId)]
  | .llm agent => [("origin", .string "llm"), ("agent", .string agent)]

end FileOrigin

/-- A payload of a kind that this client does not know keeps its `raw` fields. -/
inductive EventPayload
  | harnessStarted (harnessId workspace sandbox llm : String)
  | userPrompt (clientId clientName : Option String) (text : String)
  | assistantText (agent text : String)
  | toolUse (agent : String) (call : ToolCall)
  | toolResult (agent toolUseId toolName : String) (output : ToolOutput)
  | agentSpawned (parent agent : String) (name : Option String) (prompt : String)
  | agentCompleted (agent result : String) (isError : Bool)
  | questionAsked (id agent : String) (question : UserQuestion)
  | questionAnswered (id : String) (clientId : Option String) (answer : String)
  | fileShared (name contentB64 : String) (origin : FileOrigin)
  | costReport (backend : String) (usage : UsageSnapshot) (quota : QuotaConfig)
  | turnComplete (agent : String) (stopReason : StopReason)
  | awaitingInput
  | interrupted (agent : String)
  | accessReportUpdated (report : AccessReport)
  | error (context message : String)
  | shutdown (message : Option String)
  | unknown (raw : Fields)

namespace EventPayload

def fromJson (json : Fields) : Option EventPayload := do
  match ← orNull asString (json.get "kind") with
  | some "harness_started" =>
    return .harnessStarted (← (json.get "harness_id").asString) (← (json.get "workspace").asString)
      (← (json.get "sandbox").asString) (← (json.get "llm").asString)
  | some "user_prompt" =>
    return .userPrompt (← orNull asString (json.get "client_id"))
      (← orNull asString (json.get "client_name")) (← (json.get "text").asString)
  | some "assistant_text" =>
    return .assistantText (← (json.get "agent").asString) (← (json.get "text").asString)
  | some "tool_use" =>
    return .toolUse (← (json.get "agent").asString) (← (json.get "call").asMap.bind ToolCall.fromJson)
  | some "tool_result" =>
    return .toolResult (← (json.get "agent").asString) (← (json.get "tool_use_id").asString)
      (← (json.get "tool_name").asString) (← (json.get "output").asMap.bind ToolOutput.fromJson)
  | some "agent_spawned" =>
    return .agentSpawned (← (json.get "parent").asString) (← (json.get "agent").asString)
      (← orNull asString (json.get "name")) (← (json.get "prompt").asString)
  | some "agent_completed" =>
    return .agentCompleted (← (json.get "agent").asString) (← (json.get "result").asString)
      (← (json.get "is_error").asBool)
  | some "question_asked" =>
    return .questionAsked (← (json.get "id").asString) (← (json.get "agent").asString)
      (← (json.get "question").asMap.bind UserQuestion.fromJson)
  | some "question_answered" =>
    return .questionAnswered (← (json.get "id").asString) (← orNull asString (json.get "client_id"))
      (← (json.get "answer").asString)
  | some "file_shared" =>
    return .fileShared (← (json.get "name").asString) (← (json.get "content_b64").asString)
      (← FileOrigin.fromJson json)
  | some "cost_report" =>
    return .costReport (← (json.get "backend").asString)
      (← (json.get "usage").asMap.bind UsageSnapshot.fromJson)
      (← (json.get "quota").asMap.bind QuotaConfig.fromJson)
  | some "turn_complete" =>
    return .turnComplete (← (json.get "agent").asString) (← StopReason.fromJson (json.get "stop_reason"))
  | some "awaiting_input" => return .awaitingInput
  | some "interrupted" => return .interrupted (← (json.get "agent").asString)
  | some "access_report_updated" =>
    return .accessReportUpdated (← (json.get "report").asMap.bind AccessReport.fromJson)
  | some "error" => return .error (← (json.get "context").asString) (← (json.get "message").asString)
  | some "shutdown" => return .shutdown (← orNull asString (json.get "message"))
  | _ => return .unknown (json.filter fun f => f.1 ≠ "seq" ∧ f.1 ≠ "time")

def toJson : EventPayload → Fields
  | .harnessStarted harnessId workspace sandbox llm =>
    [("kind", .string "harness_started"), ("harness_id", .string harnessId),
      ("workspace", .string workspace), ("sandbox", .string sandbox), ("llm", .string llm)]
  | .userPrompt clientId clientName text =>
    [("kind", .string "user_prompt")] ++ ifSome "client_id" (clientId.map .string) ++
      ifSome "client_name" (clientName.map .string) ++ [("text", .string text)]
  | .assistantText agent text =>
    [("kind", .string "assistant_text"), ("agent", .string agent), ("text", .string text)]
  | .toolUse agent call =>
    [("kind", .string "tool_use"), ("agent", .string agent), ("call", .map call.toJson)]
  | .toolResult agent toolUseId toolName output =>
    [("kind", .string "tool_result"), ("agent", .string agent), ("tool_use_id", .string toolUseId),
      ("tool_name", .string toolName), ("output", .map output.toJson)]
  | .agentSpawned parent agent name prompt =>
    [("kind", .string "agent_spawned"), ("parent", .string parent), ("agent", .string agent)] ++
      ifSome "name" (name.map .string) ++ [("prompt", .string prompt)]
  | .agentCompleted agent result isError =>
    [("kind", .string "agent_completed"), ("agent", .string agent), ("result", .string result),
      ("is_error", .bool isError)]
  | .questionAsked id agent question =>
    [("kind", .string "question_asked"), ("id", .string id), ("agent", .string agent),
      ("question", .map question.toJson)]
  | .questionAnswered id clientId answer =>
    [("kind", .string "question_answered"), ("id", .string id)] ++
      ifSome "client_id" (clientId.map .string) ++ [("answer", .string answer)]
  | .fileShared name contentB64 origin =>
    spread [("kind", .string "file_shared"), ("name", .string name), ("content_b64", .string contentB64)]
      origin.toJson
  | .costReport backend usage quota =>
    [("kind", .string "cost_report"), ("backend", .string backend), ("usage", .map usage.toJson),
      ("quota", .map quota.toJson)]
  | .turnComplete agent stopReason =>
    [("kind", .string "turn_complete"), ("agent", .string agent), ("stop_reason", stopReason.toJson)]
  | .awaitingInput => [("kind", .string "awaiting_input")]
  | .interrupted agent => [("kind", .string "interrupted"), ("agent", .string agent)]
  | .accessReportUpdated report =>
    [("kind", .string "access_report_updated"), ("report", .map report.toJson)]
  | .error context message =>
    [("kind", .string "error"), ("context", .string context), ("message", .string message)]
  | .shutdown message => [("kind", .string "shutdown")] ++ ifSome "message" (message.map .string)
  | .unknown raw => raw

end EventPayload

/-- The kinds of the cases of `EventPayload.fromJson`. -/
def kinds : List String :=
  ["harness_started", "user_prompt", "assistant_text", "tool_use", "tool_result", "agent_spawned",
    "agent_completed", "question_asked", "question_answered", "file_shared", "cost_report", "turn_complete",
    "awaiting_input", "interrupted", "access_report_updated", "error", "shutdown"]

theorem EventPayload.fromJson_unknown {json : Fields} {kind : String} (hkind : json.get "kind" = .string kind)
    (hnew : kind ∉ kinds) :
    fromJson json = some (.unknown (json.filter fun f => f.1 ≠ "seq" ∧ f.1 ≠ "time")) := by
  simp only [fromJson, hkind, orNull, asString, Option.map_some, Option.bind_eq_bind, Option.bind_some]
  split
  case h_18 => rfl
  all_goals
    rename_i heq
    cases heq
    exact absurd (by simp [kinds]) hnew

structure Event where
  seq : Int64
  time : Timestamp
  payload : EventPayload

namespace Event

def fromJson (json : Fields) : Option Event := do
  let seq ← (json.get "seq").asInt
  let time ← (json.get "time").asMap.bind Timestamp.fromJson
  let payload ← EventPayload.fromJson json
  return { seq, time, payload }

def toJson (event : Event) : Fields :=
  spread [("seq", .int event.seq), ("time", .map event.time.toJson)] event.payload.toJson

end Event

end Silo.Codec.App
