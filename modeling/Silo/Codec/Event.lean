import Silo.Codec.Dynamic

namespace Silo.Codec

open Silo.Core (Json Number StopReason ToolCall ToolOutput)

def u64 (n : UInt64) : Json := .number (.posInt n)

def f64 (bits : UInt64) : Json := if finite bits then .number (.float bits) else .null

def strings (items : List String) : Json := .array (items.map .string)

def optional (key : String) : Option Json → List (String × Json)
  | some value => [(key, value)]
  | none => []

structure Timestamp where
  logical : UInt64
  wallMs : Option UInt64

def Timestamp.fields (time : Timestamp) : List (String × Json) :=
  ("logical", u64 time.logical) :: optional "wall_ms" (time.wallMs.map u64)

def callFields (call : ToolCall) : List (String × Json) :=
  [("id", .string call.id), ("name", .string call.name), ("input", call.input)]

def outputFields (output : ToolOutput) : List (String × Json) :=
  [("content", .string output.content), ("is_error", .bool output.isError)]

/-- A unit variant is its name, and `Other` an object with one key. -/
def stopReason : StopReason → Json
  | .endTurn => .string "end_turn"
  | .toolUse => .string "tool_use"
  | .maxTokens => .string "max_tokens"
  | .other reason => .object [("other", .string reason)]

structure UsageSnapshot where
  inputTokens : UInt64
  outputTokens : UInt64
  usd : UInt64

def UsageSnapshot.fields (usage : UsageSnapshot) : List (String × Json) :=
  [("input_tokens", u64 usage.inputTokens), ("output_tokens", u64 usage.outputTokens),
    ("usd", f64 usage.usd)]

structure QuotaConfig where
  maxTotalTokens : Option UInt64
  maxUsd : Option UInt64

def QuotaConfig.fields (quota : QuotaConfig) : List (String × Json) :=
  optional "max_total_tokens" (quota.maxTotalTokens.map u64) ++ optional "max_usd" (quota.maxUsd.map f64)

structure AccessReport where
  sandboxKind : String
  workspaceMount : String
  scratchDir : String
  readablePaths : List String
  allowedDomains : List String
  credentialDomains : List String
  notes : List String

def AccessReport.fields (report : AccessReport) : List (String × Json) :=
  [("sandbox_kind", .string report.sandboxKind), ("workspace_mount", .string report.workspaceMount),
    ("scratch_dir", .string report.scratchDir), ("readable_paths", strings report.readablePaths),
    ("allowed_domains", strings report.allowedDomains),
    ("credential_domains", strings report.credentialDomains), ("notes", strings report.notes)]

structure QuestionOption where
  label : String
  description : String

def QuestionOption.fields (choice : QuestionOption) : List (String × Json) :=
  [("label", .string choice.label), ("description", .string choice.description)]

structure UserQuestion where
  question : String
  options : List QuestionOption
  multiSelect : Bool
  allowFreeText : Bool

def UserQuestion.fields (question : UserQuestion) : List (String × Json) :=
  [("question", .string question.question),
    ("options", .array (question.options.map fun choice => .object choice.fields)),
    ("multi_select", .bool question.multiSelect), ("allow_free_text", .bool question.allowFreeText)]

inductive FileOrigin
  | client (clientId : String)
  | llm (agent : String)

def FileOrigin.fields : FileOrigin → List (String × Json)
  | .client clientId => [("origin", .string "client"), ("client_id", .string clientId)]
  | .llm agent => [("origin", .string "llm"), ("agent", .string agent)]

inductive EventPayload
  | harnessStarted (harnessId workspace sandbox llm : String)
  | userPrompt (clientId clientName : Option String) (text : String)
  | assistantText (agent text : String)
  | toolUse (agent : String) (call : ToolCall)
  | toolResult (agent toolUseId toolName : String) (output : ToolOutput)
  | agentSpawned (parent agent : String) (name : Option String) (prompt : String)
  | agentCompleted (agent result : String) (isError : Bool)
  | questionAsked (id agent : String) (question : UserQuestion)
  | questionAnswered (id : String) (clientId : Option String) (answer : String)
  | fileShared (name contentB64 : String) (origin : FileOrigin)
  | costReport (backend : String) (usage : UsageSnapshot) (quota : QuotaConfig)
  | turnComplete (agent : String) (stopReason : StopReason)
  | interrupted (agent : String)
  | awaitingInput
  | accessReportUpdated (report : AccessReport)
  | error (context message : String)
  | shutdown (message : Option String)

namespace EventPayload

def kind : EventPayload → String
  | .harnessStarted .. => "harness_started"
  | .userPrompt .. => "user_prompt"
  | .assistantText .. => "assistant_text"
  | .toolUse .. => "tool_use"
  | .toolResult .. => "tool_result"
  | .agentSpawned .. => "agent_spawned"
  | .agentCompleted .. => "agent_completed"
  | .questionAsked .. => "question_asked"
  | .questionAnswered .. => "question_answered"
  | .fileShared .. => "file_shared"
  | .costReport .. => "cost_report"
  | .turnComplete .. => "turn_complete"
  | .interrupted .. => "interrupted"
  | .awaitingInput => "awaiting_input"
  | .accessReportUpdated .. => "access_report_updated"
  | .error .. => "error"
  | .shutdown .. => "shutdown"

def variantFields : EventPayload → List (String × Json)
  | .harnessStarted harnessId workspace sandbox llm =>
    [("harness_id", .string harnessId), ("workspace", .string workspace), ("sandbox", .string sandbox),
      ("llm", .string llm)]
  | .userPrompt clientId clientName text =>
    optional "client_id" (clientId.map .string) ++ optional "client_name" (clientName.map .string) ++
      [("text", .string text)]
  | .assistantText agent text => [("agent", .string agent), ("text", .string text)]
  | .toolUse agent call => [("agent", .string agent), ("call", .object (callFields call))]
  | .toolResult agent toolUseId toolName output =>
    [("agent", .string agent), ("tool_use_id", .string toolUseId), ("tool_name", .string toolName),
      ("output", .object (outputFields output))]
  | .agentSpawned parent agent name prompt =>
    [("parent", .string parent), ("agent", .string agent)] ++ optional "name" (name.map .string) ++
      [("prompt", .string prompt)]
  | .agentCompleted agent result isError =>
    [("agent", .string agent), ("result", .string result), ("is_error", .bool isError)]
  | .questionAsked id agent question =>
    [("id", .string id), ("agent", .string agent), ("question", .object question.fields)]
  | .questionAnswered id clientId answer =>
    [("id", .string id)] ++ optional "client_id" (clientId.map .string) ++ [("answer", .string answer)]
  | .fileShared name contentB64 origin =>
    [("name", .string name), ("content_b64", .string contentB64)] ++ origin.fields
  | .costReport backend usage quota =>
    [("backend", .string backend), ("usage", .object usage.fields), ("quota", .object quota.fields)]
  | .turnComplete agent reason => [("agent", .string agent), ("stop_reason", stopReason reason)]
  | .interrupted agent => [("agent", .string agent)]
  | .awaitingInput => []
  | .accessReportUpdated report => [("report", .object report.fields)]
  | .error context message => [("context", .string context), ("message", .string message)]
  | .shutdown message => optional "message" (message.map .string)

/-- The enum is tagged with its `kind`. -/
def fields (payload : EventPayload) : List (String × Json) :=
  ("kind", .string payload.kind) :: payload.variantFields

end EventPayload

structure Event where
  seq : UInt64
  time : Timestamp
  payload : EventPayload

/-- The payload is flattened into the event. -/
def Event.fields (event : Event) : List (String × Json) :=
  [("seq", u64 event.seq), ("time", .object event.time.fields)] ++ event.payload.fields

def small (n : UInt64) : Bool := decide (n.toNat < 2 ^ 63)

@[simp] theorem plain_string (text : String) : plain (.string text) = true := rfl

@[simp] theorem plain_bool (value : Bool) : plain (.bool value) = true := rfl

@[simp] theorem plain_u64 (n : UInt64) : plain (u64 n) = small n := rfl

@[simp] theorem plain_object (fields : List (String × Json)) :
    plain (.object fields) = plainFields fields := rfl

@[simp] theorem plain_f64 (bits : UInt64) : plain (f64 bits) = true := by
  by_cases h : finite bits = true <;> simp [f64, h, plain, plainNumber]

theorem plainItems_map {α : Type} {toJson : α → Json} {items : List α}
    (h : ∀ item ∈ items, plain (toJson item) = true) : plainItems (items.map toJson) = true := by
  induction items with
  | nil => rfl
  | cons item items ih =>
      rw [List.map_cons, plainItems, Bool.and_eq_true]
      exact ⟨h item (by simp), ih fun x hx => h x (by simp [hx])⟩

@[simp] theorem plain_strings (items : List String) : plain (strings items) = true := by
  rw [strings, plain]
  exact plainItems_map fun _ _ => rfl

namespace Timestamp

def plain (time : Timestamp) : Bool := small time.logical && time.wallMs.all small

theorem plain_fields {time : Timestamp} (h : time.plain = true) : plainFields time.fields = true := by
  obtain ⟨logical, wallMs⟩ := time
  cases wallMs <;> simp_all [plain, fields, optional, plainFields]

end Timestamp

namespace UsageSnapshot

def plain (usage : UsageSnapshot) : Bool :=
  small usage.inputTokens && small usage.outputTokens && finite usage.usd

theorem plain_fields {usage : UsageSnapshot} (h : usage.plain = true) :
    plainFields usage.fields = true := by
  simp_all [plain, fields, plainFields]

end UsageSnapshot

namespace QuotaConfig

def plain (quota : QuotaConfig) : Bool := quota.maxTotalTokens.all small && quota.maxUsd.all finite

theorem plain_fields {quota : QuotaConfig} (h : quota.plain = true) :
    plainFields quota.fields = true := by
  obtain ⟨maxTotalTokens, maxUsd⟩ := quota
  cases maxTotalTokens <;> cases maxUsd <;> simp_all [plain, fields, optional, plainFields]

end QuotaConfig

theorem plain_callFields {call : ToolCall} (h : plain call.input = true) :
    plainFields (callFields call) = true := by
  simp [callFields, plainFields, h]

@[simp] theorem plain_outputFields (output : ToolOutput) : plainFields (outputFields output) = true := by
  simp [outputFields, plainFields]

@[simp] theorem plain_stopReason (reason : StopReason) : plain (stopReason reason) = true := by
  cases reason <;> simp [stopReason, plainFields]

@[simp] theorem AccessReport.plain_fields (report : AccessReport) : plainFields report.fields = true := by
  simp [fields, plainFields]

@[simp] theorem QuestionOption.plain_fields (choice : QuestionOption) :
    plainFields choice.fields = true := by
  simp [fields, plainFields]

@[simp] theorem UserQuestion.plain_fields (question : UserQuestion) :
    plainFields question.fields = true := by
  have hoptions : plainItems (question.options.map fun choice => .object choice.fields) = true :=
    plainItems_map fun choice _ => choice.plain_fields
  simp [fields, plainFields, plain, hoptions]

namespace EventPayload

/-- The numbers of the payload are ones that the app can hold. -/
def plain : EventPayload → Bool
  | .toolUse _ call => Codec.plain call.input
  | .costReport _ usage quota => usage.plain && quota.plain
  | _ => true

theorem plain_fields {payload : EventPayload} (h : payload.plain = true) :
    plainFields payload.fields = true := by
  cases payload with
  | userPrompt clientId clientName text =>
      cases clientId <;> cases clientName <;> simp [fields, variantFields, optional, plainFields]
  | agentSpawned parent agent name prompt =>
      cases name <;> simp [fields, variantFields, optional, plainFields]
  | questionAnswered id clientId answer =>
      cases clientId <;> simp [fields, variantFields, optional, plainFields]
  | shutdown message => cases message <;> simp [fields, variantFields, optional, plainFields]
  | fileShared name contentB64 origin =>
      cases origin <;> simp [fields, variantFields, FileOrigin.fields, plainFields]
  | toolUse agent call => simp [fields, variantFields, plainFields, plain_callFields h]
  | costReport backend usage quota =>
      obtain ⟨husage, hquota⟩ : usage.plain = true ∧ quota.plain = true := by simpa [plain] using h
      simp [fields, variantFields, plainFields, usage.plain_fields husage, quota.plain_fields hquota]
  | _ => simp [fields, variantFields, plainFields]

theorem keys (payload : EventPayload) : ∀ f ∈ payload.fields, f.1 ≠ "seq" ∧ f.1 ≠ "time" := by
  cases payload with
  | userPrompt clientId clientName text =>
      cases clientId <;> cases clientName <;> simp [fields, variantFields, optional]
  | agentSpawned parent agent name prompt => cases name <;> simp [fields, variantFields, optional]
  | questionAnswered id clientId answer => cases clientId <;> simp [fields, variantFields, optional]
  | shutdown message => cases message <;> simp [fields, variantFields, optional]
  | fileShared name contentB64 origin => cases origin <;> simp [fields, variantFields, FileOrigin.fields]
  | _ => simp [fields, variantFields]

end EventPayload

namespace Event

def plain (event : Event) : Bool := small event.seq && event.time.plain && event.payload.plain

theorem plain_fields {event : Event} (h : event.plain = true) : plainFields event.fields = true := by
  obtain ⟨hseq, htime, hpayload⟩ : small event.seq = true ∧ event.time.plain = true ∧
      event.payload.plain = true := by
    simpa [plain, and_assoc] using h
  have hkeys := event.payload.keys
  simp only [fields, List.cons_append, List.nil_append, plainFields_cons, List.mem_cons]
  refine ⟨?_, hseq, fun f hf => (hkeys f hf).2, event.time.plain_fields htime,
    event.payload.plain_fields hpayload⟩
  rintro f (rfl | hf)
  · simp
  · exact (hkeys f hf).1

end Event

end Silo.Codec
