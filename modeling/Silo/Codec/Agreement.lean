import Silo.Codec.Protocol
import Silo.Codec.App.Protocol

namespace Silo.Codec

open Silo.Core (Json Number StopReason ToolCall ToolOutput)

@[simp] theorem decodeFields_nil : decodeFields [] = [] := rfl

@[simp] theorem decodeFields_cons (key : String) (value : Json) (rest : List (String × Json)) :
    decodeFields ((key, value) :: rest) = (key, decode value) :: decodeFields rest := rfl

@[simp] theorem decodeFields_append (fields more : List (String × Json)) :
    decodeFields (fields ++ more) = decodeFields fields ++ decodeFields more := by
  simp [decodeFields_eq]

@[simp] theorem decode_string (text : String) : decode (.string text) = .string text := rfl

@[simp] theorem decode_bool (value : Bool) : decode (.bool value) = .bool value := rfl

theorem decode_u64 {n : UInt64} (h : small n = true) : decode (u64 n) = .int n.toInt64 := by
  have hn : n.toNat < 2 ^ 63 := by simpa [small] using h
  rw [u64, decode, decodeNumber, if_pos hn]

theorem decode_f64 {bits : UInt64} (h : finite bits = true) : decode (f64 bits) = .double bits := by
  simp [f64, h, decode, decodeNumber]

@[simp] theorem decode_strings (items : List String) :
    decode (strings items) = .list (items.map .string) := by
  simp only [strings, decode, decodeItems_eq, List.map_map, Dyn.list.injEq, List.map_inj_left]
  intro text _
  rfl

theorem asMap_object {fields : List (String × Json)} (h : plainFields fields = true) :
    (decode (.object fields)).asMap = some (decodeFields fields) := by
  rw [decode_object h]
  rfl

theorem eachMap_decode {α β : Type} {fields : α → List (String × Json)} {fromJson : Fields → Option β}
    {toApp : α → β} (items : List α) (hplain : ∀ x ∈ items, plainFields (fields x) = true)
    (hread : ∀ x ∈ items, fromJson (decodeFields (fields x)) = some (toApp x)) :
    App.eachMap fromJson (decodeItems (items.map fun x => .object (fields x))) =
      some (items.map toApp) := by
  induction items with
  | nil => rfl
  | cons x items ih =>
      have hrest := ih (fun y hy => hplain y (by simp [hy])) fun y hy => hread y (by simp [hy])
      rw [App.eachMap] at hrest
      simp [App.eachMap, decodeItems, asMap_object (hplain x (by simp)), hread x (by simp), hrest]

theorem map_toJson {α β : Type} {fields : α → List (String × Json)} {toJson : β → Fields}
    {toApp : α → β} (items : List α) (hplain : ∀ x ∈ items, plainFields (fields x) = true)
    (hwrite : ∀ x ∈ items, toJson (toApp x) = decodeFields (fields x)) :
    (items.map toApp).map (fun y => .map (toJson y)) =
      decodeItems (items.map fun x => .object (fields x)) := by
  rw [decodeItems_eq, List.map_map, List.map_map]
  apply List.map_inj_left.mpr
  intro x hx
  simp [Function.comp, decode_object (hplain x hx), hwrite x hx]

namespace Timestamp

def toApp (time : Timestamp) : App.Timestamp := ⟨time.logical.toInt64, time.wallMs.map UInt64.toInt64⟩

variable {time : Timestamp}

theorem read (h : time.plain = true) : App.Timestamp.fromJson (decodeFields time.fields) = some time.toApp := by
  obtain ⟨logical, wallMs⟩ := time
  cases wallMs <;>
    simp_all [plain, fields, optional, App.Timestamp.fromJson, toApp, decode_u64, Dyn.asInt, Dyn.orNull]

theorem write (h : time.plain = true) : time.toApp.toJson = decodeFields time.fields := by
  obtain ⟨logical, wallMs⟩ := time
  cases wallMs <;>
    simp_all [plain, fields, optional, App.Timestamp.toJson, App.ifSome, toApp, decode_u64]

end Timestamp

namespace UsageSnapshot

def toApp (usage : UsageSnapshot) : App.UsageSnapshot :=
  ⟨usage.inputTokens.toInt64, usage.outputTokens.toInt64, usage.usd⟩

variable {usage : UsageSnapshot}

theorem read (h : usage.plain = true) :
    App.UsageSnapshot.fromJson (decodeFields usage.fields) = some usage.toApp := by
  simp_all [plain, fields, App.UsageSnapshot.fromJson, toApp, decode_u64, decode_f64, Dyn.asInt, Dyn.toDouble]

theorem write (h : usage.plain = true) : usage.toApp.toJson = decodeFields usage.fields := by
  simp_all [plain, fields, App.UsageSnapshot.toJson, toApp, decode_u64, decode_f64]

end UsageSnapshot

namespace QuotaConfig

def toApp (quota : QuotaConfig) : App.QuotaConfig := ⟨quota.maxTotalTokens.map UInt64.toInt64, quota.maxUsd⟩

variable {quota : QuotaConfig}

theorem read (h : quota.plain = true) :
    App.QuotaConfig.fromJson (decodeFields quota.fields) = some quota.toApp := by
  obtain ⟨maxTotalTokens, maxUsd⟩ := quota
  cases maxTotalTokens <;> cases maxUsd <;>
    simp_all [plain, fields, optional, App.QuotaConfig.fromJson, toApp, decode_u64, decode_f64, Dyn.asInt,
      Dyn.toDouble, Dyn.orNull]

theorem write (h : quota.plain = true) : quota.toApp.toJson = decodeFields quota.fields := by
  obtain ⟨maxTotalTokens, maxUsd⟩ := quota
  cases maxTotalTokens <;> cases maxUsd <;>
    simp_all [plain, fields, optional, App.QuotaConfig.toJson, App.ifSome, toApp, decode_u64, decode_f64]

end QuotaConfig

def callToApp (call : ToolCall) : App.ToolCall := ⟨call.id, call.name, decode call.input⟩

@[simp] theorem read_call (call : ToolCall) :
    App.ToolCall.fromJson (decodeFields (callFields call)) = some (callToApp call) := by
  simp [callFields, App.ToolCall.fromJson, callToApp, Dyn.asString]

@[simp] theorem write_call (call : ToolCall) :
    (callToApp call).toJson = decodeFields (callFields call) := by
  simp [callFields, App.ToolCall.toJson, callToApp]

def outputToApp (output : ToolOutput) : App.ToolOutput := ⟨output.content, output.isError⟩

@[simp] theorem read_output (output : ToolOutput) :
    App.ToolOutput.fromJson (decodeFields (outputFields output)) = some (outputToApp output) := by
  simp [outputFields, App.ToolOutput.fromJson, outputToApp, Dyn.asString, Dyn.asBool]

@[simp] theorem write_output (output : ToolOutput) :
    (outputToApp output).toJson = decodeFields (outputFields output) := by
  simp [outputFields, App.ToolOutput.toJson, outputToApp]

def stopReasonToApp : StopReason → App.StopReason
  | .endTurn => .endTurn
  | .toolUse => .toolUse
  | .maxTokens => .maxTokens
  | .other reason => .ofOther reason

@[simp] theorem read_stopReason (reason : StopReason) :
    App.StopReason.fromJson (decode (stopReason reason)) = some (stopReasonToApp reason) := by
  cases reason with
  | other reason =>
      have hplain : plainFields [("other", Json.string reason)] = true := by simp [plainFields]
      simp [stopReason, decode_object hplain, App.StopReason.fromJson, stopReasonToApp, Dyn.asString]
  | _ => simp [stopReason, App.StopReason.fromJson, stopReasonToApp]

@[simp] theorem write_stopReason (reason : StopReason) :
    (stopReasonToApp reason).toJson = decode (stopReason reason) := by
  cases reason with
  | other reason =>
      have hplain : plainFields [("other", Json.string reason)] = true := by simp [plainFields]
      simp [stopReason, decode_object hplain, stopReasonToApp, App.StopReason.ofOther, App.StopReason.toJson]
  | _ => rfl

namespace AccessReport

def toApp (report : AccessReport) : App.AccessReport :=
  ⟨report.sandboxKind, report.workspaceMount, report.scratchDir, report.readablePaths.map .string,
    report.allowedDomains.map .string, report.credentialDomains.map .string, report.notes.map .string⟩

@[simp] theorem read (report : AccessReport) :
    App.AccessReport.fromJson (decodeFields report.fields) = some report.toApp := by
  simp [fields, App.AccessReport.fromJson, App.AccessReport.stringList, toApp, Dyn.asString, Dyn.asList,
    Dyn.orNull]

@[simp] theorem write (report : AccessReport) : report.toApp.toJson = decodeFields report.fields := by
  simp [fields, App.AccessReport.toJson, toApp]

end AccessReport

namespace QuestionOption

def toApp (choice : QuestionOption) : App.QuestionOption := ⟨choice.label, choice.description⟩

theorem read (choice : QuestionOption) :
    App.QuestionOption.fromJson (decodeFields choice.fields) = some choice.toApp := by
  simp [fields, App.QuestionOption.fromJson, toApp, Dyn.asString, Dyn.orNull]

theorem write (choice : QuestionOption) : choice.toApp.toJson = decodeFields choice.fields := by
  simp [fields, App.QuestionOption.toJson, toApp]

end QuestionOption

namespace UserQuestion

def toApp (question : UserQuestion) : App.UserQuestion :=
  ⟨question.question, question.options.map QuestionOption.toApp, question.multiSelect,
    question.allowFreeText⟩

@[simp] theorem read (question : UserQuestion) :
    App.UserQuestion.fromJson (decodeFields question.fields) = some question.toApp := by
  have hoptions := eachMap_decode question.options (fun choice _ => choice.plain_fields)
    fun choice _ => choice.read
  simp [fields, App.UserQuestion.fromJson, toApp, decode, Dyn.asString, Dyn.asList, Dyn.asBool, Dyn.orNull,
    hoptions]

@[simp] theorem write (question : UserQuestion) : question.toApp.toJson = decodeFields question.fields := by
  have hoptions := map_toJson question.options (fun choice _ => choice.plain_fields)
    fun choice _ => choice.write
  simp only [App.UserQuestion.toJson, toApp, hoptions]
  rfl

end UserQuestion

namespace FileOrigin

def toApp : FileOrigin → App.FileOrigin
  | .client clientId => .client clientId
  | .llm agent => .llm agent

end FileOrigin

namespace EventPayload

def toApp : EventPayload → App.EventPayload
  | .harnessStarted harnessId workspace sandbox llm => .harnessStarted harnessId workspace sandbox llm
  | .userPrompt clientId clientName text => .userPrompt clientId clientName text
  | .assistantText agent text => .assistantText agent text
  | .toolUse agent call => .toolUse agent (callToApp call)
  | .toolResult agent toolUseId toolName output => .toolResult agent toolUseId toolName (outputToApp output)
  | .agentSpawned parent agent name prompt => .agentSpawned parent agent name prompt
  | .agentCompleted agent result isError => .agentCompleted agent result isError
  | .questionAsked id agent question => .questionAsked id agent question.toApp
  | .questionAnswered id clientId answer => .questionAnswered id clientId answer
  | .fileShared name contentB64 origin => .fileShared name contentB64 origin.toApp
  | .costReport backend usage quota => .costReport backend usage.toApp quota.toApp
  | .turnComplete agent reason => .turnComplete agent (stopReasonToApp reason)
  | .interrupted agent => .interrupted agent
  | .awaitingInput => .awaitingInput
  | .accessReportUpdated report => .accessReportUpdated report.toApp
  | .error context message => .error context message
  | .shutdown message => .shutdown message

/-- The fields of the event around the payload do not disturb its reading. -/
theorem read {payload : EventPayload} (h : payload.plain = true) (seq time : Dyn) :
    App.EventPayload.fromJson (("seq", seq) :: ("time", time) :: decodeFields payload.fields) =
      some payload.toApp := by
  cases payload with
  | userPrompt clientId clientName text => cases clientId <;> cases clientName <;> rfl
  | agentSpawned parent agent name prompt => cases name <;> rfl
  | questionAnswered id clientId answer => cases clientId <;> rfl
  | shutdown message => cases message <;> rfl
  | fileShared name contentB64 origin => cases origin <;> rfl
  | harnessStarted | assistantText | toolResult | agentCompleted | interrupted | awaitingInput | error => rfl
  | toolUse agent call =>
      simp [fields, kind, variantFields, App.EventPayload.fromJson, toApp, Dyn.asString, Dyn.orNull,
        asMap_object (plain_callFields h)]
  | costReport backend usage quota =>
      obtain ⟨husage, hquota⟩ : usage.plain = true ∧ quota.plain = true := by simpa [plain] using h
      simp [fields, kind, variantFields, App.EventPayload.fromJson, toApp, Dyn.asString, Dyn.orNull,
        asMap_object (usage.plain_fields husage), asMap_object (quota.plain_fields hquota),
        usage.read husage, quota.read hquota]
  | _ =>
      simp [fields, kind, variantFields, App.EventPayload.fromJson, toApp, Dyn.asString, Dyn.asBool, Dyn.orNull,
        asMap_object]

theorem write {payload : EventPayload} (h : payload.plain = true) :
    payload.toApp.toJson = decodeFields payload.fields := by
  cases payload with
  | userPrompt clientId clientName text => cases clientId <;> cases clientName <;> rfl
  | agentSpawned parent agent name prompt => cases name <;> rfl
  | questionAnswered id clientId answer => cases clientId <;> rfl
  | shutdown message => cases message <;> rfl
  | fileShared name contentB64 origin => cases origin <;> rfl
  | harnessStarted | assistantText | toolResult | agentCompleted | interrupted | awaitingInput | error => rfl
  | toolUse agent call =>
      simp [fields, kind, variantFields, App.EventPayload.toJson, toApp, decode_object (plain_callFields h)]
  | costReport backend usage quota =>
      obtain ⟨husage, hquota⟩ : usage.plain = true ∧ quota.plain = true := by simpa [plain] using h
      simp [fields, kind, variantFields, App.EventPayload.toJson, toApp,
        decode_object (usage.plain_fields husage), decode_object (quota.plain_fields hquota),
        usage.write husage, quota.write hquota]
  | _ => simp [fields, kind, variantFields, App.EventPayload.toJson, toApp, decode_object]

end EventPayload

namespace Event

def toApp (event : Event) : App.Event := ⟨event.seq.toInt64, event.time.toApp, event.payload.toApp⟩

variable {event : Event}

theorem plain_iff : event.plain = true ↔
    small event.seq = true ∧ event.time.plain = true ∧ event.payload.plain = true := by
  simp [plain, and_assoc]

theorem read (h : event.plain = true) :
    App.Event.fromJson (decodeFields event.fields) = some event.toApp := by
  obtain ⟨hseq, htime, hpayload⟩ := plain_iff.mp h
  simp [fields, App.Event.fromJson, toApp, decode_u64 hseq, Dyn.asInt,
    asMap_object (event.time.plain_fields htime), event.time.read htime, event.payload.read hpayload]

theorem write (h : event.plain = true) : event.toApp.toJson = decodeFields event.fields := by
  obtain ⟨hseq, htime, hpayload⟩ := plain_iff.mp h
  have hfields : decodeFields event.fields =
      [("seq", Dyn.int event.seq.toInt64), ("time", Dyn.map event.time.toApp.toJson)] ++
        decodeFields event.payload.fields := by
    simp [fields, decode_u64 hseq, decode_object (event.time.plain_fields htime), event.time.write htime]
  have hkeys : ((decodeFields event.fields).map Prod.fst).Nodup := by
    rw [decodeFields_eq, List.map_map]
    exact keys_of_plain (event.plain_fields h)
  rw [App.Event.toJson, toApp, event.payload.write hpayload, hfields]
  rw [hfields] at hkeys
  exact Fields.spread_of_nodup hkeys

end Event

namespace CostEntry

def toApp (entry : CostEntry) : App.CostEntry := ⟨entry.backend, entry.usage.toApp, entry.quota.toApp⟩

variable {entry : CostEntry}

theorem read (h : entry.plain = true) :
    App.CostEntry.fromJson (decodeFields entry.fields) = some entry.toApp := by
  obtain ⟨husage, hquota⟩ : entry.usage.plain = true ∧ entry.quota.plain = true := by simpa [plain] using h
  simp [fields, App.CostEntry.fromJson, toApp, Dyn.asString, asMap_object (entry.usage.plain_fields husage),
    asMap_object (entry.quota.plain_fields hquota), entry.usage.read husage, entry.quota.read hquota]

theorem write (h : entry.plain = true) : entry.toApp.toJson = decodeFields entry.fields := by
  obtain ⟨husage, hquota⟩ : entry.usage.plain = true ∧ entry.quota.plain = true := by simpa [plain] using h
  simp [fields, App.CostEntry.toJson, toApp, decode_object (entry.usage.plain_fields husage),
    decode_object (entry.quota.plain_fields hquota), entry.usage.write husage, entry.quota.write hquota]

end CostEntry

namespace ServerMessage

def toApp : ServerMessage → App.ServerMessage
  | .hello harnessId protocolVersion => .hello harnessId protocolVersion.toUInt64.toInt64
  | .authChallenge challengeB64 => .authChallenge challengeB64
  | .authOk clientId keyId nextSeq => .authOk clientId keyId nextSeq.toInt64
  | .authError message => .authError message
  | .event e => .event e.toApp
  | .events es => .events (es.map Event.toApp)
  | .accessReport report => .accessReport report.toApp
  | .cost entries => .cost (entries.map CostEntry.toApp)
  | .pairingCode code expiresInSecs => .pairingCode code expiresInSecs.toInt64
  | .pong nonce => .pong nonce.toInt64
  | .error message => .error message
  | .shuttingDown message => .shuttingDown message

variable {message : ServerMessage}

theorem read (h : message.plain = true) :
    App.ServerMessage.fromJson (decodeFields message.fields) = some message.toApp := by
  cases message with
  | hello harnessId protocolVersion =>
      simp [fields, type, variantFields, App.ServerMessage.fromJson, toApp, Dyn.asString, Dyn.asInt, Dyn.orNull,
        decode_u64 (small_ofUInt32 protocolVersion)]
  | authOk clientId keyId nextSeq =>
      have hseq : small nextSeq = true := h
      cases keyId <;>
        simp [fields, type, variantFields, optional, App.ServerMessage.fromJson, toApp, Dyn.asString, Dyn.asInt,
          Dyn.orNull, decode_u64 hseq]
  | event e =>
      simp [fields, type, variantFields, App.ServerMessage.fromJson, toApp, Dyn.asString, Dyn.orNull,
        asMap_object (e.plain_fields h), e.read h]
  | events es =>
      have hplain : ∀ e ∈ es, e.plain = true := List.all_eq_true.mp h
      have hread := eachMap_decode es (fun e he => e.plain_fields (hplain e he)) fun e he => e.read (hplain e he)
      simp [fields, type, variantFields, App.ServerMessage.fromJson, toApp, Dyn.asString, Dyn.asList,
        Dyn.orNull, decode, hread]
  | cost entries =>
      have hplain : ∀ entry ∈ entries, entry.plain = true := List.all_eq_true.mp h
      have hread := eachMap_decode entries (fun entry hmem => entry.plain_fields (hplain entry hmem))
        fun entry hmem => entry.read (hplain entry hmem)
      simp [fields, type, variantFields, App.ServerMessage.fromJson, toApp, Dyn.asString, Dyn.asList,
        Dyn.orNull, decode, hread]
  | pairingCode code expiresInSecs =>
      have hsecs : small expiresInSecs = true := h
      simp [fields, type, variantFields, App.ServerMessage.fromJson, toApp, Dyn.asString, Dyn.asInt, Dyn.orNull,
        decode_u64 hsecs]
  | pong nonce =>
      have hnonce : small nonce = true := h
      simp [fields, type, variantFields, App.ServerMessage.fromJson, toApp, Dyn.asString, Dyn.asInt, Dyn.orNull,
        decode_u64 hnonce]
  | shuttingDown message => cases message <;> rfl
  | authChallenge | authError | error => rfl
  | accessReport report =>
      simp [fields, type, variantFields, App.ServerMessage.fromJson, toApp, Dyn.asString, Dyn.orNull,
        asMap_object report.plain_fields]

theorem write (h : message.plain = true) : message.toApp.toJson = decodeFields message.fields := by
  cases message with
  | hello harnessId protocolVersion =>
      simp [fields, type, variantFields, App.ServerMessage.toJson, toApp,
        decode_u64 (small_ofUInt32 protocolVersion)]
  | authOk clientId keyId nextSeq =>
      have hseq : small nextSeq = true := h
      cases keyId <;>
        simp [fields, type, variantFields, optional, App.ServerMessage.toJson, App.ifSome, toApp, decode_u64 hseq]
  | event e =>
      simp [fields, type, variantFields, App.ServerMessage.toJson, toApp, decode_object (e.plain_fields h),
        e.write h]
  | events es =>
      have hplain : ∀ e ∈ es, e.plain = true := List.all_eq_true.mp h
      have hwrite := map_toJson es (fun e he => e.plain_fields (hplain e he)) fun e he => e.write (hplain e he)
      simp only [App.ServerMessage.toJson, toApp, hwrite]
      rfl
  | cost entries =>
      have hplain : ∀ entry ∈ entries, entry.plain = true := List.all_eq_true.mp h
      have hwrite := map_toJson entries (fun entry hmem => entry.plain_fields (hplain entry hmem))
        fun entry hmem => entry.write (hplain entry hmem)
      simp only [App.ServerMessage.toJson, toApp, hwrite]
      rfl
  | pairingCode code expiresInSecs =>
      have hsecs : small expiresInSecs = true := h
      simp [fields, type, variantFields, App.ServerMessage.toJson, toApp, decode_u64 hsecs]
  | pong nonce =>
      have hnonce : small nonce = true := h
      simp [fields, type, variantFields, App.ServerMessage.toJson, toApp, decode_u64 hnonce]
  | shuttingDown message => cases message <;> rfl
  | authChallenge | authError | error => rfl
  | accessReport report =>
      simp [fields, type, variantFields, App.ServerMessage.toJson, toApp, decode_object report.plain_fields]

end ServerMessage

end Silo.Codec
