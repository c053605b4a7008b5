import Silo.Llm.FullMessages

namespace Silo.Llm

open Silo.Lib Silo.Core Silo.Harness Silo.Harness.Dialogue

/-- `drive_inner` with these replies. -/
def runReplies (ctx : SessionCtx) (turn : Turn) : Drive → List Reply → Option Advance
  | d, [] => some (d, [])
  | d, reply :: replies =>
    (d.advance ctx turn reply).bind fun step =>
      (runReplies ctx turn step.1 replies).map fun after => (after.1, step.2 ++ after.2)

/-- Every checkpoint is clear and every call has an output. -/
def undisturbed (outputs : List (String × ToolOutput)) : List Reply :=
  outputs.flatMap (fun output => [Reply.checkpoint .clear, .disposition (.ok (.output output.1 output.2))]) ++
    [Reply.checkpoint .clear]

def AsksAgain (after : Option Advance) : Prop := ∃ step, after = some step ∧ requests step.2 ≠ []

/-- After the response and its calls, undisturbed, the turn goes on with a request. -/
def Continues (response : CompletionResponse) : Prop :=
  ∀ (ctx : SessionCtx) (turn : Turn) (messages : List Message) (outputs : List (String × ToolOutput)),
    outputs.length = response.toolCalls.length →
    AsksAgain (runReplies ctx turn ⟨messages, .asking⟩ (.completion (.ok response) :: undisturbed outputs))

/-- The reason that a chat completion gives for its end. -/
def finishReason (serde : SerdeJson) (text : String) : Option String :=
  match serde.fromStr text with
  | .ok value => (Json.pointer ["choices", "0"] value).bind fun choice => choice.str "finish_reason"
  | .error _ => none

section Drive

variable {ctx : SessionCtx} {turn : Turn} {response : CompletionResponse}

theorem asksAgain_cons {d : Drive} {reply : Reply} {step : Advance} (hstep : d.advance ctx turn reply = some step)
    (hnone : requests step.2 = []) (replies : List Reply) :
    AsksAgain (runReplies ctx turn d (reply :: replies)) ↔ AsksAgain (runReplies ctx turn step.1 replies) := by
  rw [runReplies, hstep, Option.bind_some]
  cases runReplies ctx turn step.1 replies with
  | none => simp [AsksAgain]
  | some after => simp [AsksAgain, requests_append, hnone]

theorem requests_nextCall {d : Drive} (results : List ContentBlock) :
    requests (d.nextCall turn response results).2 = [] := by
  rw [Drive.nextCall]
  split
  · rfl
  · split
    · rfl
    · exact endOfTurn_requests _ response

/-- The calls that are left are made one by one, and then the stop reason decides. -/
theorem asksAgain_calls {outputs : List (String × ToolOutput)} (houtputs : outputs ≠ [])
    (results : List ContentBlock) (messages : List Message)
    (hlength : results.length + outputs.length = response.toolCalls.length) :
    AsksAgain (runReplies ctx turn ⟨messages, .calling response results⟩ (undisturbed outputs)) ↔
      response.stopReason = .toolUse := by
  induction outputs generalizing results with
  | nil => exact absurd rfl houtputs
  | cons output outputs ih =>
      rw [List.length_cons] at hlength
      obtain ⟨call, hcall⟩ : ∃ call, response.toolCalls[results.length]? = some call :=
        ⟨_, List.getElem?_eq_getElem (by omega)⟩
      have hclear : (⟨messages, .calling response results⟩ : Drive).advance ctx turn (.checkpoint .clear) =
          some (⟨messages, .running response results⟩, [.event (.toolUse turn.agent call)]) := by
        show (response.toolCalls[results.length]?).map _ = _
        rw [hcall]
        rfl
      have hdone : (⟨messages, .running response results⟩ : Drive).advance ctx turn
          (.disposition (.ok (.output output.1 output.2))) = some (Drive.toolDone turn
            ⟨messages, .running response results⟩ response results call (.ok (.output output.1 output.2))) := by
        show (response.toolCalls[results.length]?).map _ = _
        rw [hcall]
        rfl
      rw [undisturbed, List.flatMap_cons, List.append_assoc, List.cons_append, List.singleton_append,
        asksAgain_cons hclear rfl, asksAgain_cons hdone (requests_nextCall _), ← undisturbed]
      show AsksAgain (runReplies ctx turn (Drive.nextCall turn ⟨messages, .running response results⟩ response
        (results ++ [ContentBlock.toolResult call.id output.2.content output.2.isError])).1 _) ↔ _
      have hmore : (results ++ [ContentBlock.toolResult call.id output.2.content output.2.isError]).length =
          results.length + 1 := by simp
      rw [Drive.nextCall, hmore]
      cases outputs with
      | cons next outputs =>
          rw [List.length_cons] at hlength
          rw [if_pos (by omega)]
          exact ih (by rintro ⟨⟩) _ (by rw [hmore, List.length_cons]; omega)
      | nil =>
          rw [List.length_nil] at hlength
          rw [if_neg (by omega)]
          split
          · rename_i hstop
            exact ⟨fun _ => hstop, fun _ => ⟨_, rfl, by rintro ⟨⟩⟩⟩
          · rename_i hstop
            refine ⟨?_, fun h => absurd h hstop⟩
            rintro ⟨step, hstep, -⟩
            cases hstep

theorem continues_iff (hcalls : response.toolCalls ≠ []) : Continues response ↔ response.stopReason = .toolUse := by
  have hfalse : response.toolCalls.isEmpty = false := by
    cases h : response.toolCalls with
    | nil => exact absurd h hcalls
    | cons call calls => rfl
  have hiff : ∀ (ctx : SessionCtx) (turn : Turn) (messages : List Message) (outputs : List (String × ToolOutput)),
      outputs.length = response.toolCalls.length →
      (AsksAgain (runReplies ctx turn ⟨messages, .asking⟩ (.completion (.ok response) :: undisturbed outputs)) ↔
        response.stopReason = .toolUse) := by
    intro ctx turn messages outputs hlength
    have houtputs : outputs ≠ [] := by
      rintro rfl
      exact hcalls (List.eq_nil_of_length_eq_zero hlength.symm)
    have hresponded : (⟨messages, .asking⟩ : Drive).advance ctx turn (.completion (.ok response)) =
        some (⟨messages ++ [Message.assistant response.content], .calling response []⟩,
          Record.journal (.llmResponse turn.agent ctx.backend response) ::
            (response.content.filterMap ContentBlock.asText).map (fun text => Record.event (.assistantText turn.agent text)) ++
              [Record.event (.costReport ctx.backend)] ++ []) := by
      simp only [Drive.advance, Drive.completed, Drive.responded, hfalse]
      rfl
    rw [asksAgain_cons hresponded (by rw [List.append_nil]; exact responded_requests turn.agent ctx.backend response)]
    exact asksAgain_calls houtputs [] _ (by rw [List.length_nil, Nat.zero_add, hlength])
  constructor
  · intro h
    obtain ⟨outputs, hlength⟩ : ∃ outputs : List (String × ToolOutput), outputs.length = response.toolCalls.length :=
      ⟨List.replicate response.toolCalls.length ("", .ok ""), List.length_replicate⟩
    exact (hiff mockCtx ⟨0, .topLevel, 0, 0⟩ [] outputs hlength).mp (h _ _ _ _ hlength)
  · intro h ctx turn messages outputs hlength
    exact (hiff ctx turn messages outputs hlength).mpr h

end Drive

namespace OutputKind

variable {serde : SerdeJson} {kind : OutputKind}

theorem toolCalls_of_parseParts {parts : List Json} {blocks : List ContentBlock}
    (h : kind.parseParts parts = .ok blocks) : blocks.filterMap ContentBlock.asToolCall = [] := by
  induction parts generalizing blocks with
  | nil =>
      cases h
      rfl
  | cons part parts ih =>
      rw [parseParts] at h
      split at h
      · split at h
        · obtain ⟨more, hmore, rfl⟩ := map_eq_ok.mp h
          rw [List.filterMap_cons_none rfl]
          exact ih hmore
        · cases h
      · exact ih h

theorem sawFunctionCall_of_parseOutput {output : List Json} {blocks : List ContentBlock}
    (h : kind.parseOutput serde output = .ok blocks) (hcalls : blocks.filterMap ContentBlock.asToolCall ≠ []) :
    sawFunctionCall output = true := by
  induction output generalizing blocks with
  | nil =>
      cases h
      exact absurd rfl hcalls
  | cons item items ih =>
      obtain ⟨head, hhead, h⟩ := bind_eq_ok.mp h
      obtain ⟨more, hmore, h⟩ := bind_eq_ok.mp h
      cases h
      rw [sawFunctionCall, List.any_cons, Bool.or_eq_true]
      by_cases htype : item.str "type" = some "function_call"
      · exact .inl (decide_eq_true htype)
      · refine .inr (ih hmore ?_)
        have hnone : head.filterMap ContentBlock.asToolCall = [] := by
          rw [parseItem.eq_def] at hhead
          split at hhead
          · exact toolCalls_of_parseParts hhead
          · exact absurd ‹_› htype
          · cases hhead
            rfl
        rwa [List.filterMap_append, hnone, List.nil_append] at hcalls

theorem stopReason_of_parseOutput {output : List Json} {blocks : List ContentBlock} {response : Json}
    (h : kind.parseOutput serde output = .ok blocks) (hcalls : blocks.filterMap ContentBlock.asToolCall ≠ []) :
    kind.stopReason response output = .toolUse := by
  rw [stopReason, if_pos (sawFunctionCall_of_parseOutput h hcalls)]

end OutputKind

theorem OpenaiResponses.stopReason_of_toolCalls {serde : SerdeJson} {value : Json} {response : CompletionResponse}
    (h : parseResponse serde value = .ok response) (hcalls : response.toolCalls ≠ []) :
    response.stopReason = .toolUse := by
  obtain ⟨output, -, h⟩ := bind_eq_ok.mp h
  obtain ⟨content, hcontent, h⟩ := bind_eq_ok.mp h
  cases h
  exact OutputKind.stopReason_of_parseOutput hcontent hcalls

theorem OpenaiWs.stopReason_of_toolCalls {serde : SerdeJson} {event : Json} {response : CompletionResponse}
    (h : parseResponseDone serde event = .ok response) (hcalls : response.toolCalls ≠ []) :
    response.stopReason = .toolUse := by
  obtain ⟨value, -, h⟩ := bind_eq_ok.mp h
  obtain ⟨output, -, h⟩ := bind_eq_ok.mp h
  obtain ⟨content, hcontent, h⟩ := bind_eq_ok.mp h
  cases h
  exact OutputKind.stopReason_of_parseOutput hcontent hcalls

theorem Local.stopReason_iff {serde : SerdeJson} {text : String} {response : CompletionResponse}
    (h : Backend.parseValue serde "response body" (parseResponse serde) text = .ok response) :
    response.stopReason = .toolUse ↔ finishReason serde text = some "tool_calls" := by
  rw [Backend.parseValue] at h
  split at h
  · rename_i value hvalue
    obtain ⟨choice, hchoice, h⟩ := bind_eq_ok.mp h
    obtain ⟨message, -, h⟩ := bind_eq_ok.mp h
    obtain ⟨calls, -, h⟩ := bind_eq_ok.mp h
    cases h
    rw [finishReason, hvalue]
    dsimp only
    rw [ok_of_orMalformed hchoice, Option.bind_some, stopReason.eq_def]
    split
    · rename_i hfinish
      simp [hfinish]
    · rename_i hfinish
      simp [hfinish]
    · rename_i hother _
      simpa using hother
  · cases h

/-- Of a response with tool calls the turn goes on, unless it is a chat completion that
gives another reason for its end than `tool_calls`. -/
theorem Backend.continues_iff_finishReason {serde : SerdeJson} {backend : Backend} (hbackend : backend ≠ .anthropic)
    {text : String} {response : CompletionResponse} (hparse : backend.parse serde text = .ok response)
    (hcalls : response.toolCalls ≠ []) :
    Continues response ↔ (backend = .chatCompletions → finishReason serde text = some "tool_calls") := by
  rw [continues_iff hcalls]
  cases backend with
  | anthropic => exact absurd rfl hbackend
  | openaiResponses =>
      obtain ⟨tree, -, hvalue⟩ := ok_of_parseValue hparse
      simp [OpenaiResponses.stopReason_of_toolCalls hvalue hcalls]
  | openaiWs =>
      obtain ⟨tree, -, hvalue⟩ := ok_of_parseValue hparse
      simp [OpenaiWs.stopReason_of_toolCalls hvalue hcalls]
  | chatCompletions => simp [Local.stopReason_iff hparse]

/-- A chat completion with one call and this `finish_reason`. -/
def oneCall (finish : String) : Json :=
  .object [("choices", .array [.object [("finish_reason", .string finish),
    ("message", .object [("content", .null), ("tool_calls", .array [.object [("id", .string "call_1"),
      ("function", .object [("name", .string "Bash"), ("arguments", .string "\x7b\x7d")])]])])]])]

def oneCallText (finish : String) : String :=
  "\x7b\"choices\":[\x7b\"finish_reason\":\"" ++ finish ++ "\",\"message\":\x7b\"content\":null,\"tool_calls\":" ++
    "[\x7b\"id\":\"call_1\",\"function\":\x7b\"name\":\"Bash\",\"arguments\":\"\x7b\x7d\"\x7d\x7d]\x7d\x7d]\x7d"

def oneCallReader : SerdeJson where
  tree text :=
    if text = oneCallText "tool_calls" then .ok (oneCall "tool_calls")
    else if text = oneCallText "stop" then .ok (oneCall "stop")
    else if text = "\x7b\x7d" then .ok (.object [])
    else .error "expected value"
  value := id

def oneCallResponse (stopReason : StopReason) : CompletionResponse :=
  ⟨[.toolUse "call_1" "Bash" (.object [])], stopReason, ⟨0, 0⟩⟩

theorem fromStr_oneCall : oneCallReader.fromStr (oneCallText "tool_calls") = .ok (oneCall "tool_calls") ∧
    oneCallReader.fromStr (oneCallText "stop") = .ok (oneCall "stop") := by
  rw [SerdeJson.fromStr, SerdeJson.fromStr, oneCallReader]
  dsimp only
  rw [if_pos rfl, if_neg (by decide), if_pos rfl]
  exact ⟨rfl, rfl⟩

theorem parse_oneCall : Backend.parse oneCallReader .chatCompletions (oneCallText "tool_calls") =
      .ok (oneCallResponse .toolUse) ∧
    Backend.parse oneCallReader .chatCompletions (oneCallText "stop") = .ok (oneCallResponse .endTurn) := by
  rw [Backend.parse, Backend.parseValue, Backend.parseValue, fromStr_oneCall.1, fromStr_oneCall.2]
  exact ⟨rfl, rfl⟩

theorem toolCalls_oneCall (stopReason : StopReason) : (oneCallResponse stopReason).toolCalls ≠ [] :=
  List.cons_ne_nil _ _

theorem continues_oneCall : Continues (oneCallResponse .toolUse) := by
  have hchat : Backend.chatCompletions ≠ .anthropic := by decide
  refine (Backend.continues_iff_finishReason hchat parse_oneCall.1 (toolCalls_oneCall _)).mpr fun _ => ?_
  rw [finishReason, fromStr_oneCall.1]
  rfl

/-- The same call under the reason `stop`: its result is the end of the turn. -/
theorem stopped_call_ends_turn :
    ¬ ∀ (serde : SerdeJson) (backend : Backend) (text : String) (response : CompletionResponse),
      backend ≠ .anthropic → backend.parse serde text = .ok response → response.toolCalls ≠ [] →
      finishReason serde text ≠ some "length" → Continues response := by
  intro h
  have hfinish : finishReason oneCallReader (oneCallText "stop") = some "stop" := by
    rw [finishReason, fromStr_oneCall.2]
    rfl
  have hcontinues := h oneCallReader .chatCompletions (oneCallText "stop") (oneCallResponse .endTurn) (by decide)
    parse_oneCall.2 (toolCalls_oneCall _) (by rw [hfinish]; decide)
  have hstop : (oneCallResponse .endTurn).stopReason = .toolUse :=
    (continues_iff (toolCalls_oneCall _)).mp hcontinues
  cases hstop

end Silo.Llm
