import Silo.Lib.Machine
import Silo.Harness.Exchange

namespace Silo.Harness.Dialogue

open Silo.Lib Silo.Core

/-- One conversation of a session: the top-level loop with all its turns, or
the single turn of a subagent. -/
inductive Party
  | topLevel (loop : TopLevel)
  | subagent (turn : Turn) (drive : Drive)

structure State where
  party : Party
  log : List Record

/-- What the outside decides: the answers of the shutdown signal, the user's
input, and the replies to the conversation loop. -/
inductive Act
  | check (found : Option (Option String))
  | wait (message : Option String)
  | prompt (text : String) (generation : Nat) (found : Option (Option String))
  | inputError (error : FrontendError)
  | reply (reply : Reply)
  | turnEnded (found : Option (Option String))
  | interruptDone (error : Option FrontendError)

def State.record (s : State) (records : List Record) (party : Party) : State :=
  ⟨party, s.log ++ records⟩

def State.loop (s : State) (step : TopLevel × List Record) : State :=
  s.record step.2 (.topLevel step.1)

def next (ctx : SessionCtx) (s : State) (act : Act) : Option State :=
  match s.party with
  | .subagent turn d =>
    match act with
    | .reply r => (d.advance ctx turn r).map fun step => s.record step.2 (.subagent turn step.1)
    | _ => none
  | .topLevel t =>
    match t.stage, act with
    | .head, .check found => some (s.loop (t.atHead found))
    | .input, .wait message => some (s.loop (t.finish (.normal message) []))
    | .input, .prompt text generation found => some (s.loop (t.prompted ctx text generation found))
    | .input, .inputError error => some (s.loop (t.inputFailed error))
    | .driving turn stage, .reply r =>
      (Drive.advance ctx turn ⟨t.messages, stage⟩ r).map fun step =>
        s.loop ({ t with messages := step.1.messages, stage := .driving turn step.1.stage }, step.2)
    | .driving _ (.ended result), .turnEnded found => some (s.loop (t.turnEnded ctx found result))
    | .interrupting, .interruptDone error => some (s.loop (t.interruptDone error))
    | _, _ => none

def initial (s : State) : Prop :=
  s.log = [] ∧
    (s.party = .topLevel .start ∨
      ∃ turn prompt, s.party = .subagent turn (.start [.userText prompt]))

def machine (ctx : SessionCtx) : Machine State Act := ⟨initial, next ctx⟩

/-- What the conversation looks like at each stage of its loop. A turn that
ends the session may leave tool uses open. -/
def StageOk (messages : List Message) : Stage → Prop
  | .top | .asking => lastRole messages = some .user
  | .calling response results | .running response results =>
    messages.getLast? = some (.assistant response.content) ∧ Answering response results
  | .ended (.ok (.completed _)) | .ended (.ok .interrupted) | .ended (.ok (.llmFailed _)) =>
    Settled messages
  | .ended _ => True

structure DriveOk (d : Drive) : Prop where
  opened : Opened d.messages
  stage : StageOk d.messages d.stage

def requests (records : List Record) : List CompletionRequest := records.filterMap Record.request

def RequestsOk (records : List Record) : Prop := ∀ q ∈ requests records, WellFormed q.messages

structure AdvanceOk (step : Advance) : Prop where
  drive : DriveOk step.1
  requests : RequestsOk step.2

theorem requestsOk_of_nil {records : List Record} (h : requests records = []) :
    RequestsOk records := by
  intro q hq
  rw [h] at hq
  cases hq

theorem requests_append (a b : List Record) : requests (a ++ b) = requests a ++ requests b :=
  List.filterMap_append

theorem requestsOk_append {a b : List Record} (ha : RequestsOk a) (hb : RequestsOk b) :
    RequestsOk (a ++ b) := by
  intro q hq
  rw [requests_append, List.mem_append] at hq
  exact hq.elim (ha q) (hb q)

variable {ctx : SessionCtx} {turn : Turn} {d : Drive}

theorem advanceOk_stop (h : Opened d.messages) {outcome : TurnOutcome} {records : List Record}
    (hs : Settled d.messages) (hr : requests records = []) : AdvanceOk (d.stop outcome records) := by
  refine ⟨⟨h, ?_⟩, requestsOk_of_nil hr⟩
  cases outcome with
  | completed | interrupted | llmFailed => exact hs
  | shutdownRequested | scriptFailed => trivial

theorem endOfTurn_requests (d : Drive) (response : CompletionResponse) :
    requests (d.endOfTurn turn response).2 = [] := by
  simp only [Drive.endOfTurn, Drive.stop, requests_append]
  split <;> split <;> rfl

theorem advanceOk_endOfTurn (h : Opened d.messages) (hs : Settled d.messages)
    (response : CompletionResponse) : AdvanceOk (d.endOfTurn turn response) :=
  advanceOk_stop h hs (endOfTurn_requests d response)

theorem advanceOk_cancelCalls (h : Opened d.messages) {response : CompletionResponse}
    {results : List ContentBlock} (hlast : d.messages.getLast? = some (.assistant response.content))
    (ha : Answering response results) : AdvanceOk (d.cancelCalls turn response results) :=
  advanceOk_stop (opened_results h hlast ha.cancel) (settled_of_user (lastRole_snoc _ _)) rfl

theorem advanceOk_nextCall (h : Opened d.messages) {response : CompletionResponse}
    {results : List ContentBlock} (hlast : d.messages.getLast? = some (.assistant response.content))
    (ha : Answering response results) : AdvanceOk (d.nextCall turn response results) := by
  rw [Drive.nextCall]
  split
  · exact ⟨⟨h, hlast, ha⟩, requestsOk_of_nil rfl⟩
  · have hopened := opened_results h hlast (ha.full (by omega))
    split
    · exact ⟨⟨hopened, lastRole_snoc _ _⟩, requestsOk_of_nil rfl⟩
    · exact advanceOk_endOfTurn hopened (settled_of_user (lastRole_snoc _ _)) response

theorem advanceOk_atTop (h : Opened d.messages) (hlast : lastRole d.messages = some .user)
    (found : Checkpoint) : AdvanceOk (d.atTop ctx turn found) := by
  cases found with
  | shutdown | interrupted => exact advanceOk_stop h (settled_of_user hlast) rfl
  | clear =>
      refine ⟨⟨h, hlast⟩, ?_⟩
      intro q hq
      cases List.mem_singleton.mp hq
      exact wellFormed_of_opened h hlast

theorem responded_requests (agent : AgentId) (backend : String) (response : CompletionResponse) :
    requests (Record.journal (.llmResponse agent backend response) ::
      (response.content.filterMap ContentBlock.asText).map
        (fun text => Record.event (.assistantText agent text)) ++ [Record.event (.costReport backend)]) = [] := by
  have htexts : Record.request ∘ (fun text => .event (.assistantText agent text)) =
      fun _ => none := rfl
  rw [requests_append, requests, List.filterMap_cons_none rfl, List.filterMap_map, htexts]
  simp [requests, Record.request]

theorem advanceOk_responded (h : Opened d.messages) (hlast : lastRole d.messages = some .user)
    (response : CompletionResponse) : AdvanceOk (d.responded ctx turn response) := by
  have hopened := opened_assistant h hlast response.content
  have hrecords := requestsOk_of_nil (responded_requests turn.agent ctx.backend response)
  rw [Drive.responded]
  by_cases hcalls : response.toolCalls.isEmpty = true
  · have hsettled : Settled (d.messages ++ [Message.assistant response.content]) := by
      intro m hm _
      rw [List.getLast?_concat] at hm
      cases hm
      rw [List.isEmpty_iff] at hcalls
      exact congrArg (List.map ToolCall.id) hcalls
    have hend : AdvanceOk (Drive.endOfTurn turn
        { d with messages := d.messages ++ [Message.assistant response.content] } response) :=
      advanceOk_endOfTurn hopened hsettled response
    simp only [hcalls, if_true]
    exact ⟨hend.drive, requestsOk_append hrecords hend.requests⟩
  · simp only [hcalls]
    exact ⟨⟨hopened, List.getLast?_concat, answering_nil response⟩,
      requestsOk_append hrecords (requestsOk_of_nil rfl)⟩

theorem advanceOk_completed (h : Opened d.messages) (hlast : lastRole d.messages = some .user)
    (result : Except LlmError CompletionResponse) : AdvanceOk (d.completed ctx turn result) := by
  have hs := settled_of_user hlast
  cases result with
  | ok response => exact advanceOk_responded h hlast response
  | error error => cases error <;> exact advanceOk_stop h hs rfl

theorem advanceOk_aborted (h : Opened d.messages) (hlast : lastRole d.messages = some .user)
    (reason : AbortReason) : AdvanceOk (d.aborted turn reason) := by
  cases reason <;> exact advanceOk_stop h (settled_of_user hlast) rfl

theorem advanceOk_leave (h : Opened d.messages) {result : Except HarnessError TurnOutcome}
    (hr : StageOk d.messages (.ended result)) : AdvanceOk ({ d with stage := .ended result }, []) :=
  ⟨⟨h, hr⟩, requestsOk_of_nil rfl⟩

theorem advanceOk_atCall (h : Opened d.messages) {response : CompletionResponse}
    {results : List ContentBlock} (hlast : d.messages.getLast? = some (.assistant response.content))
    (ha : Answering response results) (call : ToolCall) (found : Checkpoint) :
    AdvanceOk (d.atCall turn response results call found) := by
  cases found with
  | shutdown => exact advanceOk_leave h trivial
  | interrupted => exact advanceOk_cancelCalls h hlast ha
  | clear => exact ⟨⟨h, hlast, ha⟩, requestsOk_of_nil rfl⟩

theorem advanceOk_toolDone (h : Opened d.messages) {response : CompletionResponse}
    {results : List ContentBlock} (hlast : d.messages.getLast? = some (.assistant response.content))
    (ha : Answering response results) {call : ToolCall}
    (hcall : response.toolCalls[results.length]? = some call)
    (result : Except HarnessError ToolDisposition) :
    AdvanceOk (d.toolDone turn response results call result) := by
  cases result with
  | error error => exact advanceOk_leave h trivial
  | ok disposition =>
      cases disposition with
      | shutdown => exact advanceOk_leave h trivial
      | interrupted => exact advanceOk_cancelCalls h hlast ha
      | scriptFailed message => exact advanceOk_leave h trivial
      | output owner output =>
          have hnext : AdvanceOk (d.nextCall turn response _) :=
            advanceOk_nextCall h hlast (ha.snoc hcall output.content output.isError)
          refine ⟨hnext.drive, ?_⟩
          exact requestsOk_append (a := [.journal (.toolExec turn.agent owner call output),
            .event (.toolResult turn.agent call.id call.name output)]) (requestsOk_of_nil rfl)
            hnext.requests

theorem advanceOk_advance (h : DriveOk d) {reply : Reply} {step : Advance}
    (hn : d.advance ctx turn reply = some step) : AdvanceOk step := by
  obtain ⟨hopened, hstage⟩ := h
  unfold Drive.advance at hn
  split at hn
  case h_1 found hs =>
    cases hn
    rw [hs] at hstage
    exact advanceOk_atTop hopened hstage found
  case h_2 reason hs =>
    cases hn
    rw [hs] at hstage
    exact advanceOk_aborted hopened hstage reason
  case h_3 result hs =>
    cases hn
    rw [hs] at hstage
    exact advanceOk_completed hopened hstage result
  case h_4 response results found hs =>
    obtain ⟨call, hcall, rfl⟩ := Option.map_eq_some_iff.mp hn
    rw [hs] at hstage
    exact advanceOk_atCall hopened hstage.1 hstage.2 call found
  case h_5 response results result hs =>
    obtain ⟨call, hcall, rfl⟩ := Option.map_eq_some_iff.mp hn
    rw [hs] at hstage
    exact advanceOk_toolDone hopened hstage.1 hstage.2 hcall result
  case h_6 => cases hn

def PartyOk : Party → Prop
  | .subagent _ d => DriveOk d
  | .topLevel t =>
    match t.stage with
    | .driving _ stage => DriveOk ⟨t.messages, stage⟩
    | .over _ => True
    | _ => Opened t.messages ∧ Settled t.messages

structure Inv (s : State) : Prop where
  party : PartyOk s.party
  requests : RequestsOk s.log

theorem inv_record {s : State} (h : Inv s) {party : Party} {records : List Record}
    (hp : PartyOk party) (hr : RequestsOk records) : Inv (s.record records party) :=
  ⟨hp, requestsOk_append h.requests hr⟩

theorem inv_initial {s : State} (h : initial s) : Inv s := by
  obtain ⟨hlog, hparty⟩ := h
  refine ⟨?_, by rw [hlog]; exact requestsOk_of_nil rfl⟩
  rcases hparty with hp | ⟨turn, prompt, hp⟩
  · rw [hp]
    exact ⟨opened_nil, by simp [Settled, TopLevel.start]⟩
  · rw [hp]
    refine ⟨(opened_snoc_iff [] _).mpr ⟨opened_nil, rfl, ?_⟩, rfl⟩
    intro last hlast
    cases hlast

theorem partyOk_turnEnded {t : TopLevel} {result : Except HarnessError TurnOutcome}
    (h : DriveOk ⟨t.messages, .ended result⟩) (found : Option (Option String)) :
    PartyOk (.topLevel (t.turnEnded ctx found result).1) := by
  cases result with
  | error error => trivial
  | ok outcome =>
      cases outcome with
      | completed | interrupted => exact ⟨h.opened, h.stage⟩
      | llmFailed message =>
          simp only [TopLevel.turnEnded]
          split
          · trivial
          · exact ⟨h.opened, h.stage⟩
      | shutdownRequested | scriptFailed => trivial

theorem turnEnded_requests (t : TopLevel) (result : Except HarnessError TurnOutcome)
    (found : Option (Option String)) : requests (t.turnEnded ctx found result).2 = [] := by
  cases result with
  | error error => rfl
  | ok outcome =>
      cases outcome with
      | llmFailed message =>
          simp only [TopLevel.turnEnded]
          split <;> rfl
      | completed | interrupted | shutdownRequested | scriptFailed => rfl

theorem inv_step {s t : State} {act : Act} (h : Inv s) (hn : next ctx s act = some t) : Inv t := by
  have hp := h.party
  rw [next] at hn
  split at hn
  case h_1 turn d hparty =>
    rw [hparty] at hp
    split at hn
    · obtain ⟨step, hstep, rfl⟩ := Option.map_eq_some_iff.mp hn
      have hok := advanceOk_advance hp hstep
      exact inv_record h hok.drive hok.requests
    · cases hn
  case h_2 loop hparty =>
    rw [hparty, PartyOk] at hp
    split at hn
    case h_1 found hstage =>
      cases hn
      rw [hstage] at hp
      cases found with
      | none => exact inv_record h hp (requestsOk_of_nil rfl)
      | some message => exact inv_record h trivial (requestsOk_of_nil rfl)
    case h_2 message hstage =>
      cases hn
      exact inv_record h trivial (requestsOk_of_nil rfl)
    case h_3 text generation found hstage =>
      cases hn
      rw [hstage] at hp
      cases found with
      | none =>
          obtain ⟨hopened, hlast⟩ := opened_prompt hp.1 hp.2 text
          refine inv_record h ⟨hopened, hlast⟩ (requestsOk_of_nil ?_)
          simp only [TopLevel.prompted]
          split <;> rfl
      | some message => exact inv_record h trivial (requestsOk_of_nil rfl)
    case h_4 error hstage =>
      cases hn
      cases error <;> exact inv_record h trivial (requestsOk_of_nil rfl)
    case h_5 turn stage r hstage =>
      obtain ⟨step, hstep, rfl⟩ := Option.map_eq_some_iff.mp hn
      rw [hstage] at hp
      have hok := advanceOk_advance hp hstep
      exact inv_record h hok.drive hok.requests
    case h_6 turn result found hstage =>
      cases hn
      rw [hstage] at hp
      exact inv_record h (partyOk_turnEnded hp found)
        (requestsOk_of_nil (turnEnded_requests loop result found))
    case h_7 error hstage =>
      cases hn
      rw [hstage] at hp
      refine inv_record h hp (requestsOk_of_nil ?_)
      cases error <;> rfl
    case h_8 => cases hn

/-- Whatever the user, the model, the tools and the interrupts do, every
request the loop builds is a conversation a strict backend accepts. -/
theorem drive_inner_requests_wellFormed {s : State} (h : (machine ctx).Reachable s) :
    ∀ request ∈ requests s.log, WellFormed request.messages := by
  have hinv : Inv s := h.invariant inv_initial fun hi _ hn => inv_step hi hn
  exact hinv.requests

def opening : State := ⟨.topLevel .start, []⟩

theorem opening_initial (ctx : SessionCtx) : (machine ctx).init opening := ⟨rfl, .inl rfl⟩

def mockCtx : SessionCtx := ⟨"mock", "headless", [], "", 100, id⟩

def listFiles : ContentBlock := .toolUse "t1" "Bash" .null

def interruptedThenPrompted : List Act :=
  [.check none, .prompt "start" 0 none, .reply (.checkpoint .clear),
   .reply (.completion (.ok ⟨[listFiles], .toolUse, ⟨1, 1⟩⟩)), .reply (.checkpoint .clear),
   .reply (.disposition (.ok .interrupted)), .turnEnded none, .interruptDone none,
   .check none, .prompt "carry on" 1 none, .reply (.checkpoint .clear)]

theorem drive_inner_requests_wellFormed_interrupted :
    ∃ s, (machine mockCtx).Reachable s ∧ (requests s.log).length = 2 ∧
      ∀ request ∈ requests s.log, WellFormed request.messages := by
  obtain ⟨s, hr, hp⟩ := Machine.exists_of_run interruptedThenPrompted
    (fun s => (requests s.log).length = 2) (opening_initial mockCtx) (by decide)
  exact ⟨s, hr, of_decide_eq_true hp, drive_inner_requests_wellFormed hr⟩

end Silo.Harness.Dialogue
