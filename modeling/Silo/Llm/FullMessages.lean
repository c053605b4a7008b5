import Silo.Llm.Messages

namespace Silo.Harness.Dialogue

open Silo.Lib Silo.Core

def Full (messages : List Message) : Prop := ∀ m ∈ messages, m.content ≠ []

theorem full_snoc {messages : List Message} {m : Message} (h : Full messages) (hm : m.content ≠ []) :
    Full (messages ++ [m]) := by
  intro n hn
  obtain hn | hn := List.mem_append.mp hn
  · exact h n hn
  · obtain rfl := List.mem_singleton.mp hn
    exact hm

theorem full_pushUserPrompt {messages : List Message} (h : Full messages) (text : String) :
    Full (pushUserPrompt messages text) := by
  rw [pushUserPrompt]
  split
  · apply full_snoc
    · intro m hm
      exact h m (List.dropLast_subset _ hm)
    · simp
  · exact full_snoc h (by simp [Message.userText])

variable {ctx : SessionCtx} {turn : Turn} {d : Drive} {reply : Reply} {response : CompletionResponse}
  {results : List ContentBlock}

inductive Adds (d : Drive) : Reply → List Message → Prop
  | nothing {reply : Reply} : Adds d reply d.messages
  | answer (response : CompletionResponse) :
      Adds d (.completion (.ok response)) (d.messages ++ [Message.assistant response.content])
  | results {reply : Reply} {response : CompletionResponse} {done results : List ContentBlock}
      (hstage : d.stage = .calling response done ∨ d.stage = .running response done)
      (hcalls : response.toolCalls ≠ []) (hresults : results ≠ []) :
      Adds d reply (d.messages ++ [⟨.user, results⟩])

structure Told (d : Drive) (reply : Reply) (step : Advance) : Prop where
  adds : Adds d reply step.1.messages
  asks : ∀ q ∈ requests step.2, q.messages = d.messages

theorem asks_of_no_requests {records : List Record} (h : requests records = []) :
    ∀ q ∈ requests records, q.messages = d.messages := by
  intro q hq
  rw [h] at hq
  cases hq

theorem told_nothing {step : Advance} (hmessages : step.1.messages = d.messages) (hasks : requests step.2 = []) :
    Told d reply step :=
  ⟨hmessages ▸ .nothing, asks_of_no_requests hasks⟩

section Calls

variable {call : ToolCall} (hstage : d.stage = .calling response results ∨ d.stage = .running response results)
  (hcall : response.toolCalls[results.length]? = some call)
include hstage hcall

theorem adds_pushResults {more : List ContentBlock} (hmore : more ≠ []) :
    Adds d reply (d.pushResults more).messages := by
  refine .results hstage ?_ hmore
  intro hnil
  rw [hnil] at hcall
  cases hcall

theorem told_cancelCalls : Told d reply (d.cancelCalls turn response results) := by
  refine ⟨adds_pushResults hstage hcall ?_, asks_of_no_requests rfl⟩
  intro hnil
  have hlt := (List.getElem?_eq_some_iff.mp hcall).1
  have hlength := congrArg List.length hnil
  simp at hlength
  omega

theorem told_nextCall {more : List ContentBlock} (hmore : more ≠ []) :
    Told d reply (d.nextCall turn response more) := by
  rw [Drive.nextCall]
  split
  · exact told_nothing rfl rfl
  · have hpushed : Adds d reply (d.pushResults more).messages := adds_pushResults hstage hcall hmore
    split
    · exact ⟨hpushed, asks_of_no_requests rfl⟩
    · exact ⟨hpushed, asks_of_no_requests (endOfTurn_requests _ response)⟩

theorem told_atCall (found : Checkpoint) : Told d reply (d.atCall turn response results call found) := by
  cases found with
  | shutdown | clear => exact told_nothing rfl rfl
  | interrupted => exact told_cancelCalls hstage hcall

theorem told_toolDone (result : Except HarnessError ToolDisposition) :
    Told d reply (d.toolDone turn response results call result) := by
  cases result with
  | error error => exact told_nothing rfl rfl
  | ok disposition =>
      cases disposition with
      | shutdown | scriptFailed => exact told_nothing rfl rfl
      | interrupted => exact told_cancelCalls hstage hcall
      | output owner output =>
          have hnext : Told d reply (d.nextCall turn response
              (results ++ [.toolResult call.id output.content output.isError])) :=
            told_nextCall hstage hcall (by simp)
          exact ⟨hnext.adds, hnext.asks⟩

end Calls

theorem told_atTop (found : Checkpoint) : Told d reply (d.atTop ctx turn found) := by
  cases found with
  | shutdown | interrupted => exact told_nothing rfl rfl
  | clear =>
      refine ⟨.nothing, ?_⟩
      intro q hq
      cases List.mem_singleton.mp hq
      rfl

theorem told_completed (result : Except LlmError CompletionResponse) :
    Told d (.completion result) (d.completed ctx turn result) := by
  cases result with
  | error error => cases error <;> exact told_nothing rfl rfl
  | ok response =>
      show Told d (.completion (.ok response)) (d.responded ctx turn response)
      have hrecords := responded_requests turn.agent ctx.backend response
      rw [Drive.responded]
      split
      next hstep =>
      split at hstep
      · cases hstep
        refine ⟨.answer response, asks_of_no_requests ?_⟩
        rw [requests_append, hrecords]
        exact endOfTurn_requests { d with messages := d.messages ++ [Message.assistant response.content] } response
      · cases hstep
        refine ⟨.answer response, asks_of_no_requests ?_⟩
        rw [requests_append, hrecords]
        rfl

theorem told_advance {step : Advance} (hn : d.advance ctx turn reply = some step) : Told d reply step := by
  rw [Drive.advance.eq_def] at hn
  split at hn
  · cases hn
    exact told_atTop _
  · next reason _ =>
      cases hn
      cases reason <;> exact told_nothing rfl rfl
  · cases hn
    exact told_completed _
  · next hstage =>
      obtain ⟨call, hcall, rfl⟩ := Option.map_eq_some_iff.mp hn
      exact told_atCall (.inl hstage) hcall _
  · next hstage =>
      obtain ⟨call, hcall, rfl⟩ := Option.map_eq_some_iff.mp hn
      exact told_toolDone (.inr hstage) hcall _
  · cases hn

def Reply.Full : Reply → Prop
  | .completion (.ok response) => response.content ≠ []
  | _ => True

theorem Adds.full {messages : List Message} (ha : Adds d reply messages) (h : Full d.messages)
    (hreply : Reply.Full reply) : Full messages := by
  cases ha with
  | nothing => exact h
  | answer response => exact full_snoc h hreply
  | results hstage hcalls hresults => exact full_snoc h hresults

structure AdvanceFull (step : Advance) : Prop where
  messages : Full step.1.messages
  requests : ∀ q ∈ requests step.2, Full q.messages

theorem advanceFull_advance {step : Advance} (h : Full d.messages) (hreply : Reply.Full reply)
    (hn : d.advance ctx turn reply = some step) : AdvanceFull step := by
  have htold := told_advance hn
  refine ⟨htold.adds.full h hreply, ?_⟩
  intro q hq
  rw [htold.asks q hq]
  exact h

def Party.messages : Party → List Message
  | .topLevel t => t.messages
  | .subagent _ d => d.messages

def Party.Drives : Party → Drive → Prop
  | .topLevel t, d => ∃ turn, t.stage = .driving turn d.stage ∧ d.messages = t.messages
  | .subagent _ driven, d => driven = d

theorem turnEnded_messages (t : TopLevel) (found : Option (Option String))
    (result : Except HarnessError TurnOutcome) : (t.turnEnded ctx found result).1.messages = t.messages := by
  cases result with
  | error error => rfl
  | ok outcome =>
      cases outcome with
      | llmFailed message =>
          simp only [TopLevel.turnEnded]
          split <;> rfl
      | _ => rfl

section Keeps

variable {p : List Message → Prop} {s t : State} {act : Act}

/-- All conversations are of a kind, the one that goes on and those of the requests. -/
structure Keeps (p : List Message → Prop) (s : State) : Prop where
  messages : p s.party.messages
  requests : ∀ q ∈ requests s.log, p q.messages

theorem Keeps.record (h : Keeps p s) {party : Party} {records : List Record} (hp : p party.messages)
    (hr : ∀ q ∈ Dialogue.requests records, p q.messages) : Keeps p (s.record records party) := by
  refine ⟨hp, ?_⟩
  intro q hq
  rw [State.record, requests_append] at hq
  obtain hq | hq := List.mem_append.mp hq
  · exact h.requests q hq
  · exact hr q hq

theorem Keeps.quiet (h : Keeps p s) {party : Party} {records : List Record} (hp : p party.messages)
    (hr : Dialogue.requests records = []) : Keeps p (s.record records party) := by
  apply h.record hp
  intro q hq
  rw [hr] at hq
  cases hq

/-- What prompts keep, and the replies to a drive keep, every step keeps. -/
theorem Keeps.next (h : Keeps p s) (hprompt : ∀ messages text, p messages → p (pushUserPrompt messages text))
    (hdrive : ∀ turn d reply step, act = .reply reply → s.party.Drives d → p d.messages →
      d.advance ctx turn reply = some step → p step.1.messages ∧ ∀ q ∈ Dialogue.requests step.2, p q.messages)
    (hn : Dialogue.next ctx s act = some t) : Keeps p t := by
  have hp := h.messages
  rw [next.eq_def] at hn
  split at hn
  · next turn d hparty =>
      rw [hparty] at hp hdrive
      split at hn
      · obtain ⟨step, hstep, rfl⟩ := Option.map_eq_some_iff.mp hn
        obtain ⟨hmessages, hrequests⟩ := hdrive turn d _ step rfl rfl hp hstep
        exact h.record hmessages hrequests
      · cases hn
  · next loop hparty =>
      rw [hparty] at hp hdrive
      split at hn
      · next found _ =>
          cases hn
          cases found <;> exact h.quiet hp rfl
      · cases hn
        exact h.quiet hp rfl
      · next text generation found _ =>
          cases hn
          cases found with
          | none =>
              refine h.quiet (hprompt loop.messages text hp) ?_
              simp only [TopLevel.prompted]
              split <;> rfl
          | some message => exact h.quiet hp rfl
      · next error _ =>
          cases hn
          cases error <;> exact h.quiet hp rfl
      · next turn stage reply hstage =>
          obtain ⟨step, hstep, rfl⟩ := Option.map_eq_some_iff.mp hn
          obtain ⟨hmessages, hrequests⟩ := hdrive turn ⟨loop.messages, stage⟩ reply step rfl ⟨turn, hstage, rfl⟩ hp hstep
          exact h.record hmessages hrequests
      · next result found _ =>
          cases hn
          refine h.quiet ?_ (turnEnded_requests loop result found)
          rw [Party.messages, turnEnded_messages]
          exact hp
      · next error _ =>
          cases hn
          refine h.quiet hp ?_
          cases error <;> rfl
      · cases hn

end Keeps

structure FullInv (s : State) : Prop where
  messages : Full s.party.messages
  requests : ∀ q ∈ requests s.log, Full q.messages

def Act.Full : Act → Prop
  | .reply r => Reply.Full r
  | _ => True

theorem fullInv_initial {s : State} (h : initial s) : FullInv s := by
  obtain ⟨hlog, hparty⟩ := h
  refine ⟨?_, ?_⟩
  · obtain hparty | ⟨turn, prompt, hparty⟩ := hparty
    · rw [hparty]
      intro m hm
      cases hm
    · rw [hparty]
      intro m hm
      obtain rfl := List.mem_singleton.mp hm
      simp [Message.userText]
  · intro q hq
    rw [hlog] at hq
    cases hq

theorem FullInv.step {s t : State} {act : Act} (h : FullInv s) (hact : Act.Full act)
    (hn : next ctx s act = some t) : FullInv t := by
  have hkept : Keeps Full t := by
    refine Keeps.next (s := s) ⟨h.messages, h.requests⟩ (fun _ text h => full_pushUserPrompt h text) ?_ hn
    rintro turn d reply step rfl - hp hstep
    have hfull := advanceFull_advance hp hact hstep
    exact ⟨hfull.messages, hfull.requests⟩
  exact ⟨hkept.messages, hkept.requests⟩

end Silo.Harness.Dialogue

namespace Silo.Llm

open Silo.Lib Silo.Core Silo.Harness Silo.Harness.Dialogue

/-- A conversation whose completions are what its backend makes of response texts. Any
completion may fail instead. -/
inductive WireAct
  | other (act : Act)
  | body (text : String)

namespace WireAct

variable (ctx : SessionCtx) (serde : SerdeJson) (backend : Backend)

def completes : Act → Bool
  | .reply (.completion (.ok _)) => true
  | _ => false

def next (s : State) : WireAct → Option State
  | .other act => if completes act then none else Dialogue.next ctx s act
  | .body text => Dialogue.next ctx s (.reply (.completion (backend.parse serde text)))

def machine : Machine State WireAct := ⟨Dialogue.initial, next ctx serde backend⟩

/-- A text that the backend accepts has a block that it keeps. -/
def Carries : WireAct → Prop
  | .other _ => True
  | .body text => ∀ response, backend.parse serde text = .ok response → backend.carries serde text = true

variable {ctx serde backend} {s t : State} {act : WireAct}

theorem full_of_not_completes {act : Act} (h : ¬ completes act = true) : Act.Full act := by
  cases act with
  | reply r =>
      cases r with
      | completion result =>
          cases result with
          | ok response => exact absurd rfl h
          | error error => trivial
      | _ => trivial
  | _ => trivial

theorem fullInv_next (h : FullInv s) (hact : act.Carries serde backend)
    (hn : next ctx serde backend s act = some t) : FullInv t := by
  cases act with
  | other act =>
      rw [next] at hn
      split at hn
      · cases hn
      · next hcompletes => exact h.step (full_of_not_completes hcompletes) hn
  | body text =>
      rw [next] at hn
      refine h.step ?_ hn
      cases hparse : backend.parse serde text with
      | error error => trivial
      | ok response => exact (Backend.carries_of_parse hparse).mpr (hact response hparse)

/-- No request has an empty message as long as every accepted response has a block of a
kind that its backend keeps. -/
theorem requests_have_no_empty_message
    (hr : (machine ctx serde backend).ReachableUnder (fun _ act => act.Carries serde backend) s) :
    ∀ q ∈ requests s.log, ∀ m ∈ q.messages, m.content ≠ [] := by
  have hinv : FullInv s := hr.invariant fullInv_initial fullInv_next
  exact hinv.requests

def respond (fields : List (String × Json)) : Json :=
  .object [("content", .array [.object fields]), ("stop_reason", .string "end_turn")]

def greeting : String :=
  "\x7b\"content\":[\x7b\"type\":\"text\",\"text\":\"hi\"\x7d],\"stop_reason\":\"end_turn\"\x7d"

def thought : String :=
  "\x7b\"content\":[\x7b\"type\":\"thinking\",\"thinking\":\"hm\"\x7d],\"stop_reason\":\"end_turn\"\x7d"

/-- A reader of the two texts. -/
def twoTexts : SerdeJson where
  tree text :=
    if text = greeting then .ok (respond [("type", .string "text"), ("text", .string "hi")])
    else if text = thought then .ok (respond [("type", .string "thinking"), ("thinking", .string "hm")])
    else .error "expected value"
  value := id

def askTwice (text : String) : List WireAct :=
  [.other (.check none), .other (.prompt "start" 0 none), .other (.reply (.checkpoint .clear)), .body text,
    .other (.turnEnded none), .other (.check none), .other (.prompt "go on" 0 none),
    .other (.reply (.checkpoint .clear))]

theorem requests_have_no_empty_message_greeting :
    ∃ s, (machine mockCtx twoTexts .anthropic).ReachableUnder
        (fun _ act => act.Carries twoTexts .anthropic) s ∧
      (requests s.log).length = 2 ∧ ∀ q ∈ requests s.log, ∀ m ∈ q.messages, m.content ≠ [] := by
  obtain ⟨s, hr, hp⟩ := Machine.exists_of_runChecked (M := machine mockCtx twoTexts .anthropic)
    (fun _ act => match act with
      | .other _ => true
      | .body text => Backend.carries twoTexts .anthropic text)
    (askTwice greeting) (fun s => (requests s.log).length = 2) (s := opening) ⟨rfl, .inl rfl⟩
    rfl
  have hr := hr.mono (D := fun _ act => act.Carries twoTexts .anthropic) (by
    intro s act hact
    cases act with
    | other act => trivial
    | body text => exact fun _ _ => hact)
  exact ⟨s, hr, of_decide_eq_true hp, requests_have_no_empty_message hr⟩

/-- A response with nothing but a thinking block leaves an empty message in the
conversation, which the next request carries. -/
theorem skipped_block_leaves_empty_message :
    ¬ ∀ s, (machine mockCtx twoTexts .anthropic).Reachable s →
      ∀ q ∈ requests s.log, ∀ m ∈ q.messages, m.content ≠ [] := by
  intro h
  obtain ⟨s, hr, hp⟩ := Machine.exists_of_run (M := machine mockCtx twoTexts .anthropic) (askTwice thought)
    (fun s => (requests s.log).any fun q => q.messages.any fun m => m.content.isEmpty) (s := opening)
    ⟨rfl, .inl rfl⟩ rfl
  obtain ⟨q, hq, hp⟩ := List.any_eq_true.mp hp
  obtain ⟨m, hm, hp⟩ := List.any_eq_true.mp hp
  exact h s hr q hq m hm (List.isEmpty_iff.mp hp)

end WireAct

end Silo.Llm
