import Silo.Frontend.Early

namespace Silo.Frontend

open Silo.Lib Silo.Core Silo.Harness

def promptOf : EventPayload → Option String
  | .userPrompt _ _ text => some text
  | _ => none

def promptText (e : Event EventPayload) : Option String := promptOf e.payload

/-- The prompt that the task has numbered and not enqueued yet. -/
def Phase.prompt : Phase → Option (Nat × String)
  | .emitting _ seq (some text) => some (seq, text)
  | _ => none

theorem prompt_of_not_busy {phase : Phase} (h : phase.busy = false) : phase.prompt = none := by
  cases phase <;> first | rfl | cases h

namespace State

variable {cfg : Config} {s t : State} {c d : Nat} {act : Act}

def pending (s : State) (c : Nat) : Option (Nat × String) := (s.conns c).phase.prompt

theorem pending_of_phase {phase : Phase} (h : (s.conns c).phase = phase) : s.pending c = phase.prompt :=
  congrArg Phase.prompt h

def enqueued (s : State) : List String := s.taken ++ s.prompts

def transcript (s : State) : List String := s.bus.history.filterMap promptText

def journaled (s : State) : List String := s.bus.journal.filterMap promptText

structure Quiet (s t : State) : Prop where
  bus : t.bus = s.bus
  enqueued : t.enqueued = s.enqueued
  pending : ∀ d, t.pending d = s.pending d

inductive PromptEffect (s : State) : Act → State → Prop
  | quiet {act : Act} {t : State} (h : Quiet s t) : PromptEffect s act t
  | other {act : Act} {t : State} (time : Timestamp) (payload : EventPayload)
      (htext : promptText ⟨s.bus.nextSeq, time, payload⟩ = none) (hb : t.bus = s.bus.emitAppend time payload)
      (hq : t.enqueued = s.enqueued) (hp : ∀ d, t.pending d = s.pending d) : PromptEffect s act t
  | prompt {act : Act} {t : State} (c : Nat) (time : Timestamp) (payload : EventPayload) (text : String)
      (htext : promptText ⟨s.bus.nextSeq, time, payload⟩ = some text)
      (hb : t.bus = s.bus.emitAppend time payload) (hq : t.enqueued = s.enqueued)
      (hp : ∀ d, t.pending d = if d = c then some (s.bus.nextSeq, text) else s.pending d) :
      PromptEffect s act t
  | enqueue {t : State} (c seq : Nat) (text : String) (hc : s.pending c = some (seq, text))
      (hf : s.inFlight seq = false) (hb : t.bus = s.bus) (hq : t.enqueued = s.enqueued ++ [text])
      (hp : ∀ d, t.pending d = if d = c then none else s.pending d) :
      PromptEffect s (.conn c .resume) t
  | journal {t : State} (seq : Nat) (hb : s.bus.emitJournal seq = some t.bus)
      (hq : t.enqueued = s.enqueued) (hp : ∀ d, t.pending d = s.pending d) :
      PromptEffect s (.emitJournal seq) t
  | broadcast {t : State} (seq : Nat) (hb : s.bus.emitBroadcast seq = some t.bus)
      (hq : t.enqueued = s.enqueued) (hp : ∀ d, t.pending d = s.pending d) :
      PromptEffect s (.emitBroadcast seq) t

theorem pending_setConn (conn : Conn) :
    (s.setConn c conn).pending d = if d = c then conn.phase.prompt else s.pending d := by
  by_cases h : d = c <;> simp [pending, setConn, h]

theorem pending_goto {phase : Phase} (hs : s.pending c = none) (h : phase.prompt = none) (d : Nat) :
    (s.goto c phase).pending d = s.pending d := by
  rw [goto, pending_setConn]
  split
  · next heq => rw [heq, hs, h]
  · rfl

theorem pending_say (message : ServerMessage) (d : Nat) : (s.say c message).pending d = s.pending d := by
  rw [say, pending_setConn]
  split
  · next heq => rw [heq, pending]
  · rfl

theorem quiet_of_same (hb : t.bus = s.bus) (ht : t.taken = s.taken) (hp : t.prompts = s.prompts)
    (hc : t.conns = s.conns) : Quiet s t where
  bus := hb
  enqueued := by rw [enqueued, ht, hp, enqueued]
  pending d := by rw [pending, hc, pending]

theorem quiet_of_ownConn (h : OwnConn c s t) (hs : (s.conns c).phase.busy = false)
    (ht : (t.conns c).phase.busy = false) : Quiet s t where
  bus := h.bus
  enqueued := by rw [enqueued, h.taken, h.prompts, enqueued]
  pending d := by
    by_cases hd : d = c
    · rw [hd, pending, pending, prompt_of_not_busy hs, prompt_of_not_busy ht]
    · rw [pending, h.others d hd, pending]

theorem pending_connEmit {client : Client} {time : Timestamp} {payload : EventPayload} {text : Option String}
    (d : Nat) : (s.connEmit c client time payload text).pending d =
      if d = c then text.map fun text => (s.bus.nextSeq, text) else s.pending d := by
  have hpending : (s.emit time payload).pending d = s.pending d := rfl
  rw [connEmit, goto, pending_setConn, hpending]
  cases text <;> rfl

theorem effect_connEmit {client : Client} {time : Timestamp} {payload : EventPayload}
    (hs : s.pending c = none) (htext : promptText ⟨s.bus.nextSeq, time, payload⟩ = none) :
    PromptEffect s act (s.connEmit c client time payload none) := by
  refine .other time payload htext rfl rfl ?_
  intro d
  rw [pending_connEmit]
  split
  · next heq => rw [heq, hs, Option.map_none]
  · rfl

theorem effect_handleMessage {client : Client} (hphase : (s.conns c).phase = .ready client) (draw : Draw)
    (message : ClientMessage) : PromptEffect s act (s.handleMessage c client draw message) := by
  have hs : s.pending c = none := pending_of_phase hphase
  cases message with
  | prompt text =>
      refine .prompt c draw.time _ text rfl rfl rfl ?_
      intro d
      exact pending_connEmit d
  | answerQuestion questionId answer =>
      simp only [handleMessage]
      split
      · exact .quiet ⟨rfl, rfl, fun _ => rfl⟩
      · exact .quiet ⟨rfl, rfl, pending_goto hs rfl⟩
  | interrupt => exact .quiet ⟨rfl, rfl, pending_goto hs rfl⟩
  | shutdown => exact .quiet ⟨rfl, rfl, pending_goto hs rfl⟩
  | uploadFile name contentB64 => exact effect_connEmit hs rfl
  | _ => exact .quiet ⟨rfl, rfl, pending_say _⟩

theorem effect_connStep {act : ConnAct} (hn : s.connStep cfg c act = some t) :
    PromptEffect s (.conn c act) t := by
  cases connStep_effect hn with
  | early he hownConn hbusy => exact .quiet (quiet_of_ownConn hownConn (busy_of_early he) hbusy)
  | message client draw message h => exact effect_handleMessage h draw message
  | unrecognized client draw h => exact .quiet ⟨rfl, rfl, pending_say _⟩
  | ignored client draw h => exact .quiet ⟨rfl, rfl, fun _ => rfl⟩
  | close h =>
      obtain ⟨client, h⟩ | ⟨client, command, h⟩ := h
      · exact .quiet ⟨rfl, rfl, pending_goto (pending_of_phase h) rfl⟩
      · exact .quiet ⟨rfl, rfl, pending_goto (pending_of_phase h) rfl⟩
  | send client id question answer h hlive =>
      exact .quiet ⟨rfl, rfl, pending_goto (pending_of_phase h) rfl⟩
  | lost client id question answer h hgone =>
      exact .quiet ⟨rfl, rfl, pending_goto (pending_of_phase h) rfl⟩
  | emitAnswer client id answer time h => exact effect_connEmit (pending_of_phase h) rfl
  | command client command delivered h =>
      exact .quiet ⟨rfl, rfl, pending_goto (pending_of_phase h) rfl⟩
  | resume client seq text h hf =>
      cases text with
      | none => exact .quiet ⟨rfl, by simp [enqueued, goto, setConn], pending_goto (pending_of_phase h) rfl⟩
      | some text =>
          refine .enqueue c seq text (pending_of_phase h) hf rfl ?_ ?_
          · simp [enqueued, goto, setConn]
          · intro d
            exact pending_setConn _

theorem effect_runTool (agent : AgentId) (call : ToolCall) (time : Timestamp) :
    PromptEffect s act (s.runTool cfg agent call time) := by
  rw [runTool]
  split
  · exact .quiet ⟨rfl, rfl, fun _ => rfl⟩
  · split
    · split
      · exact .quiet ⟨rfl, rfl, fun _ => rfl⟩
      · apply PromptEffect.quiet
        apply quiet_of_same
        all_goals
          simp only [insertQuestion, setCall]
          split <;> rfl
    · split
      · split
        · exact .quiet ⟨rfl, rfl, fun _ => rfl⟩
        · exact .other time _ rfl rfl rfl fun _ => rfl
      · exact .quiet ⟨rfl, rfl, fun _ => rfl⟩

theorem effect_callStep {n : Nat} {act : CallAct} (hn : s.callStep cfg n act = some t) :
    PromptEffect s (.call n act) t := by
  simp only [callStep] at hn
  split at hn
  · next time _ =>
      cases hn
      exact .other time _ rfl rfl rfl fun _ => rfl
  · split at hn
    · cases hn
    · split at hn <;> cases hn <;> exact .quiet ⟨rfl, rfl, fun _ => rfl⟩
  · split at hn <;> cases hn
    exact .quiet ⟨rfl, rfl, fun _ => rfl⟩
  · split at hn <;> cases hn
    exact .quiet ⟨rfl, rfl, fun _ => rfl⟩
  · cases hn

theorem effect_interruptStep {i : Nat} {act : InterruptAct} (hn : s.interruptStep i act = some t) :
    PromptEffect s (.interrupting i act) t := by
  simp only [interruptStep] at hn
  split at hn
  · obtain ⟨e, -, rfl⟩ := Option.map_eq_some_iff.mp hn
    split
    · exact .quiet ⟨rfl, rfl, fun _ => rfl⟩
    · exact .quiet ⟨rfl, rfl, fun _ => rfl⟩
  · next time _ _ _ =>
      cases hn
      exact .other time _ rfl rfl rfl fun _ => rfl
  · split at hn <;> cases hn
    exact .quiet ⟨rfl, rfl, fun _ => rfl⟩
  · cases hn

theorem promptText_other {payload : EventPayload} (h : ¬ EventPayload.ofFrontend payload = true) (seq : Nat)
    (time : Timestamp) : promptText ⟨seq, time, payload⟩ = none := by
  cases payload <;> first | rfl | exact absurd rfl h

theorem promptEffect_of_next (hn : s.next cfg act = some t) : PromptEffect s act t := by
  cases act with
  | conn c act => exact effect_connStep hn
  | runTool agent call time =>
      cases hn
      exact effect_runTool agent call time
  | call n act => exact effect_callStep hn
  | interrupt =>
      cases hn
      rw [interrupt]
      split <;> exact .quiet ⟨rfl, rfl, fun _ => rfl⟩
  | interrupting i act => exact effect_interruptStep hn
  | nextUserInput =>
      simp only [next, nextUserInput] at hn
      split at hn
      · next text prompts hprompts =>
          split at hn <;> cases hn
          exact .quiet ⟨rfl, by simp [enqueued, hprompts], fun _ => rfl⟩
      · cases hn
  | emit time payload =>
      simp only [next] at hn
      split at hn <;> cases hn
      next h => exact .other time payload (promptText_other h ..) rfl rfl fun _ => rfl
  | emitJournal seq =>
      obtain ⟨bus, hb, rfl⟩ := Option.map_eq_some_iff.mp hn
      exact .journal seq hb rfl fun _ => rfl
  | emitBroadcast seq =>
      obtain ⟨bus, hb, rfl⟩ := Option.map_eq_some_iff.mp hn
      exact .broadcast seq hb rfl fun _ => rfl
  | tick nanos =>
      cases hn
      exact .quiet ⟨rfl, rfl, fun _ => rfl⟩
  | watchCost backend =>
      cases hn
      exact .quiet ⟨rfl, rfl, fun _ => rfl⟩
  | shutdown message =>
      simp only [next] at hn
      split at hn <;> cases hn
      exact .quiet ⟨rfl, rfl, fun _ => rfl⟩
  | clearQuestions =>
      simp only [next] at hn
      split at hn <;> cases hn
      exact .quiet ⟨rfl, rfl, fun _ => rfl⟩

end State

end Silo.Frontend
