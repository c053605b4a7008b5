import Silo.Frontend.StandingRuns
import Silo.Frontend.Transcript

namespace Silo.Frontend.State

open Silo.Lib Silo.Core Silo.Harness

variable {cfg : Config} {s t : State} {n : Nat}

def acceptedFor (s : State) (n : Nat) : List Accepted := s.accepted.filter fun a => a.question = n

/-- The question was asked, and its channel was used or closed or its call has
returned. -/
def Resolved (s : State) (n : Nat) : Prop :=
  n < s.asked ∧ ((s.calls n).slot ≠ .empty ∨ ∃ result, (s.calls n).stage = .returned result)

/-- An answer to question `n` arrives on the connection. -/
def answersNow (cfg : Config) (c n : Nat) (answer : String) (draw : Draw) : Act :=
  .conn c (.frame (.text (some (.answerQuestion (cfg.ids n) answer))) draw)

/-- What becomes of questions. -/
structure Resolution (cfg : Config) (s : State) : Prop where
  once : ∀ id, (s.answers id).length ≤ 1
  /-- A call that returned an answer returned the one answer that was accepted. Its
  event names that answer and its client; until it is out, their task is about
  to emit it. -/
  answered : ∀ n answer, (s.calls n).stage = .returned (.ok (.ok answer)) →
    ∃ clientId, s.acceptedFor n = [⟨n, clientId, answer⟩] ∧
      (s.answers (cfg.ids n) = [(some clientId, answer)] ∨
        s.answers (cfg.ids n) = [] ∧
          ∃ c client, (s.conns c).phase = .resolved client (cfg.ids n) answer ∧ client.id = clientId)
  /-- An answer to a resolved question changes nothing. -/
  late : ∀ n c client answer draw, s.Resolved n → (s.conns c).phase = .ready client →
    s.next cfg (answersNow cfg c n answer draw) = some s
  /-- An interrupted question has no answer and no event of a client, and its call
  returns the interrupted result. -/
  interrupted : ∀ n, (s.calls n).slot = .sent .interrupted →
    s.acceptedFor n = [] ∧ (∀ e ∈ s.answers (cfg.ids n), e.1 = none) ∧
      (∀ result, (s.calls n).stage = .returned result → result = .ok (.error interruptedByUser)) ∧
      (∀ seq, (s.calls n).stage = .waiting seq → s.inFlight seq = false →
        s.next cfg (.call n .poll) = some (s.callReturns n (.ok (.error interruptedByUser)))) ∧
      ∀ act t result, s.next cfg (.call n act) = some t → (t.calls n).stage = .returned result →
        result = .ok (.error interruptedByUser)
  pending : ∀ e ∈ s.questions, e.2 < s.asked ∧ ¬ s.Resolved e.2

theorem view_start (records : List (String × KeyRecord)) (now : Nat) (issue : Option PairingCode) :
    (start records now issue).view.Sound cfg.ids := by
  have hstock (p : Place) : (start records now issue).view.stock p = [] := by cases p <;> rfl
  have hdebts (p : Place) : (start records now issue).view.debts p = [] := by cases p <;> rfl
  refine ⟨⟨?_, ?_, ?_, ?_, ?_⟩, fun _ => .gone, ⟨?_, ?_, ?_, ?_, ?_, ?_, ?_⟩⟩
  · simp [hstock]
  · simp [hstock]
  · simp [hdebts]
  · intro id hid
    exact absurd rfl hid
  · intro i _
    rfl
  · simp [hstock]
  · simp [hdebts]
  · intro n _
    rfl
  · intro n
    exact ⟨.inl rfl, rfl⟩
  · intro n _
    exact ⟨rfl, rfl⟩
  · intro n result h
    cases h
  · intro h
    cases h

theorem view_asked (hn : s.next cfg act = some t) : s.asked ≤ t.asked := by
  rcases follows_of_next hn with hview | hstep
  · exact Nat.le_of_eq (congrArg View.asked hview).symm
  · exact View.step_asked hstep

/-- With ids that differ, questions are always where the invariant has them. -/
theorem sound_of_reachable (hr : (machine cfg).Reachable s) (hd : s.view.Distinct cfg.ids) :
    s.view.Sound cfg.ids := by
  revert hd
  apply Machine.ReachableUnder.invariant _ _ hr
  · rintro s ⟨records, now, issue, rfl⟩ _
    exact view_start records now issue
  · intro s t act ih _ hn hd
    have hs := ih (hd.mono (view_asked hn))
    rcases follows_of_next hn with hview | hstep
    · rw [hview]
      exact hs
    · exact View.sound_step hd hs hstep

theorem unresolved_of_held {f : Nat → Standing} (h : s.view.Matches cfg.ids f) {p : Place}
    (hf : f n = .held p) : ¬ s.Resolved n := by
  have hagrees := h.agrees n
  rw [hf] at hagrees
  rintro ⟨-, hslot | ⟨result, hstage⟩⟩
  · exact hslot hagrees.1
  · exact h.unreturned hf hstage

theorem resolves_answered {answer : String} {e : Told} (h : s.view.Resolves n e)
    (hslot : (s.calls n).slot = .sent (.answered answer)) :
    ∃ clientId, e = (some clientId, answer) ∧ s.acceptedFor n = [⟨n, clientId, answer⟩] := by
  obtain ⟨clientId, answer', he, hslot', haccepted⟩ | ⟨-, hslot', -⟩ := h
  · rw [show (s.view.calls n).slot = (s.calls n).slot from rfl, hslot] at hslot'
    cases hslot'
    exact ⟨clientId, he, haccepted⟩
  · rw [show (s.view.calls n).slot = (s.calls n).slot from rfl, hslot] at hslot'
    cases hslot'

theorem slot_of_answered {f : Nat → Standing} (h : s.view.Matches cfg.ids f) {answer : String}
    (hstage : (s.calls n).stage = .returned (.ok (.ok answer))) :
    (s.calls n).slot = .sent (.answered answer) := by
  have hresult : (s.calls n).slot.result = some (.ok (.ok answer)) := h.returned n _ hstage
  cases hslot : (s.calls n).slot with
  | empty => simp [hslot, Slot.result] at hresult
  | closed => simp [hslot, Slot.result] at hresult
  | sent outcome =>
      cases outcome with
      | interrupted => simp [hslot, Slot.result, ToolOutput.ok, ToolOutput.error] at hresult
      | answered answer' =>
          simp only [hslot, Slot.result, ToolOutput.ok, Option.some.injEq, Except.ok.injEq,
            ToolOutput.mk.injEq, and_true] at hresult
          rw [hresult]

theorem phase_of_debt {c : Nat} {id : String} {e : Told} (h : (id, e) ∈ s.view.debts (.conn c)) :
    ∃ client answer, (s.conns c).phase = .resolved client id answer ∧ e = (some client.id, answer) := by
  change (id, e) ∈ ((s.conns c).phase.part).debts at h
  cases hphase : (s.conns c).phase with
  | resolved client id' answer =>
      rw [hphase] at h
      obtain ⟨rfl, rfl⟩ : id = id' ∧ e = (some client.id, answer) := by simpa [Phase.part, Part.debts] using h
      exact ⟨client, answer, rfl, rfl⟩
  | _ => simp [hphase, Phase.part, Part.debts] at h

section

variable {f : Nat → Standing} (hk : s.view.Keyed cfg.ids) (h : s.view.Matches cfg.ids f)

include h

theorem resolution_answered {answer : String} (hstage : (s.calls n).stage = .returned (.ok (.ok answer))) :
    ∃ clientId, s.acceptedFor n = [⟨n, clientId, answer⟩] ∧
      (s.answers (cfg.ids n) = [(some clientId, answer)] ∨
        s.answers (cfg.ids n) = [] ∧
          ∃ c client, (s.conns c).phase = .resolved client (cfg.ids n) answer ∧ client.id = clientId) := by
  have hslot := slot_of_answered h hstage
  have hslot' : (s.view.calls n).slot = .sent (.answered answer) := hslot
  have hagrees := h.agrees n
  cases hf : f n with
  | held p =>
      rw [hf] at hagrees
      simp [View.Agrees, hslot'] at hagrees
  | gone =>
      rw [hf] at hagrees
      simp [View.Agrees, hslot'] at hagrees
  | told e =>
      rw [hf] at hagrees
      obtain ⟨clientId, rfl, haccepted⟩ := resolves_answered hagrees hslot
      have hevents := h.events n (h.lt (by simp [hf]))
      rw [hf] at hevents
      exact ⟨clientId, haccepted, .inl hevents⟩
  | owed p e =>
      rw [hf] at hagrees
      obtain ⟨clientId, rfl, haccepted⟩ := resolves_answered hagrees hslot
      have hlt := h.lt (n := n) (by simp [hf])
      have hevents := h.events n hlt
      rw [hf] at hevents
      refine ⟨clientId, haccepted, .inr ⟨hevents, ?_⟩⟩
      have hdebt := (h.owed p n _ hlt).mpr hf
      cases p with
      | map => cases hdebt
      | conn c =>
          obtain ⟨client, answer', hphase, heq⟩ := phase_of_debt hdebt
          cases heq
          exact ⟨c, client, hphase, rfl⟩
      | interrupt i =>
          exfalso
          change _ ∈ (s.interrupts i).debts at hdebt
          cases hi : s.interrupts i <;> simp [hi, Interrupting.debts] at hdebt

theorem resolution_interrupted (hslot : (s.calls n).slot = .sent .interrupted) :
    s.acceptedFor n = [] ∧ ∀ e ∈ s.answers (cfg.ids n), e.1 = none := by
  have hslot' : (s.view.calls n).slot = .sent .interrupted := hslot
  have hagrees := h.agrees n
  have hresolves {e : Told} (hr : s.view.Resolves n e) : e.1 = none ∧ s.acceptedFor n = [] := by
    obtain ⟨clientId, answer, -, hother, -⟩ | ⟨rfl, -, haccepted⟩ := hr
    · rw [hslot'] at hother
      cases hother
    · exact ⟨rfl, haccepted⟩
  cases hf : f n with
  | held p =>
      rw [hf] at hagrees
      simp [View.Agrees, hslot'] at hagrees
  | gone =>
      rw [hf] at hagrees
      simp [View.Agrees, hslot'] at hagrees
  | told e =>
      rw [hf] at hagrees
      have hevents : s.answers (cfg.ids n) = (f n).events := h.events n (h.lt (by simp [hf]))
      obtain ⟨hnone, haccepted⟩ := hresolves hagrees
      refine ⟨haccepted, ?_⟩
      rw [hevents, hf]
      intro e' he'
      rw [List.mem_singleton.mp he', hnone]
  | owed p e =>
      rw [hf] at hagrees
      have hevents : s.answers (cfg.ids n) = (f n).events := h.events n (h.lt (by simp [hf]))
      refine ⟨(hresolves hagrees).2, ?_⟩
      rw [hevents, hf]
      exact fun e' he' => absurd he' (List.not_mem_nil)

include hk

theorem resolution_pending {e : String × Nat} (he : e ∈ s.questions) : e.2 < s.asked ∧ ¬ s.Resolved e.2 := by
  obtain ⟨hlt, hf⟩ := h.lt_of_mem hk (p := .map) he
  exact ⟨hlt, unresolved_of_held h hf⟩

theorem resolution_late (hd : s.view.Distinct cfg.ids) (hres : s.Resolved n) :
    s.questions.lookup (cfg.ids n) = none := by
  cases hl : s.questions.lookup (cfg.ids n) with
  | none => rfl
  | some m =>
      exfalso
      have hmem : (cfg.ids n, m) ∈ s.questions := View.mem_of_lookup (v := s.view) hl
      obtain ⟨hm, hfm⟩ := h.lt_of_mem hk (p := .map) hmem
      have hid : cfg.ids n = cfg.ids m := hk.stock .map _ hmem
      have hnm : n = m := hd n hres.1 m hm hid
      subst hnm
      exact unresolved_of_held h hfm hres

end

/-- A call that returns hands back what its channel holds, as long as nobody has
shut the frontend down. -/
theorem callStep_returned {act : CallAct} {result : Except FrontendError ToolOutput}
    (hn : s.callStep cfg n act = some t) (hlive : (s.calls n).listening = true → s.down = false)
    (hstage : (t.calls n).stage = .returned result) : (s.calls n).slot.result = some result := by
  simp only [callStep] at hn
  split at hn
  · cases hn
    simp [setCall] at hstage
  · split at hn
    · cases hn
    · split at hn <;> cases hn
      all_goals
        next hslot =>
          simp only [callReturns, setCall, Function.update_self, CallStage.returned.injEq] at hstage
          rw [hslot, ← hstage]
          rfl
  · next hwaiting =>
      split at hn
      · cases hn
      · next hdown =>
          have hup := hlive (by simp [Call.listening, hwaiting])
          simp [hup] at hdown
  · split at hn <;> cases hn
    simp [setCall] at hstage
  · cases hn

/-- In every run, with ids that differ, questions are resolved once, by the answer
or the interrupt that the call and the event both report. -/
theorem questions_resolved_once (hr : (machine cfg).Reachable s)
    (hd : ∀ m < s.asked, ∀ n < s.asked, cfg.ids m = cfg.ids n → m = n) : s.Resolution cfg := by
  obtain ⟨hk, f, h⟩ := sound_of_reachable hr hd
  have hcalm {n : Nat} (hlive : (s.calls n).listening = true) : s.down = false := by
    cases hdown : s.down with
    | false => rfl
    | true => exact absurd (h.calm hdown n) (by simpa [view] using hlive)
  have hinterrupted {n : Nat} (hslot : (s.calls n).slot = .sent .interrupted) :
      (s.calls n).slot.result = some (.ok (.error interruptedByUser)) := by rw [hslot]; rfl
  constructor
  · intro id
    by_cases hid : s.answers id = []
    · rw [hid]
      exact Nat.zero_le _
    · obtain ⟨n, hn, rfl⟩ := hk.answers id hid
      have hevents : s.answers (cfg.ids n) = (f n).events := h.events n hn
      rw [hevents]
      cases f n <;> simp [Standing.events]
  · intro n answer hstage
    exact resolution_answered h hstage
  · intro n c client answer draw hres hphase
    have hnone := resolution_late hk h hd hres
    simp [next, answersNow, connStep, hphase, messageFrame, handleMessage, hnone]
  · intro n hslot
    obtain ⟨haccepted, hevents⟩ := resolution_interrupted h hslot
    refine ⟨haccepted, hevents, ?_, ?_, ?_⟩
    · intro result hstage
      have hresult : (s.calls n).slot.result = some result := h.returned n result hstage
      exact (Option.some.inj ((hinterrupted hslot).symm.trans hresult)).symm
    · intro seq hstage hf
      simp [next, callStep, hstage, hf, hslot]
    · intro act t result hn hstage
      have hresult := callStep_returned hn hcalm hstage
      exact (Option.some.inj ((hinterrupted hslot).symm.trans hresult)).symm
  · intro e he
    exact resolution_pending hk h he

def question : Act := .runTool 0 ⟨"call", "AskUserQuestion", .null⟩ ⟨0, none⟩

/-- The call asks as event `seq`. -/
def emitsQuestion (n seq : Nat) : List Act := .call n (.emit ⟨0, none⟩) :: delivers seq

/-- The first question is answered by one client and then by another; the second
is interrupted. -/
theorem questions_resolved_once_answer_and_interrupt :
    ∃ s, (machine tokenOnly).Reachable s ∧
      (s.answers "0" = [(some "0", "yes")] ∧ s.answers "1" = [(none, interruptedAnswer)] ∧ s.asked = 2) ∧
      s.Resolution tokenOnly := by
  obtain ⟨s, hr, hp⟩ := Machine.exists_of_run
    (joins 0 ++ joins 1 ++ [question] ++ emitsQuestion 0 0 ++
      [answersNow tokenOnly 0 0 "yes" draw, .conn 0 .send, .conn 0 (.emitAnswer ⟨0, none⟩)] ++ delivers 1 ++
      [Act.conn 0 .resume, answersNow tokenOnly 1 0 "no" draw, .call 0 .poll, question] ++ emitsQuestion 1 2 ++
      [Act.interrupt, .interrupting 0 (.send 0), .interrupting 0 (.emit ⟨0, none⟩)] ++ delivers 3 ++
      [Act.interrupting 0 .resume, .call 1 .poll])
    (fun s => decide (s.answers "0" = [(some "0", "yes")] ∧ s.answers "1" = [(none, interruptedAnswer)] ∧
      s.asked = 2)) (s := start [] 0 none) (M := machine tokenOnly) ⟨[], 0, none, rfl⟩ rfl
  have hp := of_decide_eq_true hp
  refine ⟨s, hr, hp, questions_resolved_once hr ?_⟩
  rw [hp.2.2]
  decide

end Silo.Frontend.State
