import Silo.Harness.TimelyRuns

namespace Silo.Harness

open Silo.Core Silo.Lib

namespace Session

variable {ctx : SessionCtx} {s t u : Session} {a b : AgentId} {act : Act} {choice : Choice}

section Begin

theorem follow_outside {step : TopLevel × List Record}
    (h : ∀ turn stage, step.1.stage ≠ .driving turn stage) :
    ((s.follow a step).agents a).phase.inTurn = false := by
  cases hs : step.1.stage with
  | driving turn stage => exact absurd hs (h turn stage)
  | _ => simp [follow, record, setAgent, hs, Phase.inTurn]

theorem turnEnded_outside (l : TopLevel) (found : Option (Option String))
    (result : Except HarnessError TurnOutcome) (turn : Turn) (stage : Stage) :
    (l.turnEnded ctx found result).1.stage ≠ .driving turn stage := by
  unfold TopLevel.turnEnded
  split
  case h_4 =>
      simp only
      split <;> simp [TopLevel.finish]
  all_goals simp [TopLevel.finish]

theorem returnStep_outside (result : Except HarnessError TurnOutcome) :
    ((s.returnStep ctx a result).agents a).phase.inTurn = false := by
  unfold returnStep
  split
  · simp [completeStep, record, setAgent, Phase.inTurn]
  · exact follow_outside (turnEnded_outside _ _ _)
  · exact follow_outside (turnEnded_outside _ _ _)

theorem inputReady_begins (hphase : (u.agents a).phase.inTurn = false)
    (hin : ((inputReady ctx a choice u).agents a).phase.inTurn = true) :
    (inputReady ctx a choice u).generation a = (inputReady ctx a choice u).signal.interrupts := by
  unfold inputReady at hin ⊢
  simp only at hin ⊢
  split at hin
  · cases hc : (u.dropWait a).signal.check.2 with
    | some message =>
        rw [hc, follow_outside (by simp [TopLevel.prompted, TopLevel.finish])] at hin
        cases hin
    | none => simp [generation, follow, TopLevel.prompted, record, setAgent, TopLevel.turn,
        setSignal, Signal.interruptGeneration]
  · rename_i error _
    rw [follow_outside] at hin
    · cases hin
    · intro turn stage
      cases error <;> simp [TopLevel.inputFailed, TopLevel.finish]
  · rw [pend_phase, hphase] at hin
    cases hin

/-- The snapshot of a turn of the top level is the number of interrupts
applied before it. -/
theorem step_begins (hout : (s.agents a).phase.inTurn = false) (h : s.step ctx a choice = some t)
    (hin : (t.agents a).phase.inTurn = true) : t.generation a = t.signal.interrupts := by
  rw [step] at h
  cases hp : (s.agents a).phase with
  | head =>
      rw [hp] at h
      cases h
      rw [follow_outside] at hin
      · cases hin
      · intro turn stage
        cases s.signal.check.2 <;> simp [TopLevel.atHead, TopLevel.finish]
  | input =>
      rw [hp] at h
      cases h
      have hphase := pollWait_phase s a .shutdown choice.command
      unfold orAbort at hin ⊢
      split at hin
      · rename_i u reason heq
        rw [heq] at hphase
        cases reason with
        | shutdown message =>
            rw [idleEnds, follow_outside (by simp [TopLevel.finish])] at hin
            cases hin
        | interrupted =>
            rw [idleEnds, pend_phase, hphase, hout] at hin
            cases hin
      · rename_i u heq
        rw [heq] at hphase
        exact inputReady_begins (by rw [hphase]; exact hout) hin
  | interrupting =>
      simp only [hp] at h
      split at h <;> cases h
      · rw [follow_outside (by simp [TopLevel.interruptDone])] at hin
        cases hin
      · rw [pend_phase, hout] at hin
        cases hin
  | returned result =>
      rw [hp] at h
      cases h
      rw [returnStep_outside] at hin
      cases hin
  | finishing result =>
      rw [hp] at h
      cases h
      rw [goto_phase] at hin
      cases hin
  | driving | cancelling =>
      rw [hp] at hout
      cases hout
  | unborn | «over» | completed | dropped =>
      rw [hp] at h
      cases h

end Begin

/-- Polls are atomic, and `b` is in its turn before the step. -/
def during (b : AgentId) (s : Session) (act : Act) : Prop :=
  s.atomic act = true ∧ (s.agents b).phase.inTurn = true

theorem begins (hs : s.Timely) (hn : next ctx s act = some t)
    (hout : (s.agents b).phase.inTurn = false) (hin : (t.agents b).phase.inTurn = true) :
    t.generation b = t.signal.interrupts := by
  have hsame : t.agents = s.agents → t.generation b = t.signal.interrupts := by
    intro heq
    rw [heq, hout] at hin
    cases hin
  cases act with
  | send command =>
      simp only [next] at hn
      split at hn <;> cases hn
      exact hsame rfl
  | hangUp | request =>
      cases hn
      exact hsame rfl
  | step a choice =>
      have hon := taskStep_of_next hs hn
      obtain ⟨hact, -, hstep⟩ := acting_of_next hs hn
      by_cases hb : b = a
      · subst hb
        exact step_begins hout hstep hin
      · by_cases hborn : (s.agents b).phase = .unborn
        · rcases hon.unborn b hb hborn with hbs | ⟨hnew, -⟩
          · rw [hbs.phase, hout] at hin
            cases hin
          · refine Nat.le_antisymm hnew.ok.snapshot (Nat.not_lt.mp fun hlt => hnew.undue (.inr hlt))
        · rw [(hon.staysPut b hb hborn).phase, hout] at hin
          cases hin
  | drop a =>
      simp only [next] at hn
      split at hn <;> cases hn
      by_cases hb : b = a
      · subst hb
        simp [dropTask, setAgent, Phase.inTurn] at hin
      · simp [dropTask, setAgent, hb, hout] at hin

structure Goes (s t : Session) (b : AgentId) : Prop where
  generation : t.generation b = s.generation b
  feeds : ∃ new, t.signal.applied = s.signal.applied ++ new
  grows : s.signal.Grows t.signal
  place : (t.agents b).phase.inTurn = true ∨ (∃ result, (t.agents b).phase = .returned result) ∨
    ((t.agents b).phase = .dropped ∧ (t.agents b).aborted = true)
  messages : t.Due b → assistants (t.agents b).messages = assistants (s.agents b).messages
  log : ∃ more, t.log = s.log ++ more ∧ (t.Due b → ∀ r ∈ more, r.speaker ≠ some b)

theorem goes_signal {sig : Signal AgentId} (hturn : (s.agents b).phase.inTurn = true)
    (happ : sig.applied = s.signal.applied) (hgrows : s.signal.Grows sig) :
    Goes s { s with signal := sig } b :=
  ⟨rfl, ⟨[], by simp [happ]⟩, hgrows, .inl hturn, fun _ => rfl, ⟨[], by simp, by simp⟩⟩

theorem StaysPut.place (h : StaysPut s t b) (hturn : (s.agents b).phase.inTurn = true) :
    (t.agents b).phase.inTurn = true := by
  rw [h.phase]
  exact hturn

theorem goes_step (hs : s.Timely) (hn : next ctx s (.step a choice) = some t)
    (hturn : (s.agents b).phase.inTurn = true) : Goes s t b := by
  have hon := taskStep_of_next hs hn
  obtain ⟨hact, -, hstep⟩ := acting_of_next hs hn
  obtain ⟨more, hlog, happ, hwords⟩ := hon.words.log
  by_cases hb : b = a
  · subst hb
    refine ⟨hon.sameTurn hturn, ⟨_, happ⟩, hon.evolves.grows, ?_, hon.words.messages, more, hlog, ?_⟩
    · have hof := step_place hturn hstep
      have hok := hon.ok.phase
      cases hp : (t.agents b).phase with
      | driving | cancelling => exact .inl rfl
      | returned result => exact .inr (.inl ⟨result, rfl⟩)
      | dropped =>
          rw [hp] at hok
          exact .inr (.inr ⟨rfl, hok⟩)
      | _ =>
          rw [hp] at hof
          cases hof
    · intro hdue r hr hsp
      exact (hwords r hr b hsp).2 hdue
  · have hborn : (s.agents b).phase ≠ .unborn := by
      intro hu
      rw [hu] at hturn
      cases hturn
    have hbs := hon.staysPut b hb hborn
    refine ⟨hbs.generation, ⟨_, happ⟩, hon.evolves.grows, .inl (hbs.place hturn), ?_, more, hlog, ?_⟩
    · intro _
      rw [hbs.messages]
    · intro _ r hr hsp
      exact hb (hwords r hr b hsp).1

theorem goes_drop (hn : next ctx s (.drop a) = some t) (hturn : (s.agents b).phase.inTurn = true) :
    Goes s t b := by
  simp only [next] at hn
  split at hn
  · rename_i hcond
    cases hn
    simp only [Bool.and_eq_true] at hcond
    have hgrows : s.signal.Grows (s.dropTask a).signal := (Signal.feeds_dropWait _ _).grows
    have happ : (s.dropTask a).signal.applied = s.signal.applied := by
      simp only [dropTask, setAgent, Signal.dropWait]
      split <;> rfl
    by_cases hb : b = a
    · subst hb
      have hself : (s.dropTask b).agents b = { s.agents b with phase := .dropped, wait := none } := by
        simp [dropTask, setAgent]
      refine ⟨by rw [generation, hself, generation], ⟨[], by simp [happ]⟩, hgrows, ?_, fun _ => by rw [hself],
        [], by simp [dropTask, setAgent], by simp⟩
      rw [hself]
      exact .inr (.inr ⟨rfl, hcond.1.1⟩)
    · have hother : (s.dropTask a).agents b = s.agents b := by simp [dropTask, setAgent, hb]
      refine ⟨by rw [generation, hother, generation], ⟨[], by simp [happ]⟩, hgrows, ?_,
        fun _ => by rw [hother], [], by simp [dropTask, setAgent], by simp⟩
      rw [hother]
      exact .inl hturn
  · cases hn

theorem goes_next (hs : s.Timely) (hn : next ctx s act = some t)
    (hturn : (s.agents b).phase.inTurn = true) : Goes s t b := by
  cases act with
  | send command =>
      simp only [next] at hn
      split at hn <;> cases hn
      exact goes_signal hturn rfl ⟨fun _ hm => hm, Nat.le_refl _, id⟩
  | hangUp =>
      cases hn
      exact goes_signal hturn rfl ⟨fun _ hm => hm, Nat.le_refl _, id⟩
  | request message =>
      cases hn
      exact goes_signal hturn rfl (Signal.grows_request _ _)
  | step a choice => exact goes_step hs hn hturn
  | drop a => exact goes_drop hn hturn

end Session

end Silo.Harness
