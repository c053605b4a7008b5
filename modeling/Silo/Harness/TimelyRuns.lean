import Silo.Harness.TaskStepTop

namespace Silo.Harness

open Silo.Core Silo.Lib

namespace Session

variable {ctx : SessionCtx} {s t : Session} {a b : AgentId}

theorem polling_of_unborn (h : (s.agents b).phase = .unborn) : (s.agents b).polling = false := by
  simp [Agent.polling, h]

theorem unpolled_of_all (h : s.Timely) (hall : ((List.range s.counter).all fun b => !(s.agents b).polling) = true)
    (b : AgentId) : (s.agents b).polling = false := by
  by_cases hb : b < s.counter
  · have := List.all_eq_true.mp hall b (List.mem_range.mpr hb)
    simpa using this
  · exact polling_of_unborn (h.fresh b (Nat.not_lt.mp hb))

theorem unpolled_of_step {choice : Choice} (h : s.Timely) (hat : s.atomic (.step a choice) = true)
    (hb : b ≠ a) : (s.agents b).polling = false := by
  by_cases hlt : b < s.counter
  · have := List.all_eq_true.mp hat b (List.mem_range.mpr hlt)
    simpa [hb] using this
  · exact polling_of_unborn (h.fresh b (Nat.not_lt.mp hlt))

theorem acting_of_next {choice : Choice} (h : s.Timely) (hn : next ctx s (.step a choice) = some t) :
    Acting s a ∧ a < s.counter ∧ s.step ctx a choice = some t := by
  simp only [next] at hn
  split at hn
  · cases hn
  · rename_i hcond
    have hsteps : (s.agents a).phase ≠ .unborn ∧ (s.agents a).finished = false ∧
        ∀ result, (s.agents a).phase ≠ .over result := by
      rw [step] at hn
      cases hp : (s.agents a).phase with
      | unborn | «over» | completed | dropped =>
          rw [hp] at hn
          cases hn
      | head | input | interrupting | driving | cancelling | returned | finishing =>
          simp [Agent.finished, hp]
    have haborted : (s.agents a).aborted = false := by
      by_contra hab
      rw [Bool.not_eq_false] at hab
      have hpoll := (h.ok a).aborted hab
      have hsusp : (s.agents a).suspended = false := by simpa [hab] using hcond
      obtain ⟨hborn, hfin, hover⟩ := hsteps
      rw [Agent.polling] at hpoll
      rw [Agent.finished] at hfin
      rw [hsusp] at hpoll
      cases hp : (s.agents a).phase <;> simp_all
    refine ⟨⟨h.ok a, haborted, hsteps.1, hsteps.2.1⟩, ?_, hn⟩
    by_contra hge
    exact hsteps.1 (h.fresh a (Nat.not_lt.mp hge))

theorem taskStep_of_next {choice : Choice} (h : s.Timely) (hn : next ctx s (.step a choice) = some t) :
    TaskStep s t a choice.answer := by
  obtain ⟨hact, hlt, hstep⟩ := acting_of_next h hn
  exact taskStep_step hact hlt (h.fresh _ (Nat.le_refl _)) h.ok hstep

theorem TaskStep.others {answer : Answer} (h : s.Timely) (hon : TaskStep s t a answer)
    (hpoll : ∀ b, b ≠ a → (s.agents b).polling = false) (hb : b ≠ a) :
    t.AgentOk b ∧ (t.agents b).polling = false := by
  have hstaysPut : StaysPut s t b → t.AgentOk b ∧ (t.agents b).polling = false := by
    intro hbs
    refine ⟨(h.ok b).staysPut hon.evolves hbs (.inl (hpoll b hb)), ?_⟩
    rw [Agent.polling, hbs.phase, hbs.suspended]
    exact hpoll b hb
  by_cases hborn : (s.agents b).phase = .unborn
  · rcases hon.unborn b hb hborn with hbs | ⟨hnew, -⟩
    · exact hstaysPut hbs
    · exact ⟨hnew.ok, hnew.polling⟩
  · exact hstaysPut (hon.staysPut b hb hborn)

theorem timely_of_taskStep {answer : Answer} (h : s.Timely) (hon : TaskStep s t a answer)
    (hpoll : ∀ b, b ≠ a → (s.agents b).polling = false) (hlt : a < s.counter) : t.Timely := by
  refine ⟨?_, ?_, ?_, hon.feeds.tidy h.tidy, ?_⟩
  · intro b
    by_cases hb : b = a
    · rw [hb]
      exact hon.ok
    · exact (hon.others h hpoll hb).1
  · intro b hb
    have hsb := Nat.le_trans hon.evolves.counter hb
    have hba : b ≠ a := Nat.ne_of_gt (Nat.lt_of_lt_of_le hlt hsb)
    have hunborn := h.fresh b hsb
    rcases hon.unborn b hba hunborn with hbs | ⟨-, hlt'⟩
    · rw [hbs.phase, hunborn]
    · exact absurd hlt' (Nat.not_lt.mpr hb)
  · have hone : ∀ b, (t.agents b).polling = true → b = a := by
      intro b hp
      by_contra hb
      rw [(hon.others h hpoll hb).2] at hp
      cases hp
    intro b c hb hc
    rw [hone b hb, hone c hc]
  · obtain ⟨more, hlog, happ, -⟩ := hon.words.log
    rw [hlog, List.filterMap_append, h.journal, happ]

theorem timely_signal {sig : Signal AgentId} (h : s.Timely) (hgrows : s.signal.Grows sig) (htidy : sig.Tidy)
    (happ : sig.applied = s.signal.applied)
    (hpoll : (∀ b, (s.agents b).polling = false) ∨ Untouched s { s with signal := sig }) :
    Timely { s with signal := sig } := by
  have hstaysPut : ∀ b, StaysPut s { s with signal := sig } b := fun b => staysPut_of_eq rfl rfl
  have hevolves : Evolves s { s with signal := sig } :=
    ⟨fun c hc => (hstaysPut c).lasts hc, hgrows, ⟨[], by simp⟩, Nat.le_refl _⟩
  refine ⟨fun b => ?_, h.fresh, h.solo, htidy, h.journal.trans happ.symm⟩
  exact (h.ok b).staysPut hevolves (hstaysPut b) (hpoll.imp_left fun hp => hp b)

theorem timely_dropTask (h : s.Timely) (hpoll : ∀ b, (s.agents b).polling = false)
    (haborted : (s.agents a).aborted = true) (hborn : (s.agents a).phase ≠ .unborn) :
    (s.dropTask a).Timely := by
  set t := s.dropTask a
  have hself : t.agents a = { s.agents a with phase := .dropped, wait := none } := by
    simp [t, dropTask, setAgent]
  have hother : ∀ b, b ≠ a → t.agents b = s.agents b := by
    intro b hb
    simp [t, dropTask, setAgent, hb]
  have hfeeds : s.signal.Feeds t.signal := Signal.feeds_dropWait _ _
  have hgen : t.generation a = s.generation a := by rw [generation, hself, generation]
  have hevolves : Evolves s t := by
    refine ⟨?_, hfeeds.grows, ⟨[], by simp [t, dropTask, setAgent]⟩, Nat.le_refl _⟩
    intro c hc
    by_cases hca : c = a
    · subst hca
      exact ⟨by simp [hself], fun _ => hgen, by rw [hself]; exact id, by simp [Agent.finished, hself]⟩
    · exact (staysPut_of_eq (hother c hca) rfl).lasts hc
  have hpolling : ∀ b, (t.agents b).polling = false := by
    intro b
    by_cases hb : b = a
    · subst hb
      simp [Agent.polling, hself]
    · rw [hother b hb]
      exact hpoll b
  refine ⟨?_, ?_, ?_, hfeeds.tidy h.tidy, ?_⟩
  · intro b
    by_cases hb : b = a
    · subst hb
      refine ⟨?_, ?_, ?_, fun _ => hpolling b, ?_, ?_, ?_⟩
      · rw [hself]
        simpa [PhaseOk, hself] using haborted
      · simp [hself]
      · intro p hp
        obtain ⟨hkin, hchan, -⟩ := (h.ok b).pool p hp
        refine ⟨fun c hc => ?_, hchan, ?_⟩
        · have hk := hkin c hc
          have heq := hother c.id (Nat.ne_of_gt hk.younger)
          refine ⟨hk.younger, by rw [heq]; exact hk.born, ?_⟩
          rw [hgen, generation, heq]
          exact hk.generation
        · rw [hself]
          simp [haborted]
      · rw [hgen]
        exact Nat.le_trans (h.ok b).snapshot hfeeds.grows.interrupts
      · rw [hself]
        exact fun _ hp => (h.ok b).root hborn hp
      · rw [hself]
        exact fun _ => (h.ok b).own hborn
    · exact (h.ok b).staysPut hevolves (staysPut_of_eq (hother b hb) rfl) (.inl (hpoll b))
  · intro b hb
    have hunborn := h.fresh b hb
    have hba : b ≠ a := by
      rintro rfl
      exact hborn hunborn
    rw [hother b hba, hunborn]
  · intro b c hb
    rw [hpolling b] at hb
    cases hb
  · have happ : t.signal.applied = s.signal.applied := by
      simp only [t, dropTask, setAgent, Signal.dropWait]
      split <;> rfl
    rw [happ]
    exact h.journal

theorem timely_next {act : Act} (h : s.Timely) (hat : s.atomic act = true)
    (hn : next ctx s act = some t) : t.Timely := by
  cases act with
  | send command =>
      simp only [next] at hn
      split at hn <;> cases hn
      exact timely_signal h ⟨fun _ hm => hm, Nat.le_refl _, id⟩ ⟨h.tidy.state, h.tidy.interrupts⟩ rfl
        (.inr ⟨rfl, rfl, rfl, rfl⟩)
  | hangUp =>
      cases hn
      exact timely_signal h ⟨fun _ hm => hm, Nat.le_refl _, id⟩ ⟨h.tidy.state, h.tidy.interrupts⟩ rfl
        (.inr ⟨rfl, rfl, rfl, rfl⟩)
  | request message =>
      cases hn
      exact timely_signal h (Signal.grows_request _ _) (Signal.tidy_request h.tidy message) rfl
        (.inl (unpolled_of_all h hat))
  | step a choice =>
      obtain ⟨hact, hlt, -⟩ := acting_of_next h hn
      exact timely_of_taskStep h (taskStep_of_next h hn) (fun b hb => unpolled_of_step h hat hb) hlt
  | drop a =>
      simp only [next] at hn
      split at hn
      · rename_i hcond
        cases hn
        simp only [Bool.and_eq_true] at hcond
        apply timely_dropTask h (unpolled_of_all h hat) hcond.1.1
        intro hu
        have := hcond.2
        simp [Agent.running, hu] at this
      · cases hn

theorem grows_next {act : Act} (hs : s.Timely) (hn : next ctx s act = some t) :
    s.signal.Grows t.signal := by
  cases act with
  | send command =>
      simp only [next] at hn
      split at hn <;> cases hn
      exact ⟨fun _ hm => hm, Nat.le_refl _, id⟩
  | hangUp =>
      cases hn
      exact ⟨fun _ hm => hm, Nat.le_refl _, id⟩
  | request message =>
      cases hn
      exact Signal.grows_request _ _
  | step a choice => exact (taskStep_of_next hs hn).evolves.grows
  | drop b =>
      simp only [next] at hn
      split at hn <;> cases hn
      exact (Signal.feeds_dropWait _ _).grows

theorem timely_start : start.Timely := by
  have hagent : ∀ a, start.agents a = { unbornAgent with turn := TopLevel.turn 0, phase := .head } ∧
      a = topLevelAgentId ∨ start.agents a = unbornAgent ∧ a ≠ topLevelAgentId := by
    intro a
    by_cases ha : a = topLevelAgentId
    · subst ha
      exact .inl ⟨rfl, rfl⟩
    · exact .inr ⟨by simp [start, ha], ha⟩
  refine ⟨?_, ?_, ?_, ⟨rfl, rfl⟩, rfl⟩
  · intro a
    rcases hagent a with ⟨heq, htop⟩ | ⟨heq, -⟩
    · refine ⟨?_, ?_, ?_, ?_, ?_, fun _ _ => htop, fun _ => ?_⟩
      · rw [heq]
        exact htop
      · simp [heq, unbornAgent]
      · intro p hp
        cases hp
      · simp [heq, unbornAgent]
      · rw [generation, heq]
        exact Nat.le_refl _
      · rw [heq, htop]
        rfl
    · constructor
      case phase =>
        rw [heq]
        exact rfl
      case wait =>
        simp [heq, unbornAgent]
      case pool =>
        intro p hp
        cases hp
      case aborted =>
        simp [heq, unbornAgent]
      case snapshot =>
        rw [generation, heq]
        exact Nat.le_refl _
      case root =>
        simp [heq, unbornAgent]
      case own =>
        simp [heq, unbornAgent]
  · intro a ha
    rcases hagent a with ⟨-, rfl⟩ | ⟨heq, -⟩
    · cases ha
    · rw [heq]
      rfl
  · intro a b ha
    rcases hagent a with ⟨heq, -⟩ | ⟨heq, -⟩ <;> rw [heq] at ha <;> cases ha

end Session

end Silo.Harness
