import Silo.Harness.Stops
import Silo.Harness.TurnRuns

namespace Silo.Harness

open Silo.Core Silo.Lib

/-- The task has a `drive` to finish, or itself. -/
def Phase.busy : Phase → Bool
  | .driving _ _ | .cancelling _ _ | .returned _ | .finishing _ => true
  | _ => false

namespace Session

variable {ctx : SessionCtx} {s t : Session} {a b c : AgentId} {g : Nat} {act : Act}

/-- The task is polled, and if there is nothing but the outside to wait for,
that has answered; or it is dropped. A task with no `drive` to finish asks for
nothing. -/
def serves (s : Session) (act : Act) (b : AgentId) : Prop :=
  (s.agents b).phase.busy = false ∨ act = .drop b ∨
    ∃ choice, act = .step b choice ∧ (s.agents b).phase.fits choice.answer = true

/-- The child that a cancellation of `a` waits for, while it runs. -/
def awaited (s : Session) (a : AgentId) : Option AgentId :=
  (s.agents a).phase.joining.filter fun c => !(s.agents c).finished

/-- The task on which the end of `a`'s turn depends next. -/
def helper (a : AgentId) (s : Session) : AgentId := (s.awaited a).getD a

theorem awaited_eq_some (h : s.awaited a = some c) :
    (s.agents a).phase.joining = some c ∧ (s.agents c).finished = false := by
  obtain ⟨hj, hf⟩ := Option.filter_eq_some_iff.mp h
  exact ⟨hj, by simpa using hf⟩

theorem finished_of_awaited (h : s.awaited a = none) (hj : (s.agents a).phase.joining = some c) :
    (s.agents c).finished = true := by
  rw [awaited, hj] at h
  simpa [Option.filter] using h

theorem awaited_congr (hphase : (t.agents a).phase = (s.agents a).phase)
    (hfin : ∀ c, (s.agents a).phase.joining = some c → (t.agents c).finished = (s.agents c).finished) :
    t.awaited a = s.awaited a := by
  rw [awaited, awaited, hphase]
  cases hj : (s.agents a).phase.joining with
  | none => rfl
  | some c => simp [Option.filter, hfin c hj]

theorem busy_of_inTurn {phase : Phase} (h : phase.inTurn = true) : phase.busy = true := by
  cases phase with
  | driving | cancelling => rfl
  | _ => cases h

/-- What a turn waits for in its cancellation is one of its own children, which
has been aborted and cannot take a step. -/
structure Awaited (s : Session) (a c : AgentId) : Prop where
  kin : s.Kin a c
  aborted : (s.agents c).aborted = true
  suspended : (s.agents c).suspended = true
  busy : (s.agents c).phase.busy = true

theorem suspended_of_aborted (h : s.AgentOk a) (hbusy : (s.agents a).phase.busy = true)
    (hab : (s.agents a).aborted = true) : (s.agents a).suspended = true := by
  have hpoll := h.aborted hab
  rw [Agent.polling] at hpoll
  cases hs : (s.agents a).suspended with
  | true => rfl
  | false =>
      rw [hs] at hpoll
      cases hp : (s.agents a).phase with
      | driving | cancelling | returned | finishing =>
          rw [hp] at hpoll
          cases hpoll
      | _ =>
          rw [hp] at hbusy
          cases hbusy

theorem Timely.awaited (h : s.Timely) (hc : s.awaited a = some c) : s.Awaited a c := by
  obtain ⟨hj, hfin⟩ := awaited_eq_some hc
  have hframe : s.Kin a c ∧ ((s.agents c).aborted = true ∨ (s.agents c).finished = true) := by
    have hphase := (h.ok a).phase
    unfold Phase.joining at hj
    split at hj
    · rename_i result f frames heq
      rw [heq] at hphase
      obtain ⟨child, hchild, rfl⟩ := Option.map_eq_some_iff.mp hj
      exact (hphase.2.frames f (by simp)).current child hchild
    · cases hj
  obtain ⟨hkin, haborted⟩ := hframe
  have haborted : (s.agents c).aborted = true := by
    rcases haborted with hab | hf
    · exact hab
    · rw [hfin] at hf
      cases hf
  have hbusy : (s.agents c).phase.busy = true := by
    have hne : c ≠ topLevelAgentId := Nat.ne_of_gt (Nat.lt_of_le_of_lt (Nat.zero_le a) hkin.younger)
    have hphase := (h.ok c).phase
    cases hp : (s.agents c).phase with
    | driving | cancelling | returned | finishing => rfl
    | unborn => exact absurd hp hkin.born
    | completed | dropped => simp [Agent.finished, hp] at hfin
    | head | input | interrupting =>
        rw [hp] at hphase
        exact absurd hphase hne
    | «over» result =>
        rw [hp] at hphase
        cases result with
        | error error => exact absurd hphase hne
        | ok e => exact absurd hphase.1 hne
  exact ⟨hkin, haborted, suspended_of_aborted (h.ok c) hbusy haborted, hbusy⟩

theorem Awaited.no_step (h : s.Awaited a c) (choice : Choice) : next ctx s (.step c choice) = none := by
  simp [next, h.aborted, h.suspended]

theorem Awaited.born (h : s.Awaited a c) (hs : s.Timely) : c < s.counter := by
  by_contra hge
  exact h.kin.born (hs.fresh c (Nat.not_lt.mp hge))

theorem cost_pos {phase : Phase} (h : phase.busy = true) : 0 < phase.cost := by
  cases phase with
  | driving stage tool => cases stage <;> simp [Phase.cost]
  | cancelling result walk => simp [Phase.cost]
  | returned | finishing => simp [Phase.cost]
  | _ => cases h

theorem drop_of_next (h : next ctx s (.drop b) = some t) :
    t = s.dropTask b ∧ (s.agents b).running = true := by
  simp only [next] at h
  split at h
  · rename_i hcond
    cases h
    simp only [Bool.and_eq_true] at hcond
    exact ⟨rfl, hcond.2⟩
  · cases h

theorem helper_busy (h : s.Timely) (hturn : (s.agents a).phase.inTurn = true) :
    (s.agents (helper a s)).phase.busy = true := by
  cases hc : s.awaited a with
  | none =>
      rw [helper, hc]
      exact busy_of_inTurn hturn
  | some c =>
      rw [helper, hc]
      exact (h.awaited hc).busy

theorem unserved_step {choice : Choice} (hbusy : (s.agents b).phase.busy = true)
    (h : b = c → (s.agents c).phase.fits choice.answer = false) : ¬ s.serves (.step c choice) b := by
  rintro (hidle | hdrop | ⟨choice', hact, hfits⟩)
  · rw [hbusy] at hidle
    cases hidle
  · cases hdrop
  · cases hact
    rw [h rfl] at hfits
    cases hfits

def Nearer (g : Nat) (a : AgentId) (s : Session) (act : Act) (t : Session) : Prop :=
  (t.agents a).phase.inTurn = false ∨ t.burden g < s.burden g ∨
    (t.burden g = s.burden g ∧ helper a t = helper a s ∧ ¬ s.serves act (helper a s))

theorem nearer_of_le (hle : t.burden g ≤ s.burden g)
    (h : t.burden g = s.burden g → helper a t = helper a s ∧ ¬ s.serves act (helper a s)) :
    Nearer g a s act t := by
  rcases Nat.lt_or_eq_of_le hle with hlt | heq
  · exact .inr (.inl hlt)
  · exact .inr (.inr ⟨heq, h heq⟩)

section Steps

variable (hs : s.Timely) (hr : s.Ripe g) (hturn : (s.agents a).phase.inTurn = true)
  (hgen : s.generation a ≤ g)

include hs hr hturn hgen

theorem nearer_step {choice : Choice} (hn : next ctx s (.step b choice) = some t) :
    Nearer g a s (.step b choice) t := by
  have hon := taskStep_of_next hs hn
  obtain ⟨hact, hlt, -⟩ := acting_of_next hs hn
  apply nearer_of_le (hon.burden_le hs hlt hr)
  intro heq
  have hborn : (s.agents a).phase ≠ .unborn := by
    intro hu
    rw [hu] at hturn
    cases hturn
  have hprod : b = a → ¬ Productive s t a choice.answer := by
    rintro rfl hp
    exact Nat.ne_of_lt (hon.burden_lt hs hlt hr hgen hp) heq
  have hphase : (t.agents a).phase = (s.agents a).phase := by
    by_cases hb : a = b
    · by_contra hne
      exact hprod hb.symm ⟨hturn, .inl hne⟩
    · exact (hon.staysPut a hb hborn).phase
  have hjoined : ∀ c, (s.agents a).phase.joining = some c → b ≠ c := by
    rintro c hj rfl
    have haw : s.awaited a = some b := by
      rw [awaited, hj]
      simp [Option.filter, hact.unfinished]
    rw [(hs.awaited haw).no_step] at hn
    cases hn
  have hfin : ∀ c, (s.agents a).phase.joining = some c → (t.agents c).finished = (s.agents c).finished := by
    intro c hj
    have hbs : StaysPut s t c := by
      by_cases hc : (s.agents c).phase = .unborn
      · have hk : s.awaited a = some c := by
          rw [awaited, hj]
          simp [Option.filter, Agent.finished, hc]
        exact absurd hc (hs.awaited hk).kin.born
      · exact hon.staysPut c (hjoined c hj).symm hc
    rw [Agent.finished, Agent.finished, hbs.phase]
  have haw := awaited_congr hphase hfin
  refine ⟨by rw [helper, helper, haw], unserved_step (helper_busy hs hturn) ?_⟩
  intro hb
  cases hc : s.awaited a with
  | some c =>
      rw [helper, hc] at hb
      exact absurd hb.symm (hjoined c (awaited_eq_some hc).1)
  | none =>
      rw [helper, hc] at hb
      change a = b at hb
      subst hb
      by_contra hfits
      refine hprod rfl ⟨hturn, .inr ⟨by simpa using hfits, fun c hj => finished_of_awaited hc hj⟩⟩

omit hr in
theorem nearer_drop (hn : next ctx s (.drop b) = some t) : Nearer g a s (.drop b) t := by
  obtain ⟨rfl, hrun⟩ := drop_of_next hn
  by_cases hba : b = a
  · subst hba
    exact .inl (by simp [dropTask, setAgent, Phase.inTurn])
  have hother : ∀ c, c ≠ b → (s.dropTask b).agents c = s.agents c := by
    intro c hc
    simp [dropTask, setAgent, hc]
  by_cases haw : s.awaited a = some b
  · have hb := hs.awaited haw
    exact .inr (.inl (burden_dropTask_lt (hb.born hs) (Nat.le_trans hb.kin.generation hgen)
      (cost_pos hb.busy)))
  have hjoined : ∀ c, (s.agents a).phase.joining = some c → c ≠ b := by
    rintro c hj rfl
    apply haw
    rw [awaited, hj]
    simp only [Agent.running, Agent.finished] at hrun ⊢
    cases hp : (s.agents c).phase <;> simp_all [Option.filter]
  refine nearer_of_le burden_dropTask_le fun _ => ?_
  have heq : (s.dropTask b).awaited a = s.awaited a := by
    refine awaited_congr (by rw [hother a (Ne.symm hba)]) ?_
    intro c hj
    rw [hother c (hjoined c hj)]
  have hhelper : helper a s ≠ b := by
    cases hc : s.awaited a with
    | none =>
        rw [helper, hc]
        exact Ne.symm hba
    | some c =>
        rw [helper, hc]
        exact hjoined c (awaited_eq_some hc).1
  refine ⟨by rw [helper, helper, heq], ?_⟩
  rintro (hidle | hdrop | ⟨choice, hact, -⟩)
  · rw [helper_busy hs hturn] at hidle
    cases hidle
  · cases hdrop
    exact hhelper rfl
  · cases hact

theorem nearer_next (hn : next ctx s act = some t) : Nearer g a s act t := by
  have hquiet : ∀ sig, t = { s with signal := sig } → (∀ b, act ≠ .drop b) →
      (∀ b choice, act ≠ .step b choice) → Nearer g a s act t := by
    rintro sig rfl hdrop hstep
    refine nearer_of_le (Nat.le_refl _) fun _ => ⟨rfl, ?_⟩
    rintro (hidle | hact | ⟨choice, hact, -⟩)
    · rw [helper_busy hs hturn] at hidle
      cases hidle
    · exact hdrop _ hact
    · exact hstep _ _ hact
  cases act with
  | send command =>
      simp only [next] at hn
      split at hn <;> cases hn
      exact hquiet _ rfl (by simp) (by simp)
  | hangUp =>
      cases hn
      exact hquiet _ rfl (by simp) (by simp)
  | request message =>
      cases hn
      exact hquiet _ rfl (by simp) (by simp)
  | step b choice => exact nearer_step hs hr hturn hgen hn
  | drop b => exact nearer_drop hs hturn hgen hn

end Steps

theorem eventually_outside {ρ : (machine ctx).Run fun s act => s.atomic act = true}
    (hfair : ρ.Fair serves) (hs : (ρ.state 0).Timely) (hdue : (ρ.state 0).Due a) :
    ∃ m, ((ρ.state m).agents a).phase.inTurn = false := by
  by_contra hnever
  have hturn : ∀ m, ((ρ.state m).agents a).phase.inTurn = true := by
    intro m
    by_contra hm
    exact hnever ⟨m, by simpa using hm⟩
  have htimely : ∀ m, (ρ.state m).Timely := by
    intro m
    induction m with
    | zero => exact hs
    | succ m ih => exact timely_next ih (ρ.allowed m) (ρ.steps m)
  have hkept : ∀ m, (ρ.state m).generation a = (ρ.state 0).generation a ∧
      (ρ.state m).Ripe ((ρ.state 0).generation a) := by
    intro m
    induction m with
    | zero => exact ⟨rfl, hdue⟩
    | succ m ih =>
        have hgoes := goes_next (htimely m) (ρ.steps m) (hturn m)
        exact ⟨hgoes.generation.trans ih.1, ih.2.grows hgoes.grows⟩
  set g := (ρ.state 0).generation a
  have hstep : ∀ {s act t}, (s.Timely ∧ s.Ripe g ∧ s.generation a = g) → s.atomic act = true →
      (machine ctx).next s act = some t → ¬ (s.agents a).phase.inTurn = false → Nearer g a s act t :=
    fun hI _ hn hgoal => nearer_next hI.1 hI.2.1 (by simpa using hgoal) (Nat.le_of_eq hI.2.2) hn
  obtain ⟨m, -, hout⟩ := hfair.eventually (fun s => s.burden g) (helper a)
    (fun m => ⟨htimely m, (hkept m).2, (hkept m).1⟩) hstep 0
  rw [hturn m] at hout
  cases hout

/-- The `drive` of `b` has returned, or `b` has been aborted and dropped. -/
def Stopped (s : Session) (b : AgentId) : Prop :=
  (∃ result, (s.agents b).phase = .returned result) ∨
    ((s.agents b).phase = .dropped ∧ (s.agents b).aborted = true)

theorem eventually_stopped {ρ : (machine ctx).Run fun s act => s.atomic act = true}
    (hfair : ρ.Fair serves) (hs : (ρ.state 0).Timely) (hturn : ((ρ.state 0).agents a).phase.inTurn = true)
    (hdue : (ρ.state 0).Due a) :
    ∃ m, (ρ.state m).Stopped a ∧ ∀ k, k < m → ((ρ.state k).agents a).phase.inTurn = true := by
  have hex := eventually_outside hfair hs hdue
  have hfirst : ∀ k, k < Nat.find hex → ((ρ.state k).agents a).phase.inTurn = true := by
    intro k hk
    simpa using Nat.find_min hex hk
  have hout := Nat.find_spec hex
  cases hm : Nat.find hex with
  | zero =>
      rw [hm, hturn] at hout
      cases hout
  | succ m =>
      rw [hm] at hout hfirst
      have htimely : (ρ.state m).Timely :=
        (ρ.runsTo m).invariant (fun hs hat hn => timely_next hs hat hn) hs
      refine ⟨m + 1, ?_, hfirst⟩
      rcases (goes_next htimely (ρ.steps m) (hfirst m (Nat.lt_succ_self m))).place with hin | hend
      · rw [hout] at hin
        cases hin
      · exact hend

end Session

end Silo.Harness
