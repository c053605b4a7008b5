import Silo.Harness.OthersStand
import Silo.Harness.Completions
import Silo.Harness.Limits

namespace Silo.Harness

open Silo.Core Silo.Lib

def failedOutcome : Except HarnessError TurnOutcome → Bool
  | .ok (.scriptFailed _) => true
  | _ => false

def ChildResult.failed (result : ChildResult) : Bool := result.scriptFailure.isSome && !result.shutdown

def Phase.failed : Phase → Bool
  | .driving _ (.done (.ok (.scriptFailed _))) => true
  | .cancelling result _ | .returned result => failedOutcome result
  | .finishing result | .completed result => result.failed
  | .over (.ok ending) => ending.scriptMismatch.isSome
  | _ => false

theorem failed_tool {stage : Stage} {tool : ToolPc} (h : (Phase.driving stage tool).failed = true) :
    ∃ message, tool = .done (.ok (.scriptFailed message)) := by
  cases tool with
  | done result =>
      cases result with
      | error error => cases h
      | ok disposition =>
          cases disposition with
          | scriptFailed message => exact ⟨message, rfl⟩
          | output | shutdown | interrupted => cases h
  | _ => cases h

namespace Session

variable {ctx : SessionCtx} {s t : Session} {a b c : AgentId} {choice : Choice}

theorem failed_cancelStep {result : Except HarnessError TurnOutcome} {walk : Walk}
    (hphase : (s.agents a).phase = .cancelling result walk) (hfailed : failedOutcome result = true)
    (h : s.cancelStep a choice result walk = some t) : (t.agents a).phase.failed = true := by
  have hgoto : ∀ (u : Session) (phase : Phase), phase.failed = true →
      ((u.goto a phase).agents a).phase.failed = true := by
    intro u phase hp
    rw [goto_phase]
    exact hp
  rw [cancelStep] at h
  split at h
  · split at h <;> cases h
    · exact hgoto _ _ hfailed
    · exact hgoto _ _ hfailed
  · cases h
    exact hgoto _ _ hfailed
  · split at h
    · split at h <;> cases h
      · exact hgoto _ _ hfailed
      · rw [pend_phase, hphase]
        exact hfailed
    · split at h
      · cases h
        exact hgoto _ _ hfailed
      · obtain ⟨child, -, rfl⟩ := Option.map_eq_some_iff.mp h
        exact hgoto _ _ hfailed

theorem failed_returnStep {result : Except HarnessError TurnOutcome} (hfailed : failedOutcome result = true) :
    ((s.returnStep ctx a result).agents a).phase.failed = true := by
  unfold failedOutcome at hfailed
  split at hfailed
  · unfold returnStep
    split
    · simp only [completeStep, setAgent, Function.update_self]
      rfl
    · rename_i heq
      cases heq
    · simp [follow, setAgent, TopLevel.turnEnded, TopLevel.finish, Phase.failed]
  · cases hfailed

theorem failed_step (htidy : (s.agents a).Tidy) (hfailed : (s.agents a).phase.failed = true)
    (h : s.step ctx a choice = some t) : (t.agents a).phase.failed = true := by
  cases hphase : (s.agents a).phase with
  | driving stage tool =>
      have hok := htidy.tools
      rw [hphase] at hfailed hok
      obtain ⟨message, rfl⟩ := failed_tool hfailed
      cases stage with
      | running response results =>
          simp only [step, hphase, driveStep] at h
          obtain ⟨call, -, heq⟩ := Option.bind_eq_some_iff.mp h
          cases heq
          rw [advance_phase]
          rfl
      | top | asking | calling | ended => cases hok
  | cancelling result walk =>
      rw [hphase] at hfailed
      simp only [step, hphase] at h
      exact failed_cancelStep hphase hfailed h
  | returned result =>
      rw [hphase] at hfailed
      simp only [step, hphase, Option.some.injEq] at h
      subst h
      exact failed_returnStep hfailed
  | finishing result =>
      rw [hphase] at hfailed
      simp only [step, hphase, Option.some.injEq] at h
      subst h
      rw [goto_phase]
      exact hfailed
  | «over» | completed | unborn | dropped =>
      simp only [step, hphase] at h
      cases h
  | head | input | interrupting =>
      rw [hphase] at hfailed
      cases hfailed

/-- The failure is with the top level, or with a subagent whose handle is held. -/
def Carried (s : Session) : Prop :=
  ∃ a, (s.agents a).phase.failed = true ∧ (a = topLevelAgentId ∨ a ∈ s.family.handles)

/-- No cancellation joins a subagent that has met a script mismatch, and no task
that has is dropped. -/
def keepsFailures (s : Session) : Act → Bool
  | .step a _ =>
    match (s.agents a).phase with
    | .cancelling _ ⟨none, f :: _⟩ =>
      f.current.all fun child => !((s.agents child.id).finished && (s.agents child.id).phase.failed)
    | _ => true
  | .drop a => !(s.agents a).phase.failed
  | _ => true

theorem born_of_failed {phase : Phase} (h : phase.failed = true) : phase.post ≠ .unborn := by
  cases phase with
  | driving stage tool =>
      obtain ⟨message, rfl⟩ := failed_tool h
      exact nofun
  | unborn => cases h
  | _ => exact nofun

theorem join_of_post {phase : Phase} (h : phase.post = .joining c) :
    ∃ stage child, phase = .driving stage (.join child) ∧ child.id = c := by
  cases phase with
  | driving stage tool =>
      cases tool with
      | join child =>
          cases h
          exact ⟨stage, child, rfl, rfl⟩
      | done result =>
          rcases post_done result with heq | heq <;> rw [Phase.post, heq] at h <;> cases h
      | _ => cases h
  | _ => cases h

theorem walk_of_post {phase : Phase} {rest : List Nat} {frames : List (List Nat × Option Nat)}
    (h : phase.post = .walking none ((rest, some c) :: frames)) :
    ∃ result f fs child, phase = .cancelling result ⟨none, f :: fs⟩ ∧ f.current = some child ∧ child.id = c := by
  cases phase with
  | cancelling result walk =>
      obtain ⟨entering, fs⟩ := walk
      cases fs with
      | nil =>
          simp only [Phase.post, Post.walking.injEq] at h
          cases h.2
      | cons f fs =>
          simp only [Phase.post, Post.walking.injEq, List.map_cons, List.cons.injEq, Frame.ids, Prod.mk.injEq] at h
          obtain ⟨child, hchild, hid⟩ := Option.map_eq_some_iff.mp h.2.1.2
          rw [h.1]
          exact ⟨result, f, fs, child, rfl, hchild, hid⟩
  | driving stage tool =>
      cases tool with
      | done result =>
          rcases post_done result with heq | heq <;> rw [Phase.post, heq] at h <;> cases h
      | _ => cases h
  | _ => cases h

/-- A step of `a` leaves every other task that has been born where it is. -/
theorem FamilyInv.others_stay (h : FamilyInv s) (hstep : s.step ctx a choice = some t) (hb : b ≠ a)
    (hborn : (s.agents b).phase.post ≠ .unborn) : (t.agents b).phase = (s.agents b).phase := by
  cases leaves_step hstep with
  | othersStand hothersStand => exact (hothersStand b hb).phase
  | spawn stage child prompt generation hphase _ hrest =>
      refine (hrest b hb ?_).phase
      rintro rfl
      apply hborn
      exact h.ledger.spawning a child.id (by rw [post_eq, hphase]; rfl)

theorem FamilyInv.held_of_running (h : FamilyInv s) (hk : Kept s) (hrun : (s.agents a).running = true) :
    a = topLevelAgentId ∨ a ∈ s.family.handles := by
  by_cases htop : a = topLevelAgentId
  · exact .inl htop
  · refine .inr (h.attached_mem (hk.attached hrun ?_))
    have hborn : s.family.post a ≠ .unborn := by
      rw [post_eq]
      intro hp
      rw [Agent.running] at hrun
      cases hphase : (s.agents a).phase with
      | unborn =>
          rw [hphase] at hrun
          cases hrun
      | driving stage tool =>
          rw [hphase] at hp
          cases tool with
          | done result =>
              rcases post_done result with heq | heq <;> rw [Phase.post, heq] at hp <;> cases hp
          | _ => cases hp
      | _ =>
          rw [hphase] at hp
          cases hp
    obtain ⟨p, hparent, -⟩ := h.rooted.parent a hborn htop
    have hsome : (s.agents a).parent = some p := hparent
    rw [hsome]
    rintro ⟨⟩

theorem join_over {stage : Stage} {child : ChildHandle} (h : ∀ b, (s.agents b).Tidy)
    (hphase : (s.agents a).phase = .driving stage (.join child)) (hstep : s.step ctx a choice = some t)
    (hafter : (t.agents a).phase.post = .plain ∨ (t.agents a).phase.post = .leaving) :
    ∃ stage' result, (t.agents a).phase = .driving stage' (.done result) := by
  have hok := (h a).tools
  rw [hphase] at hok
  have hwait : ∀ {phase : Phase}, phase.post = .returning child.id ∨ phase.post = .joining child.id →
      ¬ (phase.post = .plain ∨ phase.post = .leaving) := by
    rintro phase (hp | hp) (hq | hq) <;> rw [hp] at hq <;> cases hq
  cases stage with
  | running response results =>
      simp only [step, hphase, driveStep] at hstep
      obtain ⟨call, -, hcall⟩ := Option.bind_eq_some_iff.mp hstep
      simp only [outsideStep, Option.none_or, childStep, Option.some.injEq] at hcall
      subst hcall
      revert hafter
      refine orAbort_place (P := fun phase => phase.post = .plain ∨ phase.post = .leaving →
        ∃ stage' result, phase = .driving stage' (.done result)) ?_ ?_
      · intro u reason _ hafter
        rw [toTool_phase] at hafter
        exact absurd hafter (hwait (.inl rfl))
      · intro u hu
        rw [joinReady]
        simp only
        split
        · exact fun _ => ⟨_, _, toolEnds_phase _ _ _ _⟩
        · exact fun _ => ⟨_, _, toolEnds_phase _ _ _ _⟩
        · intro hafter
          rw [pend_phase, hu, hphase] at hafter
          exact absurd hafter (hwait (.inr rfl))
  | top | asking | calling | ended => cases hok

theorem failed_collected (child : ChildHandle) {r : ChildResult} (h : r.failed = true) :
    ∃ message, collected child r = .scriptFailed message := by
  rw [ChildResult.failed] at h
  rw [Bool.and_eq_true, Bool.not_eq_true'] at h
  obtain ⟨message, hmessage⟩ := Option.isSome_iff_exists.mp h.1
  refine ⟨message, ?_⟩
  rw [collected, h.2, hmessage]
  rfl

theorem FamilyInv.failed_joined (h : FamilyInv s) (hstep : s.step ctx a choice = some t)
    (hpost : (s.agents a).phase.post = .joining c) (hfailed : (s.agents c).phase.failed = true)
    (hafter : (t.agents a).phase.post = .plain ∨ (t.agents a).phase.post = .leaving) :
    (t.agents a).phase.failed = true := by
  obtain ⟨stage, child, hphase, rfl⟩ := join_of_post hpost
  obtain ⟨stage', result, hdone⟩ := join_over h.tidy hphase hstep hafter
  obtain ⟨-, ⟨r, hr, hresult⟩ | hdropped⟩ := join_done h.tidy hphase hstep hdone
  · rw [hr] at hfailed
    obtain ⟨message, hmessage⟩ := failed_collected child hfailed
    rw [hdone, hresult, hmessage]
    rfl
  · rw [hdropped] at hfailed
    cases hfailed

theorem Kept.released (h : Kept s) (hab : s.family.aborted b = true)
    (hthere : (s.family.post b).droppable = true) : (s.family.post b).held = [] := by
  have hreleased : (s.agents b).phase.life.Released := h.sound.aborted_released b hab
  rw [post_eq] at hthere ⊢
  cases hphase : (s.agents b).phase with
  | driving stage tool =>
      rw [hphase] at hreleased hthere
      cases tool with
      | spawnInsert | join | reinsert => cases hreleased.1
      | spawnEntry => cases hthere
      | done result =>
          rcases post_done result with heq | heq <;> rw [Phase.post, heq] <;> rfl
      | _ => rfl
  | cancelling result walk =>
      rw [hphase] at hreleased
      have hframes : walk.frames = [] := List.map_eq_nil_iff.mp hreleased.2
      simp only [Phase.post, Post.held, hframes]
      rfl
  | _ => rfl

theorem failed_running {phase : Phase} (h : phase.failed = true) :
    phase.post.finished = true ∨ ∀ x : Agent, x.phase = phase → x.running = true := by
  cases phase with
  | completed => exact .inl rfl
  | driving | cancelling | returned | finishing | «over» =>
      refine .inr ?_
      intro x hx
      rw [Agent.running, hx]
  | _ => cases h

theorem FamilyInv.carried_step (h : FamilyInv s) (hk : Kept t) (hk' : Kept s) (ht : FamilyInv t)
    (hkeep : s.keepsFailures (.step a choice) = true) (hfam : t.family = s.family ∨
      Family.Step maxSubagentDepth s.family t.family) (hstep : s.step ctx a choice = some t)
    (hc : Carried s) : Carried t := by
  obtain ⟨c, hfailed, hheld⟩ := hc
  have hstays : (t.agents c).phase.failed = true := by
    by_cases hca : c = a
    · subst hca
      exact failed_step (h.tidy c) hfailed hstep
    · rw [h.others_stay hstep hca (born_of_failed hfailed)]
      exact hfailed
  have hactor : ∀ b, s.family.post b ≠ .unborn → t.family.post b ≠ s.family.post b → b = a := by
    intro b hborn hmoved
    by_contra hba
    apply hmoved
    rw [post_eq, post_eq, h.others_stay hstep hba hborn]
  by_cases hstill : c = topLevelAgentId ∨ c ∈ t.family.handles
  · exact ⟨c, hstays, hstill⟩
  · rw [not_or] at hstill
    have hmem := hheld.resolve_left hstill.1
    rcases hfam with heq | hs
    · rw [heq] at hstill
      exact absurd hmem hstill.2
    · cases h.ledger.lost hs hmem hstill.2 with
      | @joined b hpost hdone hafter =>
          have hba : b = a := by
            apply hactor b (by rw [hpost]; exact nofun)
            rw [hpost]
            rcases hafter with heq | heq <;> rw [heq] <;> exact nofun
          subst hba
          have hnow := h.failed_joined hstep hpost hfailed hafter
          refine ⟨b, hnow, ht.held_of_running hk ?_⟩
          rcases failed_running hnow with hfin | hrun
          · rw [post_eq] at hafter
            rcases hafter with heq | heq <;> rw [heq] at hfin <;> cases hfin
          · exact hrun _ rfl
      | @reaped b rest frames hpost hdone hafter =>
          have hba : b = a := by
            apply hactor b (by rw [hpost]; exact nofun)
            rw [hpost, hafter]
            simp
          subst hba
          obtain ⟨result, f, fs, child, hphase, hcurrent, rfl⟩ := walk_of_post hpost
          rw [post_eq, finished_post] at hdone
          simp [keepsFailures, hphase, hcurrent, hdone, hfailed] at hkeep
      | @dropped b hin hab hthere =>
          rw [hk'.released hab hthere] at hin
          cases hin

theorem FamilyInv.carried_drop (h : FamilyInv s) (hk : Kept s) (hkeep : s.keepsFailures (.drop a) = true)
    (hfam : (s.dropTask a).family = s.family ∨ Family.Step maxSubagentDepth s.family (s.dropTask a).family)
    (hc : Carried s) : Carried (s.dropTask a) := by
  obtain ⟨c, hfailed, hheld⟩ := hc
  have hca : c ≠ a := by
    rintro rfl
    rw [keepsFailures, hfailed] at hkeep
    cases hkeep
  have hothers : ∀ b, b ≠ a → ((s.dropTask a).agents b).phase = (s.agents b).phase := by
    intro b hb
    simp [dropTask, setAgent, hb]
  have hself : (s.dropTask a).family.post a = .dropped := by
    rw [post_eq]
    simp [dropTask, setAgent, Phase.post]
  have hunmoved : ∀ b, (s.dropTask a).family.post b = s.family.post b ∨ (s.dropTask a).family.post b = .dropped := by
    intro b
    by_cases hb : b = a
    · rw [hb]
      exact .inr hself
    · rw [post_eq, post_eq, hothers b hb]
      exact .inl rfl
  refine ⟨c, by rw [hothers c hca]; exact hfailed, ?_⟩
  by_contra hstill
  rw [not_or] at hstill
  have hmem := hheld.resolve_left hstill.1
  rcases hfam with heq | hs
  · rw [heq] at hstill
    exact hstill.2 hmem
  · cases h.ledger.lost hs hmem hstill.2 with
    | @joined b hpost _ hafter =>
        rcases hunmoved b with heq | heq <;> rw [heq] at hafter
        · rw [hpost] at hafter
          rcases hafter with hq | hq <;> cases hq
        · rcases hafter with hq | hq <;> cases hq
    | @reaped b rest frames hpost _ hafter =>
        rcases hunmoved b with heq | heq <;> rw [heq] at hafter
        · rw [hpost] at hafter
          simp at hafter
        · cases hafter
    | @dropped b hin hab hthere =>
        rw [hk.released hab hthere] at hin
        cases hin

theorem FamilyInv.carried_next {act : Act} (h : FamilyInv s) (hk : Kept s) (hd : s.disciplined act = true)
    (hkeep : s.keepsFailures act = true) (hnext : next ctx s act = some t) (hc : Carried s) : Carried t := by
  have hfam := (familyStep_next h.tidy hnext).family
  have hk' := kept_next hk hd hnext
  have ht := familyInv_next h hnext
  cases act with
  | send command =>
      simp only [next] at hnext
      split at hnext <;> cases hnext
      exact hc
  | hangUp | request =>
      cases hnext
      exact hc
  | step a choice =>
      simp only [next] at hnext
      split at hnext
      · cases hnext
      · exact h.carried_step hk' hk ht hkeep hfam hnext hc
  | drop a =>
      simp only [next] at hnext
      split at hnext <;> cases hnext
      exact h.carried_drop hk hkeep hfam hc

/-- When the session is over and its end is no failure, nobody has one. -/
theorem FamilyInv.not_carried (h : FamilyInv s) (hk : Kept s) {ending : SessionEnd}
    (hover : (s.agents topLevelAgentId).phase = .over (.ok ending)) (hnone : ending.scriptMismatch = none) :
    ¬ Carried s := by
  rintro ⟨c, hfailed, htop | hmem⟩
  · rw [htop, hover, Phase.failed, hnone] at hfailed
    cases hfailed
  · have hquiet := h.quiet hk (by rw [hover]; rfl)
    rw [outstanding_eq, Multiset.card_eq_zero] at hquiet
    rw [hquiet] at hmem
    exact absurd hmem (Multiset.notMem_zero c)

end Session

end Silo.Harness
