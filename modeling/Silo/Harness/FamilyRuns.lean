import Silo.Lib.FamilyReports
import Silo.Lib.FamilySignalSteps
import Silo.Harness.FamilySteps

namespace Silo.Harness

open Silo.Core Silo.Lib

namespace Session

variable {ctx : SessionCtx} {s t u : Session} {a : AgentId} {choice : Choice} {act : Act}

section Walk

variable {result : Except HarnessError TurnOutcome}

theorem family_abortTask (s : Session) (c : AgentId) :
    (s.abortTask c).family = { s.family with aborted := Function.update s.family.aborted c true } := by
  rw [abortTask, family_update]
  simp only [Family.mk.injEq, true_and, and_true]
  refine ⟨?_, ?_, ?_, ?_, ?_⟩ <;> exact Function.update_eq_self ..

theorem tidy_abortTask (h : ∀ b, (s.agents b).Tidy) (c : AgentId) :
    ∀ b, ((s.abortTask c).agents b).Tidy :=
  tidy_setAgent h ⟨(h c).tools, (h c).swift, (h c).top, (h c).root⟩

theorem finished_post (x : Agent) : x.phase.post.finished = x.finished := by
  rw [Agent.finished]
  cases hp : x.phase with
  | driving stage tool =>
      cases tool with
      | done result =>
          rw [Phase.post]
          rcases post_done result with heq | heq <;> rw [heq] <;> rfl
      | _ => rfl
  | _ => rfl

theorem marks_announced (s : Session) (c : AgentId) (text : String) (isError : Bool) :
    (s.log ++ if (s.agents c).emitted then []
      else [Record.event (.agentCompleted c text isError)]).filterMap Record.mark = if s.family.emitted c then s.family.marks
        else s.family.marks ++ [Mark.completed c (text, isError)] := by
  have hem : s.family.emitted c = (s.agents c).emitted := rfl
  rw [hem, List.filterMap_append]
  split
  · exact List.append_nil _
  · rfl

theorem familyStep_reap {child : ChildHandle} {f : Frame} {frames : List Frame} (h : ∀ b, (s.agents b).Tidy)
    (hphase : (s.agents a).phase = .cancelling result ⟨none, f :: frames⟩)
    (hcurrent : f.current = some child) (hfin : (s.agents child.id).finished = true) :
    FamilyStep s (s.reap a result child f frames) := by
  set text := "cancelled (parent ended turn without collecting)" with htext
  have hpost : s.family.post a = .walking none ((f.rest.map ChildHandle.id, some child.id) ::
      frames.map Frame.ids) := by
    rw [post_eq, hphase]
    simp [Phase.post, Frame.ids, hcurrent]
  have hfam : Session.family (({ s with permits := s.permits + 1 }.record
      (if (s.agents child.id).emitted then []
        else [.event (.agentCompleted child.id text true)])).setAgent child.id
          { s.agents child.id with emitted := true }) =
      { s.family.announce child.id (text, true) with permits := s.family.permits + 1 } := by
    rw [family_update]
    simp only [Family.announce, Family.mk.injEq]
    refine ⟨?_, ?_, ?_, ?_, rfl, ?_, rfl, rfl, rfl, rfl, rfl, ?_⟩
    · exact Function.update_eq_self ..
    · exact Function.update_eq_self ..
    · exact Function.update_eq_self ..
    · exact Function.update_eq_self ..
    · exact Function.update_eq_self ..
    · exact marks_announced s child.id text true
  unfold reap
  simp only
  refine familyStep_step (tidy_setAgent h ⟨(h child.id).tools, (h child.id).swift, (h child.id).top,
    (h child.id).root⟩) rfl rfl ?_
  rw [hfam]
  refine .reap hpost ?_
  rw [post_eq, finished_post]
  exact hfin

theorem familyStep_cancelStep {walk : Walk} (h : ∀ b, (s.agents b).Tidy)
    (hphase : (s.agents a).phase = .cancelling result walk)
    (hstep : s.cancelStep a choice result walk = some t) : FamilyStep s t := by
  have hpost : s.family.post a = .walking walk.entering (walk.frames.map Frame.ids) := by
    rw [post_eq, hphase]
    rfl
  obtain ⟨entering, frames⟩ := walk
  cases entering with
  | some e =>
      simp only [cancelStep] at hstep
      split at hstep
      · rename_i hreg
        cases hstep
        exact familyStep_step h rfl rfl (.nothing hpost (by simp [family, hreg]))
      · rename_i pool hreg
        cases hstep
        apply familyStep_step (tidy_setPool h e none) rfl rfl
        rw [family_setPool]
        have hhas : s.family.pool e = some pool.ids := by
          simp [family, hreg]
        exact .enter hpost hhas
  | none =>
      cases frames with
      | nil =>
          cases hstep
          refine familyStep_goes (sameFamily_refl h) (.inr ?_) rfl (by rintro ⟨⟩)
          rw [hphase]
          exact .back
      | cons f frames =>
          simp only [cancelStep] at hstep
          split at hstep
          · rename_i child hcurrent
            split at hstep <;> cases hstep
            · exact familyStep_reap h hphase hcurrent ‹_›
            · exact familyStep_pend (sameFamily_refl h) (by rw [hphase]; rfl)
          · rename_i hcurrent
            split at hstep
            · rename_i hrest
              cases hstep
              rw [List.isEmpty_iff] at hrest
              refine familyStep_goes (sameFamily_record h ?_) (.inr ?_) rfl (by rintro ⟨⟩)
              · split <;> rfl
              · rw [hphase]
                simp only [Phase.post, List.map_cons, Frame.ids, hrest, hcurrent]
                exact .pop
            · obtain ⟨child, hfind, rfl⟩ := Option.map_eq_some_iff.mp hstep
              apply familyStep_step (tidy_abortTask h child.id) rfl rfl
              rw [family_abortTask]
              have hframe : Frame.ids { f with
                  rest := f.rest.filter fun c => c.id ≠ child.id, current := some child } =
                  ((f.rest.map ChildHandle.id).filter (· ≠ child.id), some child.id) := by
                simp only [Frame.ids, List.filter_map]
                rfl
              simp only [Phase.post, List.map_cons]
              rw [hframe]
              have hwalk : s.family.post a = .walking none ((f.rest.map ChildHandle.id, none) ::
                  frames.map Frame.ids) := by
                rw [hpost]
                simp [Frame.ids, hcurrent]
              exact .pick hwalk (List.mem_map_of_mem (List.mem_of_find?_eq_some hfind))

end Walk

theorem familyStep_completeStep {result : Except HarnessError TurnOutcome} (h : ∀ b, (s.agents b).Tidy)
    (hphase : (s.agents a).phase = .returned result) (hchild : (s.agents a).parent ≠ none) :
    FamilyStep s (s.completeStep a result) := by
  have hpost : s.family.post a = .returned := by
    rw [post_eq, hphase]
    rfl
  refine ⟨.inr ?_, tidy_setAgent h ⟨rfl, fun _ => rfl, nofun, (h a).root⟩⟩
  have hfam : (s.completeStep a result).family = { s.family.announce a (childResultOf result).report with
      chans := Function.update s.family.chans (s.family.signal a)
        (s.family.chans (s.family.signal a) ++ [a]) }.setPost a (.finishing (childResultOf result).report) := by
    rw [completeStep]
    simp only
    rw [family_update]
    simp only [Family.announce, Family.setPost, Family.mk.injEq]
    refine ⟨rfl, ?_, ?_, ?_, rfl, ?_, rfl, rfl, rfl, rfl, rfl, ?_⟩
    · exact Function.update_eq_self ..
    · exact Function.update_eq_self ..
    · exact Function.update_eq_self ..
    · exact Function.update_eq_self ..
    · exact marks_announced s a _ _
  rw [hfam]
  exact .complete hpost hchild

theorem familyStep_follow {step : TopLevel × List Record} (hu : Noted s u a) (hr : Unmarked step.2)
    (htop : (s.agents a).parent = none) (hstage : ∀ turn stage, step.1.stage = .driving turn stage →
      turn.depth = 0 ∧ ∀ result, stage ≠ .ended result)
    (hfrom : (s.agents a).phase.post = .plain ∨ (s.agents a).phase.post = .returned) :
    FamilyStep s (u.follow a step) := by
  have hrec := hu.sameFamily.trans (sameFamily_record hu.sameFamily.tidy hr)
  have hparent : (u.agents a).parent = none :=
    (congrFun (congrArg Family.parent hu.sameFamily.family) a).trans htop
  have hroot := (hu.sameFamily.tidy a).root hparent
  obtain ⟨turn, phase, hfollow, hdepth, hpost, htools, hswift⟩ : ∃ turn phase,
      u.follow a step = (u.record step.2).setAgent a { u.agents a with
        messages := step.1.messages, failures := step.1.failures, turn := turn, phase := phase,
        suspended := false } ∧ turn.depth = 0 ∧ phase.post = .plain ∧ phase.toolOk = true ∧
        phase.swift = false := by
    unfold follow
    simp only
    cases hs : step.1.stage with
    | head | input | interrupting | «over» => exact ⟨_, _, rfl, hroot, rfl, rfl, rfl⟩
    | driving turn stage =>
        refine ⟨_, _, rfl, (hstage turn stage hs).1, rfl, ?_, rfl⟩
        cases stage <;> rfl
  have hkin : SameKin ((u.record step.2).agents a) { u.agents a with
      messages := step.1.messages, failures := step.1.failures, turn := turn, phase := phase,
      suspended := false } :=
    ⟨rfl, hdepth.trans hroot.symm, rfl, rfl, rfl⟩
  refine hrec.then ⟨?_, ?_⟩
  · rw [hfollow, family_setAgent hkin]
    simp only
    rw [hpost]
    have hnow : (u.record step.2).family.post a = (s.agents a).phase.post := by
      rw [post_eq]
      exact hrec.phase_post
    rcases hfrom with hplain | hreturned
    · exact .inl (setPost_same (by rw [hnow, hplain]))
    · exact .inr (.again (by rw [hnow, hreturned]) hparent)
  · rw [hfollow]
    refine tidy_setAgent hrec.tidy ⟨htools, ?_, fun _ => hparent, fun _ => hdepth⟩
    rw [hswift]
    exact nofun

end Session

namespace TopLevel

open Session

variable {ctx : SessionCtx} (l : TopLevel)

/-- A step of `top_level_loop` announces no subagent, and starts a turn at its
top only. -/
structure Loops (step : TopLevel × List Record) : Prop where
  unmarked : Unmarked step.2
  stage : ∀ turn stage, step.1.stage = .driving turn stage → turn.depth = 0 ∧ ∀ result, stage ≠ .ended result

theorem loops_atHead (found : Option (Option String)) : Loops (l.atHead found) := by
  cases found with
  | none => exact ⟨rfl, nofun⟩
  | some message => exact ⟨rfl, nofun⟩

theorem loops_finish (result : SessionEnd) {records : List Record} (h : Unmarked records) :
    Loops (l.finish result records) := ⟨h, nofun⟩

theorem loops_prompted (text : String) (generation : Nat) (found : Option (Option String)) :
    Loops (l.prompted ctx text generation found) := by
  cases found with
  | some message => exact ⟨rfl, nofun⟩
  | none =>
      refine ⟨?_, ?_⟩
      · simp only [prompted]
        split <;> rfl
      · intro turn stage hs
        cases hs
        exact ⟨rfl, nofun⟩

theorem loops_inputFailed (error : FrontendError) : Loops (l.inputFailed error) := by
  cases error <;> exact ⟨rfl, nofun⟩

theorem loops_turnEnded (found : Option (Option String)) (result : Except HarnessError TurnOutcome) :
    Loops (l.turnEnded ctx found result) := by
  cases result with
  | error error => exact ⟨rfl, nofun⟩
  | ok outcome =>
      cases outcome with
      | completed | interrupted | scriptFailed | shutdownRequested => exact ⟨rfl, nofun⟩
      | llmFailed message =>
          simp only [turnEnded]
          split <;> exact ⟨rfl, nofun⟩

theorem loops_interruptDone (error : Option FrontendError) : Loops (l.interruptDone error) := by
  cases error <;> exact ⟨rfl, nofun⟩

end TopLevel

namespace Session

variable {ctx : SessionCtx} {s t u : Session} {a : AgentId} {choice : Choice} {act : Act}

theorem familyStep_loops {step : TopLevel × List Record} (hu : Noted s u a) (hl : TopLevel.Loops step)
    (htop : (s.agents a).parent = none)
    (hfrom : (s.agents a).phase.post = .plain ∨ (s.agents a).phase.post = .returned) :
    FamilyStep s (u.follow a step) :=
  familyStep_follow hu hl.unmarked htop hl.stage hfrom

theorem familyStep_stepOf (h : ∀ b, (s.agents b).Tidy) (hstep : s.step ctx a choice = some t) : FamilyStep s t := by
  have hrefl := Noted.refl h a
  unfold step at hstep
  cases hphase : (s.agents a).phase with
  | head =>
      rw [hphase] at hstep
      cases hstep
      exact familyStep_loops (noted_setSignal hrefl _) (TopLevel.loops_atHead _ _)
        ((h a).top (by rw [hphase]; rfl)) (.inl (by rw [hphase]; rfl))
  | input =>
      rw [hphase] at hstep
      cases hstep
      have hfollow : ∀ {u step}, Noted s u a → TopLevel.Loops step → FamilyStep s (u.follow a step) :=
        fun hu hl => familyStep_loops hu hl ((h a).top (by rw [hphase]; rfl)) (.inl (by rw [hphase]; rfl))
      have hpend : ∀ u, Noted s u a → FamilyStep s (u.pend a) :=
        fun u hu => familyStep_pend hu.sameFamily (by rw [hu.phase, hphase]; rfl)
      apply familyStep_orAbort h
      · intro u reason hu
        cases reason with
        | shutdown message => exact hfollow hu (TopLevel.loops_finish _ _ rfl)
        | interrupted => exact hpend u hu
      · intro u hu
        have hfreed := noted_dropWait hu
        unfold inputReady
        simp only
        split
        · exact hfollow (noted_setSignal hfreed _) (TopLevel.loops_prompted _ _ _ _)
        · exact hfollow hfreed (TopLevel.loops_inputFailed _ _)
        · exact hpend u hu
  | interrupting =>
      simp only [hphase] at hstep
      split at hstep <;> cases hstep
      · exact familyStep_loops hrefl (TopLevel.loops_interruptDone _ _) ((h a).top (by rw [hphase]; rfl))
          (.inl (by rw [hphase]; rfl))
      · exact familyStep_pend hrefl.sameFamily (by rw [hphase]; rfl)
  | driving stage tool =>
      rw [hphase] at hstep
      exact familyStep_driveStep h hphase hstep
  | cancelling result walk =>
      rw [hphase] at hstep
      exact familyStep_cancelStep h hphase hstep
  | returned result =>
      rw [hphase] at hstep
      cases hstep
      have hreturned : (s.agents a).phase.post = .returned := by
        rw [hphase]
        rfl
      unfold returnStep
      split
      · rename_i parent hparent
        exact familyStep_completeStep h hphase (by rw [hparent]; exact nofun)
      · rename_i hparent
        exact familyStep_loops (noted_setSignal hrefl _) (TopLevel.loops_turnEnded _ _ _) hparent (.inr hreturned)
      · rename_i hparent _
        exact familyStep_loops hrefl (TopLevel.loops_turnEnded _ _ _) hparent (.inr hreturned)
  | finishing result =>
      rw [hphase] at hstep
      cases hstep
      refine familyStep_goes hrefl.sameFamily (.inr ?_) rfl nofun
      rw [hphase]
      exact .finish
  | unborn | «over» | completed | dropped =>
      rw [hphase] at hstep
      cases hstep

theorem held_ids {phase : Phase} (hswift : phase.swift = false) :
    phase.held.map ChildHandle.id = phase.post.held := by
  cases phase with
  | driving stage tool =>
      cases tool with
      | spawnEntry => cases hswift
      | done result =>
          rw [Phase.post]
          rcases post_done result with heq | heq <;> rw [heq] <;> rfl
      | _ => rfl
  | cancelling result walk =>
      simp only [Phase.held, Phase.post, Post.held, List.map_flatMap, List.flatMap_map]
      apply List.flatMap_congr
      intro f _
      cases hf : f.current <;> simp [Frame.ids, hf]
  | _ => rfl

theorem held_length {phase : Phase} (hswift : phase.swift = false) :
    phase.held.length = phase.post.held.length := by
  rw [← held_ids hswift, List.length_map]

theorem familyStep_dropTask (h : ∀ b, (s.agents b).Tidy) (haborted : (s.agents a).aborted = true)
    (hsuspended : (s.agents a).suspended = true) (hrunning : (s.agents a).running = true) :
    FamilyStep s (s.dropTask a) := by
  have hswift : (s.agents a).phase.swift = false := by
    by_contra hs
    have := (h a).swift (by simpa using hs)
    rw [hsuspended] at this
    cases this
  have hthere : (s.agents a).phase.post.droppable = true := by
    rw [Agent.running] at hrunning
    cases hp : (s.agents a).phase with
    | driving stage tool =>
        rw [hp] at hswift
        cases tool with
        | spawnEntry => cases hswift
        | done result =>
            rw [Phase.post]
            rcases post_done result with heq | heq <;> rw [heq] <;> rfl
        | _ => rfl
    | finishing =>
        rw [hp] at hswift
        cases hswift
    | unborn | completed | dropped =>
        rw [hp] at hrunning
        cases hrunning
    | _ => rfl
  refine ⟨.inr ?_, tidy_setAgent h ⟨rfl, by rintro ⟨⟩, by rintro ⟨⟩, (h a).root⟩⟩
  have hfam : (s.dropTask a).family =
      { s.family with permits := s.family.permits + (s.family.post a).held.length }.setPost a .dropped := by
    rw [dropTask]
    simp only
    rw [held_length hswift]
    exact family_setAgent ⟨rfl, rfl, rfl, rfl, rfl⟩
  rw [hfam]
  exact .drop haborted hthere

theorem familyStep_next (h : ∀ b, (s.agents b).Tidy) (hnext : next ctx s act = some t) : FamilyStep s t := by
  cases act with
  | send command =>
      simp only [next] at hnext
      split at hnext <;> cases hnext
      exact ⟨.inl rfl, h⟩
  | hangUp | request =>
      cases hnext
      exact ⟨.inl rfl, h⟩
  | step a choice =>
      simp only [next] at hnext
      split at hnext
      · cases hnext
      · exact familyStep_stepOf h hnext
  | drop a =>
      simp only [next] at hnext
      split at hnext
      · rename_i hcond
        cases hnext
        simp only [Bool.and_eq_true] at hcond
        exact familyStep_dropTask h hcond.1.1 hcond.1.2 hcond.2
      · cases hnext

structure FamilyInv (s : Session) : Prop where
  tidy : ∀ b, (s.agents b).Tidy
  ledger : s.family.Ledger maxConcurrentSubagents
  reported : s.family.Reported
  signals : s.family.Signals
  shallow : s.family.Shallow maxSubagentDepth
  rooted : s.family.Rooted

theorem familyInv_next (h : FamilyInv s) (hnext : next ctx s act = some t) : FamilyInv t := by
  obtain ⟨hfam, htidy⟩ := familyStep_next h.tidy hnext
  rcases hfam with heq | hstep
  · exact ⟨htidy, heq ▸ h.ledger, heq ▸ h.reported, heq ▸ h.signals, heq ▸ h.shallow,
      heq ▸ h.rooted⟩
  · exact ⟨htidy, h.ledger.step hstep, h.reported.step h.ledger hstep, h.signals.step h.ledger hstep,
      h.shallow.step hstep, h.rooted.step h.ledger hstep⟩

theorem start_post (a : AgentId) : start.family.post a = if a = topLevelAgentId then .plain else .unborn := by
  rw [post_eq, start]
  by_cases ha : a = topLevelAgentId
  · simp [ha, Phase.post]
  · simp [ha, unbornAgent, Phase.post]

theorem start_plain (a : AgentId) :
    start.family.parent a = none ∧ start.family.depth a = 0 ∧ start.family.aborted a = false ∧
      start.family.emitted a = false ∧ start.family.pool a = none := by
  simp only [family, start]
  by_cases ha : a = topLevelAgentId
  · subst ha
    exact ⟨rfl, rfl, rfl, rfl, rfl⟩
  · simp [ha, unbornAgent]

theorem familyInv_start : FamilyInv start := by
  have hposts : ∀ a, start.family.post a = .plain ∨ start.family.post a = .unborn := by
    intro a
    rw [start_post]
    split
    · exact .inl rfl
    · exact .inr rfl
  have hkids : ∀ a, start.family.kids a = [] := by
    intro a
    rw [Family.kids, (start_plain a).2.2.2.2]
    rfl
  have hhandles : start.family.handles = 0 := by
    apply Finset.sum_eq_zero
    intro a _
    rw [Family.owns, hkids]
    rcases hposts a with hp | hp <;> rw [hp] <;> rfl
  have hloose : ∀ c, ¬ start.family.Loose c := by
    rintro c ⟨b, hc | hc⟩
    · rw [hkids] at hc
      cases hc
    · rcases hposts b with hp | hp <;> rw [hp] at hc <;> cases hc
  have huses : ∀ a n, ¬ start.family.Uses a n := by
    intro a n
    refine Family.uses_of_none (start_plain a).2.2.2.2 ?_
    rcases hposts a with hp | hp <;> rw [hp] <;> rfl
  refine ⟨?_, ⟨Nat.one_pos, ?_, fun a _ => (start_plain a).2.2.2.2, ?_, ?_, ?_, ?_, ?_, ?_⟩,
    ⟨rfl, ?_, ?_, ?_⟩, ⟨?_, fun a b n ha => absurd ha (huses a n), by rintro _ _ ⟨⟩⟩, ⟨?_, ?_⟩,
    ⟨?_, ?_⟩⟩
  · intro b
    by_cases hb : b = topLevelAgentId
    · subst hb
      exact ⟨rfl, by rintro ⟨⟩, fun _ => rfl, fun _ => rfl⟩
    · have heq : start.agents b = unbornAgent := by simp [start, hb]
      rw [heq]
      exact ⟨rfl, by rintro ⟨⟩, by rintro ⟨⟩, fun _ => rfl⟩
  · intro a ha
    rw [start_post, if_neg]
    exact Nat.ne_of_gt ha
  · intro a c hp
    rcases hposts a with hq | hq <;> rw [hq] at hp <;> cases hp
  · rw [hhandles]
    exact Multiset.nodup_zero
  · intro c hc
    rw [hhandles] at hc
    cases hc
  · rw [hhandles]
    rfl
  · exact fun c hc => absurd hc (hloose c)
  · intro c hc
    rw [(start_plain c).2.2.1] at hc
    cases hc
  · intro c
    rcases hposts c with hp | hp <;> rw [hp] <;> exact ⟨(start_plain c).2.2.2.1, rfl⟩
  · intro before after c r hmarks
    have hnil : start.family.marks = [] := rfl
    rw [hnil] at hmarks
    simp at hmarks
  · intro c hc
    exact absurd (start_plain c).1 hc
  · intro a
    have hp := hposts a
    refine Family.wired_of_none (start_plain a).2.2.2.2 ?_ ?_ ?_ ?_ ?_
    · rcases hp with hp | hp <;> rw [hp] <;> rfl
    · intro e frames he
      rcases hp with hp | hp <;> rw [hp] at he <;> cases he
    · rcases hp with hp | hp <;> rw [hp] <;> rfl
    · rcases hp with hp | hp <;> rw [hp] <;> rfl
    · rcases hp with hp | hp <;> rw [hp] <;> rintro ⟨⟩
  · intro a
    rw [(start_plain a).2.1]
    exact Nat.zero_le _
  · intro a c hp
    rcases hposts a with hq | hq <;> rw [hq] at hp <;> cases hp
  · intro a hb hne
    rw [start_post, if_neg (show a ≠ topLevelAgentId from hne)] at hb
    exact absurd rfl hb
  · intro a c hp
    rcases hposts a with hq | hq <;> rw [hq] at hp <;> cases hp

theorem familyInv_of_reachable (h : (machine ctx).Reachable s) : FamilyInv s := by
  refine Machine.ReachableUnder.invariant (I := FamilyInv) ?_ (fun hh _ hnext => familyInv_next hh hnext) h
  rintro _ rfl
  exact familyInv_start

end Session

end Silo.Harness
