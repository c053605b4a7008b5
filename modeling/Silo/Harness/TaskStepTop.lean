import Silo.Harness.TaskStepTurn

namespace Silo.Harness

open Silo.Core Silo.Lib

namespace Session

variable {ctx : SessionCtx} {s t u : Session} {a : AgentId} {answer : Answer}

theorem taskStep_ends {phase : Phase} {result : ChildResult} {e : Bool} (hact : Acting s a)
    (hnew : phase = .finishing result ∨ phase = .completed result)
    (hself : t.agents a = { s.agents a with phase := phase, emitted := e, suspended := false })
    (hothers : ∀ b, b ≠ a → t.agents b = s.agents b) (hreg : t.registry = s.registry)
    (hcounter : t.counter = s.counter) (hsignal : t.signal = s.signal) (hnotes : Notes s t)
    (hidle : (s.agents a).phase.waitKind (s.generation a) = none)
    (hrx : (s.agents a).phase.usesRx = false)
    (hshutdown : result.shutdown = true → s.signal.state.isSome = true)
    (hcost : phase.cost < (s.agents a).phase.cost) : TaskStep s t a answer := by
  have hal : Alone s t a := by
    refine ⟨?_, by rw [hself], by rw [hself], by rw [hself], Nat.le_of_eq hcounter.symm,
      by rw [hsignal]; exact .refl _⟩
    intro b hb
    exact staysPut_of_eq (hothers b hb) (by rw [hreg])
  have hborn : (t.agents a).phase ≠ .unborn := by
    rw [hself]
    rcases hnew with rfl | rfl <;> simp
  refine taskStep_alone hact hal (hnotes.words (by rw [hself])) hborn ?_ ?_ ?_ (.lighter ?_)
  · rw [hself]
    rw [← hsignal] at hshutdown
    rcases hnew with rfl | rfl <;> exact hshutdown
  · intro w hw
    rw [hself] at hw
    have hk := (hact.ok.wait w hw).kind
    rw [hidle] at hk
    cases hk
  · exact poolOk_alone hact hal (by rw [hreg]) hrx
  · rw [weight, weight, hself, hreg]
    exact Nat.add_lt_add_right hcost _

theorem taskStep_completeStep {result : Except HarnessError TurnOutcome} (hact : Acting s a)
    (hphase : (s.agents a).phase = .returned result) : TaskStep s (s.completeStep a result) a answer := by
  have hok := hact.ok.phase
  rw [hphase] at hok
  have hnotes : Notes s (s.completeStep a result) := by
    refine notes_records rfl rfl ?_
    split
    · exact silent_nil
    · simp [Silent, Record.command, Record.speaker]
  have hself : (s.completeStep a result).agents a = { s.agents a with
      phase := .finishing (childResultOf result), emitted := true, suspended := false } := by
    simp [completeStep, record, setAgent]
  refine taskStep_ends hact (.inl rfl) hself (fun b hb => by simp [completeStep, record, setAgent, hb])
    rfl rfl rfl hnotes (by rw [hphase]; rfl) (by rw [hphase]; rfl) ?_ (by rw [hphase]; exact Nat.lt_succ_self 1)
  intro hs
  cases result with
  | error error => cases hs
  | ok outcome =>
      cases outcome with
      | shutdownRequested => exact hok
      | completed | llmFailed | scriptFailed | interrupted => cases hs

theorem taskStep_joinable {result : ChildResult} (hact : Acting s a)
    (hphase : (s.agents a).phase = .finishing result) :
    TaskStep s (s.goto a (.completed result)) a answer := by
  have hok := hact.ok.phase
  rw [hphase] at hok
  exact taskStep_ends hact (.inr rfl) (by simp [goto, setAgent]; rfl)
    (fun b hb => by simp [goto, setAgent, hb]) rfl rfl rfl (.refl s) (by rw [hphase]; rfl)
    (by rw [hphase]; rfl) hok (by rw [hphase]; exact Nat.one_pos)

/-- The place of the top level that a step of its loop leads to, where it is
not in a turn. -/
def loopPhase : LoopStage → Option Phase
  | .head => some .head
  | .input => some .input
  | .interrupting => some .interrupting
  | .over result => some (.over result)
  | .driving _ _ => none

theorem taskStep_follow {step : TopLevel × List Record} (phase : Phase) (hact : Acting s a)
    (houtside : (s.agents a).phase.inTurn = false) (hrx : (s.agents a).phase.usesRx = false)
    (hc : OnlyLooks s u a) (hwait : (u.agents a).wait = none) (hstage : loopPhase step.1.stage = some phase)
    (hmess : step.1.messages = (u.agents a).messages) (hsilent : Silent step.2)
    (hok : (u.follow a step).PhaseOk a phase) : TaskStep s (u.follow a step) a answer := by
  set t := u.follow a step
  have hself : t.agents a = { u.agents a with
      messages := step.1.messages, failures := step.1.failures, phase := phase, suspended := false } := by
    cases hs : step.1.stage <;> rw [hs] at hstage <;> cases hstage <;>
      simp [t, follow, record, setAgent, hs]
  have hal : Alone s t a := by
    refine ⟨?_, by rw [hself]; exact hc.turn, ?_, by rw [hself]; exact hc.aborted,
      Nat.le_of_eq hc.counter.symm, hc.feeds⟩
    · intro b hb
      apply staysPut_of_eq
      · simp [t, follow, record, setAgent, hb, hc.others b hb]
      · simp [t, follow, record, setAgent, hc.registry]
    · rw [hself, hc.agent]
  have hreg : t.registry a = s.registry a := by simp [t, follow, record, setAgent, hc.registry]
  have hnotes : Notes s t := hc.notes.trans (notes_records rfl rfl hsilent)
  have hborn : phase ≠ .unborn := by
    cases hs : step.1.stage <;> rw [hs] at hstage <;> cases hstage <;> simp
  have hcost : phase.cost = 0 := by
    cases hs : step.1.stage <;> rw [hs] at hstage <;> cases hstage <;> rfl
  refine taskStep_alone hact hal (hnotes.words (by rw [hself]; exact hmess.trans hc.messages)) (by rw [hself]; exact hborn)
    (by rw [hself]; exact hok) ?_ ?_ (.between houtside ?_)
  · intro w hw
    rw [hself] at hw
    simp only [hwait] at hw
    cases hw
  · exact poolOk_alone hact hal hreg hrx
  · simp only [weight, hself, hreg, hcost]
    omega

theorem assistants_pushUserPrompt (messages : List Message) (text : String) :
    assistants (pushUserPrompt messages text) = assistants messages := by
  rw [pushUserPrompt]
  split
  · rename_i content hlast
    have hsplit := List.dropLast_append_getLast? _ hlast
    rw [assistants_user]
    conv_rhs => rw [← hsplit, assistants_user]
  · exact assistants_user _ _

/-- A prompt starts a turn, with the interrupts applied so far as its
snapshot. -/
theorem taskStep_prompted {text : String} (hact : Acting s a) (htop : a = topLevelAgentId)
    (houtside : (s.agents a).phase.inTurn = false) (hrx : (s.agents a).phase.usesRx = false) (hc : OnlyLooks s u a) (hwait : (u.agents a).wait = none)
    (hstate : u.signal.state = none) :
    TaskStep s (u.follow a ((u.topLevel a).prompted ctx text u.signal.interrupts none)) a answer := by
  set t := u.follow a ((u.topLevel a).prompted ctx text u.signal.interrupts none)
  have hself : t.agents a = { u.agents a with
      messages := pushUserPrompt (u.agents a).messages text, turn := TopLevel.turn u.signal.interrupts,
      phase := .driving .top .idle, suspended := false } := by
    simp [t, follow, topLevel, TopLevel.prompted, record, setAgent]
  have hstaysPut : ∀ b, b ≠ a → StaysPut s t b := by
    intro b hb
    apply staysPut_of_eq
    · simp [t, follow, record, setAgent, hb, hc.others b hb]
    · simp [t, follow, record, setAgent, hc.registry]
  have hsig : t.signal = u.signal := rfl
  have hgen : t.generation a = u.signal.interrupts := by
    rw [generation, hself]
    rfl
  have hsilent : Silent ((u.topLevel a).prompted ctx text u.signal.interrupts none).2 := by
    simp only [TopLevel.prompted]
    split
    · exact silent_nil
    · simp [Silent, Record.command, Record.speaker]
  have hnotes : Notes s t := hc.notes.trans (notes_records rfl rfl hsilent)
  have hwords : Words s t a := by
    obtain ⟨more, hlog, happ, hnone⟩ := hnotes
    refine ⟨⟨more, hlog, happ, ?_⟩, fun _ => ?_⟩
    · intro r hr b hb
      rw [hnone r hr] at hb
      cases hb
    · rw [hself]
      simp only [assistants_pushUserPrompt, hc.messages]
  have hreg : t.registry a = s.registry a := by simp [t, follow, record, setAgent, hc.registry]
  obtain ⟨more, hmore, -⟩ := hwords.log
  refine ⟨⟨?_, hc.feeds.grows, ⟨more, hmore⟩, Nat.le_of_eq hc.counter.symm⟩, hc.feeds,
    fun b hb _ => hstaysPut b hb, ⟨?_, ?_, ?_, ?_, ?_, ?_, ?_⟩, fun b hb _ => .inl (hstaysPut b hb), ?_, ?_,
    hwords, .free ?_⟩
  · intro c hborn
    by_cases hca : c = a
    · subst hca
      refine ⟨by simp [hself], fun h => absurd htop h, by rw [hself]; simp [hc.aborted], ?_⟩
      rw [hact.unfinished]
      intro hf
      cases hf
    · exact (hstaysPut c hca).lasts hborn
  · rw [hself]
    exact rfl
  · intro w hw
    rw [hself] at hw
    simp only [hwait] at hw
    cases hw
  · intro p hp
    rw [hreg] at hp
    obtain ⟨hkin, hchan, hdone⟩ := hact.ok.pool p hp
    refine ⟨fun c hcm => ?_, hchan, fun _ hnone => ?_⟩
    · have hk := hkin c hcm
      have hb := hstaysPut c.id (Nat.ne_of_gt hk.younger)
      refine ⟨hk.younger, by rw [hb.phase]; exact hk.born, ?_⟩
      rw [hb.generation, hgen]
      exact Nat.le_trans (Nat.le_trans hk.generation hact.ok.snapshot) hc.feeds.grows.interrupts
    · have := hdone hact.aborted hnone
      rw [hrx] at this
      cases this
  · rw [hself]
    simp [hc.aborted, hact.aborted]
  · exact Nat.le_of_eq hgen
  · intro _ _
    exact htop
  · intro _
    rw [hself, htop]
    rfl
  · rw [hgen]
    exact Nat.le_trans hact.ok.snapshot hc.feeds.grows.interrupts
  · rw [houtside]
    intro h
    cases h
  · rintro (hs | hi)
    · rw [hsig, hstate] at hs
      cases hs
    · rw [hgen, hsig] at hi
      exact Nat.lt_irrefl _ hi

theorem closed_finish {message : Option String} (h : s.signal.state = some message) :
    s.Closed (.normal message) := .inl ⟨rfl, h⟩

theorem taskStep_finish {message : Option String} {answer : Answer} (hact : Acting s a)
    (htop : a = topLevelAgentId) (houtside : (s.agents a).phase.inTurn = false)
    (hrx : (s.agents a).phase.usesRx = false) (hc : OnlyLooks s u a) (hwait : (u.agents a).wait = none)
    (hstate : u.signal.state = some message) :
    TaskStep s (u.follow a ((u.topLevel a).finish (.normal message) [])) a answer := by
  refine taskStep_follow (.over (.ok (.normal message))) hact houtside hrx hc hwait rfl rfl silent_nil
    ⟨htop, closed_finish ?_⟩
  exact hstate

theorem Acting.idleWait (hact : Acting s a)
    (hkind : (s.agents a).phase.waitKind (s.generation a) = none) : (s.agents a).wait = none := by
  cases hw : (s.agents a).wait with
  | none => rfl
  | some w =>
      have hk := (hact.ok.wait w hw).kind
      rw [hkind] at hk
      cases hk

theorem taskStep_head (hact : Acting s a) (hphase : (s.agents a).phase = .head) :
    TaskStep s ((s.setSignal s.signal.check.1).follow a ((s.topLevel a).atHead s.signal.check.2)) a answer := by
  have htop := hact.ok.phase
  rw [hphase] at htop
  have hc := onlyLooks_check s a
  have hwait : ((s.setSignal s.signal.check.1).agents a).wait = none :=
    hact.idleWait (by rw [hphase]; rfl)
  have hout : (s.agents a).phase.inTurn = false := by rw [hphase]; rfl
  have hrx : (s.agents a).phase.usesRx = false := by rw [hphase]; rfl
  cases hs : s.signal.check.2 with
  | some message => exact taskStep_finish hact htop hout hrx hc hwait hs
  | none =>
      refine taskStep_follow (.input) hact hout hrx hc hwait rfl rfl ?_ htop
      simp [TopLevel.atHead, Silent, Record.command, Record.speaker]

theorem taskStep_input {choice : Choice} (hact : Acting s a) (hphase : (s.agents a).phase = .input) :
    TaskStep s (s.orAbort a .shutdown choice (idleEnds a) (inputReady ctx a choice)) a choice.answer := by
  have htop := hact.ok.phase
  rw [hphase] at htop
  have hout : (s.agents a).phase.inTurn = false := by rw [hphase]; rfl
  have hrx : (s.agents a).phase.usesRx = false := by rw [hphase]; rfl
  refine taskStep_select hact (by rw [hphase]; rfl) (fun u reason hu hw hs hi => ?_) (fun u hu hs hi hp => ?_)
  · cases reason with
    | shutdown message => exact taskStep_finish hact htop hout hrx hu hw (hs message rfl)
    | interrupted =>
        obtain ⟨g, hg, -⟩ := hi rfl
        cases hg
  · have hfreed := hu.trans (onlyLooks_dropWait u a)
    have hcheck := hfreed.trans (onlyLooks_check (u.dropWait a) a)
    have hnone := dropWait_wait u a
    rw [inputReady]
    simp only
    split
    · rename_i text _
      cases hst : (u.dropWait a).signal.check.2 with
      | some message => exact taskStep_finish hact htop hout hrx hcheck hnone hst
      | none => exact taskStep_prompted hact htop hout hrx hcheck hnone hst
    · rename_i error _
      cases error with
      | scriptMismatch detail =>
          refine taskStep_follow (.over (.ok (.normal (some "frontend script exhausted")))) hact hout hrx
            hfreed hnone rfl rfl (silent_lifecycle _) ⟨htop, .inr (.inr (.inr ⟨rfl, detail, ?_⟩))⟩
          exact List.mem_append_right _ (List.mem_singleton_self _)
      | setup | auth | closed | io =>
          exact taskStep_follow (.over (.error (.frontend _))) hact hout hrx hfreed hnone rfl rfl
            (silent_error _ _) htop
    · apply taskStep_pend hact hu (by rw [hphase]; exact htop) hp
      rw [hphase]
      intro h
      cases h

theorem taskStep_interrupting {error : Option FrontendError} (hact : Acting s a)
    (hphase : (s.agents a).phase = .interrupting) :
    TaskStep s (s.follow a ((s.topLevel a).interruptDone error)) a answer := by
  have htop := hact.ok.phase
  rw [hphase] at htop
  refine taskStep_follow (.head) hact (by rw [hphase]; rfl) (by rw [hphase]; rfl) (.refl s a)
    (hact.idleWait (by rw [hphase]; rfl)) rfl rfl ?_ htop
  intro r hr
  rcases List.mem_append.mp hr with hr | hr
  · obtain ⟨e, -, rfl⟩ := List.mem_map.mp hr
    exact ⟨rfl, rfl⟩
  · cases List.mem_singleton.mp hr
    exact ⟨rfl, rfl⟩

theorem taskStep_returnStep {result : Except HarnessError TurnOutcome} (hact : Acting s a)
    (hphase : (s.agents a).phase = .returned result) : TaskStep s (s.returnStep ctx a result) a answer := by
  have hok := hact.ok.phase
  rw [hphase] at hok
  have hout : (s.agents a).phase.inTurn = false := by rw [hphase]; rfl
  have hrx : (s.agents a).phase.usesRx = false := by rw [hphase]; rfl
  have hnone : (s.agents a).wait = none := hact.idleWait (by rw [hphase]; rfl)
  unfold returnStep
  split
  · exact taskStep_completeStep hact hphase
  · rename_i hparent
    have htop := hact.ok.root hact.born hparent
    obtain ⟨message, hm⟩ := Option.isSome_iff_exists.mp hok
    have hstate : s.signal.check.2 = some message := (Signal.grows_drain s.signal).state message hm
    rw [hstate]
    exact taskStep_finish hact htop hout hrx (onlyLooks_check s a) hnone hstate
  · rename_i result _ _ hparent hother
    have htop := hact.ok.root hact.born hparent
    cases result with
    | error error => exact taskStep_follow (.over (.error error)) hact hout hrx (.refl s a) hnone rfl rfl silent_nil htop
    | ok outcome =>
        cases outcome with
        | completed text => exact taskStep_follow (.head) hact hout hrx (.refl s a) hnone rfl rfl silent_nil htop
        | shutdownRequested => exact absurd rfl hother
        | interrupted =>
            exact taskStep_follow (.interrupting) hact hout hrx (.refl s a) hnone rfl rfl silent_nil htop
        | llmFailed message =>
            simp only [TopLevel.turnEnded]
            split
            · exact taskStep_follow (.over (.ok ⟨some message, some message, none⟩)) hact hout hrx (.refl s a)
                hnone rfl rfl (silent_lifecycle _) ⟨htop, .inr (.inl rfl)⟩
            · exact taskStep_follow (.head) hact hout hrx (.refl s a) hnone rfl rfl silent_nil htop
        | scriptFailed message =>
            exact taskStep_follow (.over (.ok ⟨none, none, some message⟩)) hact hout hrx (.refl s a)
              hnone rfl rfl (silent_lifecycle _) ⟨htop, .inr (.inr (.inl rfl))⟩

theorem taskStep_step {choice : Choice} (hact : Acting s a) (hlt : a < s.counter)
    (hfresh : (s.agents s.counter).phase = .unborn) (hall : ∀ b, s.AgentOk b)
    (hstep : s.step ctx a choice = some t) : TaskStep s t a choice.answer := by
  rw [step] at hstep
  cases hphase : (s.agents a).phase with
  | head =>
      rw [hphase] at hstep
      cases hstep
      exact taskStep_head hact hphase
  | input =>
      rw [hphase] at hstep
      cases hstep
      exact taskStep_input hact hphase
  | interrupting =>
      simp only [hphase] at hstep
      split at hstep <;> cases hstep
      · exact taskStep_interrupting hact hphase
      · have htop := hact.ok.phase
        rw [hphase] at htop
        refine taskStep_pend hact (.refl s a) (by rw [hphase]; exact htop)
          (parked_none (hact.idleWait (by rw [hphase]; rfl))) ?_
        rw [hphase]
        intro h
        cases h
  | driving stage tool =>
      rw [hphase] at hstep
      exact taskStep_driveStep hact hlt hfresh hall hphase hstep
  | cancelling result walk =>
      rw [hphase] at hstep
      exact taskStep_cancelStep hact hall hphase hstep
  | returned result =>
      rw [hphase] at hstep
      cases hstep
      exact taskStep_returnStep hact hphase
  | finishing result =>
      rw [hphase] at hstep
      cases hstep
      exact taskStep_joinable hact hphase
  | unborn | «over» | completed | dropped =>
      rw [hphase] at hstep
      cases hstep

end Session

end Silo.Harness
