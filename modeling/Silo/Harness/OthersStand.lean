import Silo.Harness.Kinship

namespace Silo.Harness

open Silo.Core

structure Alongside (x y : Agent) : Prop where
  phase : y.phase = x.phase
  turn : y.turn = x.turn
  parent : y.parent = x.parent

theorem Alongside.refl (x : Agent) : Alongside x x := ⟨rfl, rfl, rfl⟩

namespace Session

variable {ctx : SessionCtx} {s t u : Session} {a : AgentId} {stage : Stage} {choice : Choice}

/-- A step of `a` as the other tasks see it. -/
def OthersStand (s t : Session) (a : AgentId) : Prop := ∀ b, b ≠ a → Alongside (s.agents b) (t.agents b)

theorem Local.othersStand (h : Local s t a) : OthersStand s t a := by
  intro b hb
  rw [h.others b hb]
  exact .refl _

theorem OthersStand.trans (h : OthersStand s t a) (h' : OthersStand t u a) : OthersStand s u a := by
  intro b hb
  have h₁ := h b hb
  have h₂ := h' b hb
  exact ⟨h₂.phase.trans h₁.phase, h₂.turn.trans h₁.turn, h₂.parent.trans h₁.parent⟩

theorem othersStand_of_agents (h : t.agents = s.agents) (a : AgentId) : OthersStand s t a := by
  intro b _
  rw [h]
  exact .refl _

theorem othersStand_goto (h : OthersStand s u a) (phase : Phase) : OthersStand s (u.goto a phase) a :=
  h.trans (local_goto u a phase).othersStand

theorem othersStand_toTool (h : OthersStand s u a) (stage : Stage) (tool : ToolPc) : OthersStand s (u.toTool a stage tool) a :=
  othersStand_goto h _

theorem othersStand_toolEnds (h : OthersStand s u a) (stage : Stage) (result : Except HarnessError ToolDisposition) :
    OthersStand s (u.toolEnds a stage result) a :=
  othersStand_goto h _

theorem othersStand_pend (h : OthersStand s u a) : OthersStand s (u.pend a) a := h.trans (local_pend u a).othersStand

theorem othersStand_dropWait (h : OthersStand s u a) : OthersStand s (u.dropWait a) a := h.trans (local_dropWait u a).othersStand

theorem othersStand_advance (h : OthersStand s u a) (step : Advance) : OthersStand s (u.advance a step) a :=
  h.trans (local_advance u a step).othersStand

theorem othersStand_follow (h : OthersStand s u a) (step : TopLevel × List Record) : OthersStand s (u.follow a step) a :=
  h.trans (local_follow u a step).othersStand

theorem othersStand_refl (s : Session) (a : AgentId) : OthersStand s s a := othersStand_of_agents rfl a

theorem othersStand_orAbort {kind : WaitKind} {onAbort : Session → AbortReason → Session}
    {other : Session → Session}
    (habort : ∀ u reason, OthersStand s u a → (u.agents a).phase = (s.agents a).phase → OthersStand s (onAbort u reason) a)
    (hother : ∀ u, OthersStand s u a → (u.agents a).phase = (s.agents a).phase → OthersStand s (other u) a) :
    OthersStand s (s.orAbort a kind choice onAbort other) a := by
  obtain ⟨hlocal, hphase⟩ := local_pollWait s a kind choice.command
  rw [orAbort]
  split
  · rename_i u reason heq
    rw [heq] at hlocal hphase
    exact habort u reason hlocal.othersStand hphase
  · rename_i u heq
    rw [heq] at hlocal hphase
    exact hother u hlocal.othersStand hphase

theorem poolEntry_agents (s : Session) (a : AgentId) : (s.poolEntry a).1.agents = s.agents := by
  rcases poolEntry_cases s a with ⟨pool, -, heq⟩ | ⟨-, heq⟩
  · rw [heq]
  · rw [heq]
    rfl

theorem othersStand_insertChild (s : Session) (a b : AgentId) (child : ChildHandle) :
    OthersStand s (s.insertChild a child) b :=
  othersStand_of_agents (poolEntry_agents s a) b

theorem othersStand_runAgentTool (s : Session) (a : AgentId) (stage : Stage) (call : ToolCall) :
    OthersStand s (s.runAgentTool a stage call) a := by
  rw [runAgentTool]
  simp only
  repeat' split
  · exact othersStand_toolEnds (othersStand_refl s a) _ _
  · exact othersStand_toolEnds (othersStand_refl s a) _ _
  · exact othersStand_toolEnds (othersStand_refl s a) _ _
  · exact othersStand_toTool (othersStand_of_agents rfl a) _ _

theorem othersStand_startTool (s : Session) (a : AgentId) (stage : Stage) (call : ToolCall) :
    OthersStand s (s.startTool ctx a stage call) a := by
  have hrefl := othersStand_refl s a
  rw [startTool]
  split
  · exact othersStand_toTool hrefl _ _
  · split
    · exact othersStand_toTool hrefl _ _
    · exact othersStand_toTool hrefl _ _
  · split
    · split
      · exact othersStand_toTool hrefl _ _
      · exact othersStand_toTool hrefl _ _
    · exact othersStand_runAgentTool s a stage call
  · exact othersStand_toolEnds hrefl _ _

theorem othersStand_checkpointStep (h : s.checkpointStep ctx a stage = some t) : OthersStand s t a := by
  rw [checkpointStep] at h
  obtain ⟨step, -, rfl⟩ := Option.map_eq_some_iff.mp h
  have hadvance : ∀ sig, OthersStand s ((s.setSignal sig).advance a step) a :=
    fun sig => othersStand_advance (local_setSignal s a sig).othersStand step
  split
  · exact (hadvance _).trans (othersStand_startTool _ a _ _)
  · exact hadvance _

theorem othersStand_afterSandbox (h : OthersStand s u a) (call : ToolCall) (result : Except SandboxError ToolOutput) :
    OthersStand s (u.afterSandbox a stage call result) a := by
  unfold afterSandbox
  split
  · exact othersStand_toolEnds h _ _
  · exact othersStand_toolEnds (h.trans (local_record u a _).othersStand) _ _
  · exact othersStand_toolEnds (h.trans (local_record u a _).othersStand) _ _

theorem othersStand_afterRead (h : OthersStand s u a) (call : ToolCall) (path : String)
    (result : Except SandboxError ToolOutput) : OthersStand s (u.afterRead ctx a stage call path result) a := by
  unfold afterRead
  split
  · simp only
    split
    · exact othersStand_toolEnds (h.trans (local_record u a _).othersStand) _ _
    · exact othersStand_toTool (h.trans (local_record u a _).othersStand) _ _
  · exact othersStand_toolEnds (h.trans (local_record u a _).othersStand) _ _
  · exact othersStand_toolEnds (h.trans (local_record u a _).othersStand) _ _

theorem othersStand_afterFrontend (h : OthersStand s u a) (call : ToolCall) (result : Except FrontendError ToolOutput) :
    OthersStand s (u.afterFrontend a stage call result) a := by
  unfold afterFrontend
  split
  · exact othersStand_toolEnds h _ _
  · have hsig := h.trans (local_setSignal u a u.signal.check.1).othersStand
    simp only
    split
    · exact othersStand_toolEnds hsig _ _
    · exact othersStand_toolEnds (hsig.trans (local_record _ a _).othersStand) _ _

theorem othersStand_outsideStep {call : ToolCall} {tool : ToolPc}
    (h : s.outsideStep ctx a stage call choice tool = some t) : OthersStand s t a := by
  have hrefl := othersStand_refl s a
  have hpend : ∀ u, OthersStand s u a → (u.agents a).phase = (s.agents a).phase → OthersStand s (u.pend a) a :=
    fun u hu _ => othersStand_pend hu
  unfold outsideStep at h
  split at h
  · split at h <;> cases h
    · exact othersStand_afterSandbox (othersStand_dropWait hrefl) _ _
    · refine othersStand_orAbort ?_ hpend
      intro u reason hu _
      cases reason <;> exact othersStand_toTool hu _ _
  · split at h <;> cases h
    · exact othersStand_toTool (local_record s a _).othersStand _ _
    · exact othersStand_pend hrefl
  · split at h <;> cases h
    · exact othersStand_afterSandbox hrefl _ _
    · exact othersStand_pend hrefl
  · split at h <;> cases h
    · exact othersStand_afterRead hrefl _ _ _
    · exact othersStand_pend hrefl
  · split at h <;> cases h
    · exact othersStand_afterFrontend (othersStand_dropWait hrefl) _ _
    · refine othersStand_orAbort ?_ hpend
      intro u reason hu _
      cases reason <;> exact othersStand_toTool hu _ _
  · split at h <;> cases h
    · exact othersStand_toTool (local_record s a _).othersStand _ _
    · exact othersStand_pend hrefl
  · split at h <;> cases h
    · exact othersStand_afterFrontend hrefl _ _
    · exact othersStand_pend hrefl
  · cases h

theorem othersStand_joinReady (h : OthersStand s u a) (child : ChildHandle) :
    OthersStand s (joinReady a stage child choice u) a := by
  have hfreed : OthersStand s { u.dropWait a with permits := u.permits + 1 } a :=
    (othersStand_dropWait h).trans (othersStand_of_agents rfl a)
  rw [joinReady]
  simp only
  split
  · exact othersStand_toolEnds hfreed _ _
  · exact othersStand_toolEnds hfreed _ _
  · exact othersStand_pend h

theorem othersStand_doneReady (h : OthersStand s u a) (chan : Nat) : OthersStand s (doneReady a stage chan u) a := by
  rw [doneReady]
  split
  · exact othersStand_toTool ((othersStand_dropWait h).trans (othersStand_of_agents rfl a)) _ _
  · split
    · exact othersStand_toTool (othersStand_dropWait h) _ _
    · exact othersStand_pend h

/-- The steps of the Agent and AwaitAgent tools but the one that starts a task. -/
theorem othersStand_childStep {tool : ToolPc} (hspawn : ∀ child prompt generation, tool ≠ .spawnEntry child prompt generation)
    (h : s.childStep a stage choice tool = some t) : OthersStand s t a := by
  have hrefl := othersStand_refl s a
  have hpool : ∀ b pool, OthersStand s (s.setPool b pool) a := fun b pool => othersStand_of_agents rfl a
  cases tool with
  | spawnEntry child prompt generation => exact absurd rfl (hspawn child prompt generation)
  | spawnInsert child | reinsert child reason =>
      cases h
      exact othersStand_toolEnds (othersStand_insertChild s a a child) _ _
  | awaitKnown requested =>
      simp only [childStep] at h
      split at h <;> cases h
      · exact othersStand_toTool hrefl _ _
      · exact othersStand_toolEnds hrefl _ _
  | awaitHas | anyStill child =>
      simp only [childStep] at h
      split at h <;> cases h
      · exact othersStand_toTool hrefl _ _
      · exact othersStand_toTool hrefl _ _
  | anyFinished =>
      simp only [childStep] at h
      split at h
      · cases h
        exact othersStand_toTool hrefl _ _
      · split at h <;> cases h
        exact othersStand_toTool hrefl _ _
  | anyTakeRx =>
      simp only [childStep] at h
      split at h
      · cases h
        exact othersStand_toolEnds hrefl _ _
      · split at h <;> cases h
        · exact othersStand_toTool (hpool a _) _ _
        · exact othersStand_goto hrefl _
  | anyWait chan =>
      cases h
      apply othersStand_orAbort
      · intro u reason hu _
        exact othersStand_toTool hu _ _
      · intro u hu _
        exact othersStand_doneReady hu chan
  | anyPut chan signalled =>
      cases signalled <;> cases h
      · exact othersStand_toolEnds (hpool a _) _ _
      · exact othersStand_toTool (hpool a _) _ _
  | anyAbort chan reason =>
      cases h
      exact othersStand_toolEnds (hpool a _) _ _
  | collect child =>
      simp only [childStep] at h
      split at h <;> cases h
      · exact othersStand_toTool (hpool a _) _ _
      · exact othersStand_toolEnds hrefl _ _
  | join child =>
      cases h
      apply othersStand_orAbort
      · intro u reason hu _
        exact othersStand_toTool hu _ _
      · intro u hu _
        exact othersStand_joinReady hu child
  | _ => cases h

theorem othersStand_setAgent_flags (s : Session) (a c : AgentId) {x : Agent} (h : Alongside (s.agents c) x) :
    OthersStand s (s.setAgent c x) a := by
  intro b _
  by_cases hb : b = c
  · subst hb
    simpa [setAgent] using h
  · simpa [setAgent, hb] using Alongside.refl (s.agents b)

theorem othersStand_cancelStep {result : Except HarnessError TurnOutcome} {walk : Walk}
    (h : s.cancelStep a choice result walk = some t) : OthersStand s t a := by
  have hrefl := othersStand_refl s a
  rw [cancelStep] at h
  split at h
  · split at h <;> cases h
    · exact othersStand_goto hrefl _
    · exact othersStand_goto (othersStand_of_agents rfl a) _
  · cases h
    exact othersStand_goto hrefl _
  · split at h
    · split at h <;> cases h
      · refine othersStand_goto ?_ _
        exact othersStand_setAgent_flags _ a _ ⟨rfl, rfl, rfl⟩
      · exact othersStand_pend hrefl
    · split at h
      · cases h
        exact othersStand_goto (local_record s a _).othersStand _
      · obtain ⟨child, -, rfl⟩ := Option.map_eq_some_iff.mp h
        refine othersStand_goto ?_ _
        exact othersStand_setAgent_flags s a child.id ⟨rfl, rfl, rfl⟩

theorem othersStand_returnStep (s : Session) (a : AgentId) (result : Except HarnessError TurnOutcome) :
    OthersStand s (s.returnStep ctx a result) a := by
  unfold returnStep
  split
  · intro b hb
    simp [completeStep, record, setAgent, hb, Alongside.refl]
  · exact othersStand_follow (local_setSignal s a _).othersStand _
  · exact othersStand_follow (othersStand_refl s a) _

/-- The task of `child`, not yet polled. -/
structure JustBorn (a : AgentId) (child : ChildHandle) (x : Agent) : Prop where
  phase : x.phase = .driving .top .idle
  kind : x.turn.kind = .subagent
  parent : x.parent = some a

/-- What a step of `a` does to the other tasks: it leaves them alone, but for the
one it starts. -/
inductive Leaves (s t : Session) (a : AgentId) : Prop
  | othersStand (h : OthersStand s t a)
  | spawn (stage : Stage) (child : ChildHandle) (prompt : String) (generation : Nat)
      (phase : (s.agents a).phase = .driving stage (.spawnEntry child prompt generation))
      (born : child.id ≠ a → JustBorn a child (t.agents child.id))
      (rest : ∀ b, b ≠ a → b ≠ child.id → Alongside (s.agents b) (t.agents b))

theorem leaves_driveStep {tool : ToolPc} (hphase : (s.agents a).phase = .driving stage tool)
    (h : s.driveStep ctx a stage choice tool = some t) : Leaves s t a := by
  have hrefl := othersStand_refl s a
  unfold driveStep at h
  split at h
  · exact .othersStand (othersStand_checkpointStep h)
  · exact .othersStand (othersStand_checkpointStep h)
  · cases h
    refine .othersStand (othersStand_orAbort ?_ ?_)
    · intro u reason hu _
      exact othersStand_advance hu _
    · intro u hu _
      rw [completionReady]
      split
      · exact othersStand_advance (othersStand_dropWait hu) _
      · exact othersStand_pend hu
  · obtain ⟨call, -, h⟩ := Option.bind_eq_some_iff.mp h
    split at h
    · cases h
      exact .othersStand (othersStand_advance hrefl _)
    · rcases Option.or_eq_some_iff.mp h with hout | ⟨-, hchild⟩
      · exact .othersStand (othersStand_outsideStep hout)
      · by_cases hspawn : ∃ child prompt generation, tool = .spawnEntry child prompt generation
        · obtain ⟨child, prompt, generation, rfl⟩ := hspawn
          cases hchild
          have hagents := poolEntry_agents s a
          refine .spawn _ child prompt generation hphase ?_ ?_
          · intro hne
            simp only [spawnChild, toTool, goto, setAgent, Function.update_of_ne hne, Function.update_self]
            exact ⟨rfl, rfl, rfl⟩
          · intro b hb hbc
            simp only [spawnChild, toTool, goto, setAgent, Function.update_of_ne hb, Function.update_of_ne hbc,
              hagents]
            exact .refl _
        · refine .othersStand (othersStand_childStep ?_ hchild)
          rintro child prompt generation rfl
          exact hspawn ⟨child, prompt, generation, rfl⟩
  · cases h

theorem leaves_step (h : s.step ctx a choice = some t) : Leaves s t a := by
  have hrefl := othersStand_refl s a
  cases hphase : (s.agents a).phase with
  | head =>
      simp only [step, hphase, Option.some.injEq] at h
      subst h
      exact .othersStand (othersStand_follow (local_setSignal s a _).othersStand _)
  | input =>
      simp only [step, hphase, Option.some.injEq] at h
      subst h
      refine .othersStand (othersStand_orAbort ?_ ?_)
      · intro u reason hu _
        cases reason with
        | shutdown message => exact othersStand_follow hu _
        | interrupted => exact othersStand_pend hu
      · intro u hu _
        have hfreed := othersStand_dropWait hu
        rw [inputReady]
        simp only
        split
        · exact othersStand_follow (hfreed.trans (local_setSignal _ a _).othersStand) _
        · exact othersStand_follow hfreed _
        · exact othersStand_pend hu
  | interrupting =>
      simp only [step, hphase] at h
      split at h <;> cases h
      · exact .othersStand (othersStand_follow hrefl _)
      · exact .othersStand (othersStand_pend hrefl)
  | driving stage tool =>
      simp only [step, hphase] at h
      exact leaves_driveStep hphase h
  | cancelling result walk =>
      simp only [step, hphase] at h
      exact .othersStand (othersStand_cancelStep h)
  | returned result =>
      simp only [step, hphase, Option.some.injEq] at h
      subst h
      exact .othersStand (othersStand_returnStep s a result)
  | finishing result =>
      simp only [step, hphase, Option.some.injEq] at h
      subst h
      exact .othersStand (othersStand_goto hrefl _)
  | unborn | «over» | completed | dropped =>
      simp only [step, hphase] at h
      cases h

end Session

end Silo.Harness
