import Silo.Harness.SessionStep

namespace Silo.Harness

open Silo.Core

namespace Phase

def inTurn : Phase → Bool
  | .driving _ _ | .cancelling _ _ => true
  | _ => false

def ofTurn : Phase → Bool
  | .driving _ _ | .cancelling _ _ | .returned _ | .dropped => true
  | _ => false

@[simp] theorem ofTurn_driving (stage : Stage) (tool : ToolPc) :
    (Phase.driving stage tool).ofTurn = true := rfl

@[simp] theorem ofTurn_cancelling (result : Except HarnessError TurnOutcome) (walk : Walk) :
    (Phase.cancelling result walk).ofTurn = true := rfl

@[simp] theorem ofTurn_returned (result : Except HarnessError TurnOutcome) :
    (Phase.returned result).ofTurn = true := rfl

@[simp] theorem ofTurn_dropped : Phase.dropped.ofTurn = true := rfl

theorem ofTurn_of_inTurn {phase : Phase} (h : phase.inTurn = true) : phase.ofTurn = true := by
  cases phase with
  | driving | cancelling => rfl
  | _ => cases h

end Phase

namespace Session

variable {ctx : SessionCtx} {s t : Session} {a : AgentId} {stage : Stage} {choice : Choice}

@[simp] theorem goto_phase (s : Session) (a : AgentId) (phase : Phase) :
    ((s.goto a phase).agents a).phase = phase := by
  simp [goto, setAgent]

@[simp] theorem toTool_phase (s : Session) (a : AgentId) (stage : Stage) (tool : ToolPc) :
    ((s.toTool a stage tool).agents a).phase = .driving stage tool := goto_phase _ _ _

@[simp] theorem toolEnds_phase (s : Session) (a : AgentId) (stage : Stage)
    (result : Except HarnessError ToolDisposition) :
    ((s.toolEnds a stage result).agents a).phase = .driving stage (.done result) := goto_phase _ _ _

@[simp] theorem pend_phase (s : Session) (a : AgentId) :
    ((s.pend a).agents a).phase = (s.agents a).phase := by
  simp [pend, setAgent]

@[simp] theorem dropWait_phase (s : Session) (a : AgentId) :
    ((s.dropWait a).agents a).phase = (s.agents a).phase := by
  simp [dropWait, setAgent]

@[simp] theorem advance_phase (s : Session) (a : AgentId) (step : Advance) :
    ((s.advance a step).agents a).phase = phaseOf a step.1.stage := by
  simp [advance, record, setAgent]

@[simp] theorem pollWait_phase (s : Session) (a : AgentId) (kind : WaitKind) (command : Bool) :
    ((s.pollWait a kind command).1.agents a).phase = (s.agents a).phase := by
  rw [pollWait]
  simp only
  split <;> simp [setSignal, setAgent]

theorem ofTurn_phaseOf (a : AgentId) (stage : Stage) : (phaseOf a stage).ofTurn = true := by
  cases stage <;> rfl

theorem orAbort_place {P : Phase → Prop} {kind : WaitKind} {onAbort : Session → AbortReason → Session}
    {other : Session → Session}
    (habort : ∀ u reason, (u.agents a).phase = (s.agents a).phase → P ((onAbort u reason).agents a).phase)
    (hother : ∀ u, (u.agents a).phase = (s.agents a).phase → P ((other u).agents a).phase) :
    P ((s.orAbort a kind choice onAbort other).agents a).phase := by
  have hphase := pollWait_phase s a kind choice.command
  rw [orAbort]
  split
  · rename_i u reason heq
    exact habort u reason (by rw [heq] at hphase; exact hphase)
  · rename_i u heq
    exact hother u (by rw [heq] at hphase; exact hphase)

theorem pend_place (hturn : (s.agents a).phase.ofTurn = true) (u : Session)
    (hu : (u.agents a).phase = (s.agents a).phase) : ((u.pend a).agents a).phase.ofTurn = true := by
  rw [pend_phase, hu]
  exact hturn

theorem startTool_place (s : Session) (a : AgentId) (stage : Stage) (call : ToolCall) :
    ((s.startTool ctx a stage call).agents a).phase.ofTurn = true := by
  rw [startTool, runAgentTool]
  simp only
  repeat' split
  all_goals simp

theorem checkpointStep_place (h : s.checkpointStep ctx a stage = some t) :
    (t.agents a).phase.ofTurn = true := by
  rw [checkpointStep] at h
  obtain ⟨step, -, rfl⟩ := Option.map_eq_some_iff.mp h
  split
  · exact startTool_place _ _ _ _
  · rw [advance_phase]
    exact ofTurn_phaseOf _ _

theorem outsideStep_place {call : ToolCall} {tool : ToolPc} (hturn : (s.agents a).phase.ofTurn = true)
    (h : s.outsideStep ctx a stage call choice tool = some t) : (t.agents a).phase.ofTurn = true := by
  unfold outsideStep at h
  have hpend := pend_place hturn
  split at h
  · split at h <;> cases h
    · unfold afterSandbox
      split <;> simp
    · refine orAbort_place (P := fun phase => phase.ofTurn = true) ?_ hpend
      intro u reason _
      cases reason <;> simp [sandboxAborted]
  · split at h <;> cases h
    · simp
    · exact hpend s rfl
  · split at h <;> cases h
    · unfold afterSandbox
      split <;> simp
    · exact hpend s rfl
  · split at h <;> cases h
    · unfold afterRead
      simp only
      repeat' split
      all_goals simp
    · exact hpend s rfl
  · split at h <;> cases h
    · unfold afterFrontend
      simp only
      repeat' split
      all_goals simp
    · refine orAbort_place (P := fun phase => phase.ofTurn = true) ?_ hpend
      intro u reason _
      cases reason <;> simp [frontendAborted]
  · split at h <;> cases h
    · simp
    · exact hpend s rfl
  · split at h <;> cases h
    · unfold afterFrontend
      simp only
      repeat' split
      all_goals simp
    · exact hpend s rfl
  · cases h

theorem childStep_place {tool : ToolPc} (hturn : (s.agents a).phase.ofTurn = true)
    (h : s.childStep a stage choice tool = some t) : (t.agents a).phase.ofTurn = true := by
  have hpend := pend_place hturn
  cases tool with
  | anyWait chan =>
      cases h
      apply orAbort_place (P := fun phase => phase.ofTurn = true)
      · intro u reason _
        simp
      · intro u hu
        rw [doneReady]
        repeat' split
        · simp
        · simp
        · exact hpend u hu
  | join child =>
      cases h
      apply orAbort_place (P := fun phase => phase.ofTurn = true)
      · intro u reason _
        simp
      · intro u hu
        rw [joinReady]
        simp only
        split
        · simp
        · simp
        · exact hpend u hu
  | anyPut chan signalled => cases signalled <;> cases h <;> simp
  | _ =>
      simp only [childStep] at h
      repeat' split at h
      all_goals cases h
      all_goals simp

theorem driveStep_place {tool : ToolPc} (hturn : (s.agents a).phase.ofTurn = true)
    (h : s.driveStep ctx a stage choice tool = some t) : (t.agents a).phase.ofTurn = true := by
  unfold driveStep at h
  split at h
  · exact checkpointStep_place h
  · exact checkpointStep_place h
  · cases h
    apply orAbort_place (P := fun phase => phase.ofTurn = true)
    · intro u reason _
      rw [advance_phase]
      exact ofTurn_phaseOf _ _
    · intro u hu
      rw [completionReady]
      split
      · rw [advance_phase]
        exact ofTurn_phaseOf _ _
      · exact pend_place hturn u hu
  · obtain ⟨call, -, h⟩ := Option.bind_eq_some_iff.mp h
    split at h
    · cases h
      rw [advance_phase]
      exact ofTurn_phaseOf _ _
    · rcases Option.or_eq_some_iff.mp h with hout | ⟨-, hchild⟩
      · exact outsideStep_place hturn hout
      · exact childStep_place hturn hchild
  · cases h

theorem cancelStep_place {result : Except HarnessError TurnOutcome} {walk : Walk}
    (hturn : (s.agents a).phase.ofTurn = true) (h : s.cancelStep a choice result walk = some t) :
    (t.agents a).phase.ofTurn = true := by
  rw [cancelStep] at h
  repeat' split at h
  all_goals first
    | (obtain ⟨child, -, rfl⟩ := Option.map_eq_some_iff.mp h)
    | cases h
  all_goals simp [reap, hturn]

theorem step_place (hturn : (s.agents a).phase.inTurn = true) (h : s.step ctx a choice = some t) :
    (t.agents a).phase.ofTurn = true := by
  have hof := Phase.ofTurn_of_inTurn hturn
  rw [step] at h
  cases hp : (s.agents a).phase with
  | driving stage tool =>
      rw [hp] at h
      exact driveStep_place hof h
  | cancelling result walk =>
      rw [hp] at h
      exact cancelStep_place hof h
  | _ =>
      rw [hp] at hturn
      cases hturn

end Session

end Silo.Harness
