import Silo.Harness.OthersStand

namespace Silo.Harness

open Silo.Core

/-- The response whose tool calls are being made. -/
def Stage.response : Stage → Option CompletionResponse
  | .calling response _ | .running response _ => some response
  | _ => none

def Phase.response : Phase → Option CompletionResponse
  | .driving stage _ => stage.response
  | _ => none

/-- The places of `run_frontend_tool`. -/
def ToolPc.atFrontend : ToolPc → Bool
  | .read _ | .frontend _ | .frontendInterrupt _ | .frontendDrain _ => true
  | _ => false

def Phase.atFrontend : Phase → Bool
  | .driving _ tool => tool.atFrontend
  | _ => false

namespace Session

variable {ctx : SessionCtx} {s t u : Session} {a : AgentId} {stage : Stage} {choice : Choice} {x y : Agent}
  {answer : Answer}

/-- `y` makes calls of the response that `x` had or that it has just got, and is
at the frontend only with a tool of the frontend. -/
structure Heeds (ctx : SessionCtx) (x : Agent) (answer : Answer) (y : Agent) : Prop where
  response : ∀ r, y.phase.response = some r →
    y.turn = x.turn ∧ (x.phase.response = some r ∨ answer = .completion (.ok r))
  frontend : ∀ stage tool, y.phase = .driving stage tool → tool.atFrontend = true →
    (∃ old, x.phase = .driving stage old ∧ old.atFrontend = true) ∨
      ∃ call, currentCall stage = some call ∧ ctx.registry.ownerOf call.name = some .frontend

structure Rests (x y : Agent) : Prop where
  phase : y.phase = x.phase
  turn : y.turn = x.turn

theorem Rests.heeds (h : Rests x y) : Heeds ctx x answer y := by
  refine ⟨fun r hr => ⟨h.turn, .inl ?_⟩, fun stage tool hp hf => .inl ⟨tool, ?_, hf⟩⟩
  · rw [← h.phase]
    exact hr
  · rw [← h.phase]
    exact hp

theorem heeds_silent (hr : y.phase.response = none) (hf : y.phase.atFrontend = false) :
    Heeds ctx x answer y := by
  refine ⟨?_, ?_⟩
  · intro r hsome
    rw [hr] at hsome
    cases hsome
  · intro stage tool hp hat
    rw [hp] at hf
    rw [Phase.atFrontend, hat] at hf
    cases hf

theorem rests_pend (h : Rests x (u.agents a)) : Rests x ((u.pend a).agents a) := by
  refine ⟨(pend_phase u a).trans h.phase, ?_⟩
  simpa [pend, setAgent] using h.turn

theorem rests_dropWait (h : Rests x (u.agents a)) : Rests x ((u.dropWait a).agents a) := by
  refine ⟨(dropWait_phase u a).trans h.phase, ?_⟩
  simpa [dropWait, setAgent] using h.turn

theorem rests_pollWait (s : Session) (a : AgentId) (kind : WaitKind) (command : Bool) :
    Rests (s.agents a) ((s.pollWait a kind command).1.agents a) := by
  refine ⟨pollWait_phase s a kind command, ?_⟩
  rw [pollWait]
  simp only
  split <;> simp [setSignal, setAgent]

/-- The tool call goes on: to a place away from the frontend, or there with one
of its tools. -/
theorem heeds_toTool {tool : ToolPc} (hu : (u.agents a).turn = x.turn)
    (hr : stage.response = x.phase.response)
    (hf : tool.atFrontend = true → (∃ old, x.phase = .driving stage old ∧ old.atFrontend = true) ∨
      ∃ call, currentCall stage = some call ∧ ctx.registry.ownerOf call.name = some .frontend) :
    Heeds ctx x answer ((u.toTool a stage tool).agents a) := by
  refine ⟨?_, ?_⟩
  · intro r hsome
    rw [toTool_phase] at hsome
    refine ⟨?_, .inl (by rw [← hr]; exact hsome)⟩
    simpa [toTool, goto, setAgent] using hu
  · intro stage' tool' hp hat
    rw [toTool_phase] at hp
    cases hp
    exact hf hat

theorem response_phaseOf (a : AgentId) (stage : Stage) :
    (phaseOf a stage).response = stage.response ∧ (phaseOf a stage).atFrontend = false := by
  cases stage <;> exact ⟨rfl, rfl⟩

theorem heeds_advance {step : Advance} (hu : (u.agents a).turn = x.turn)
    (hr : ∀ r, step.1.stage.response = some r → x.phase.response = some r ∨ answer = .completion (.ok r)) :
    Heeds ctx x answer ((u.advance a step).agents a) := by
  obtain ⟨hresponse, hfrontend⟩ := response_phaseOf a step.1.stage
  refine ⟨?_, ?_⟩
  · intro r hsome
    rw [advance_phase, hresponse] at hsome
    refine ⟨?_, hr r hsome⟩
    simpa [advance, record, setAgent] using hu
  · intro stage tool hp hat
    rw [advance_phase] at hp
    rw [hp, Phase.atFrontend, hat] at hfrontend
    cases hfrontend

theorem heeds_orAbort {kind : WaitKind} {onAbort : Session → AbortReason → Session} {other : Session → Session}
    (habort : ∀ u reason, Rests (s.agents a) (u.agents a) →
      Heeds ctx (s.agents a) answer ((onAbort u reason).agents a))
    (hother : ∀ u, Rests (s.agents a) (u.agents a) → Heeds ctx (s.agents a) answer ((other u).agents a)) :
    Heeds ctx (s.agents a) answer ((s.orAbort a kind choice onAbort other).agents a) := by
  have hrests := rests_pollWait s a kind choice.command
  rw [orAbort]
  split
  · rename_i u reason heq
    rw [heq] at hrests
    exact habort u reason hrests
  · rename_i u heq
    rw [heq] at hrests
    exact hother u hrests

end Session

namespace Drive

variable {ctx : SessionCtx} {turn : Turn} (d : Drive)

theorem response_nextCall (response : CompletionResponse) (results : List ContentBlock) (r : CompletionResponse)
    (h : (d.nextCall turn response results).1.stage.response = some r) : r = response := by
  rw [nextCall] at h
  split at h
  · cases h
    rfl
  · split at h
    · cases h
    · cases h

theorem response_completed (result : Except LlmError CompletionResponse) (r : CompletionResponse)
    (h : (d.completed ctx turn result).1.stage.response = some r) : result = .ok r := by
  cases result with
  | error error => cases error <;> cases h
  | ok response =>
      simp only [completed, responded] at h
      split at h
      · cases h
      · cases h
        rfl

theorem response_toolDone (response : CompletionResponse) (results : List ContentBlock) (call : ToolCall)
    (result : Except HarnessError ToolDisposition) (r : CompletionResponse)
    (h : (d.toolDone turn response results call result).1.stage.response = some r) : r = response := by
  cases result with
  | error error => cases h
  | ok disposition =>
      cases disposition with
      | output owner output => exact d.response_nextCall response _ r h
      | shutdown | interrupted | scriptFailed => cases h

/-- Past a checkpoint the calls are those of the same response, and the one that
runs is the current one. -/
theorem response_checkpoint {step : Advance} {found : Checkpoint}
    (h : d.advance ctx turn (.checkpoint found) = some step) (r : CompletionResponse)
    (hr : step.1.stage.response = some r) : d.stage.response = some r := by
  cases hstage : d.stage with
  | top =>
      simp only [advance, hstage, Option.some.injEq] at h
      subst h
      cases found <;> cases hr
  | calling response results =>
      simp only [advance, hstage, Option.map_eq_some_iff] at h
      obtain ⟨call, -, rfl⟩ := h
      cases found <;> cases hr
      rfl
  | asking | running | ended =>
      simp only [advance, hstage] at h
      cases h

end Drive

namespace Session

variable {ctx : SessionCtx} {s t u : Session} {a : AgentId} {stage : Stage} {choice : Choice} {x : Agent}
  {answer : Answer}

theorem heeds_startTool {call : ToolCall} (hu : (u.agents a).turn = x.turn)
    (hr : stage.response = x.phase.response) (hcall : currentCall stage = some call) :
    Heeds ctx x answer ((u.startTool ctx a stage call).agents a) := by
  have haway : ∀ {w : Session} {tool : ToolPc}, (w.agents a).turn = x.turn → tool.atFrontend = false →
      Heeds ctx x answer ((w.toTool a stage tool).agents a) := by
    intro w tool hw htool
    apply heeds_toTool hw hr
    intro hat
    rw [htool] at hat
    cases hat
  rw [startTool]
  split
  · exact haway hu rfl
  · rename_i howner
    split
    · exact heeds_toTool hu hr fun _ => .inr ⟨call, hcall, howner⟩
    · exact heeds_toTool hu hr fun _ => .inr ⟨call, hcall, howner⟩
  · split
    · split
      · exact haway hu rfl
      · exact haway hu rfl
    · rw [runAgentTool]
      simp only
      repeat' split
      · exact haway hu rfl
      · exact haway hu rfl
      · exact haway hu rfl
      · exact haway hu rfl
  · exact haway hu rfl

theorem heeds_checkpointStep {tool : ToolPc} (hphase : (s.agents a).phase = .driving stage tool)
    (h : s.checkpointStep ctx a stage = some t) : Heeds ctx (s.agents a) answer (t.agents a) := by
  rw [checkpointStep] at h
  obtain ⟨step, hstep, rfl⟩ := Option.map_eq_some_iff.mp h
  have hresponse : ∀ r, step.1.stage.response = some r → (s.agents a).phase.response = some r := by
    intro r hr
    rw [hphase]
    exact Drive.response_checkpoint _ hstep r hr
  split
  · rename_i response results call hstage hcall
    refine heeds_startTool ?_ ?_ hcall
    · simp [advance, record, setAgent, setSignal]
    · rw [hstage]
      exact (hresponse response (by rw [hstage]; rfl)).symm
  · exact heeds_advance rfl fun r hr => .inl (hresponse r hr)

section Running

variable {old : ToolPc}

theorem heeds_away {tool : ToolPc} (hx : x.phase = .driving stage old) (hu : (u.agents a).turn = x.turn)
    (htool : tool.atFrontend = false) : Heeds ctx x answer ((u.toTool a stage tool).agents a) := by
  apply heeds_toTool hu (by rw [hx]; rfl)
  intro hat
  rw [htool] at hat
  cases hat

theorem heeds_toolEnds (hx : x.phase = .driving stage old) (hu : (u.agents a).turn = x.turn)
    (result : Except HarnessError ToolDisposition) :
    Heeds ctx x answer ((u.toolEnds a stage result).agents a) :=
  heeds_away hx hu rfl

theorem heeds_there {tool : ToolPc} (hx : x.phase = .driving stage old) (hu : (u.agents a).turn = x.turn)
    (hold : old.atFrontend = true) : Heeds ctx x answer ((u.toTool a stage tool).agents a) :=
  heeds_toTool hu (by rw [hx]; rfl) fun _ => .inl ⟨old, hx, hold⟩

theorem heeds_afterSandbox {call : ToolCall} (hx : x.phase = .driving stage old)
    (hu : (u.agents a).turn = x.turn) (result : Except SandboxError ToolOutput) :
    Heeds ctx x answer ((u.afterSandbox a stage call result).agents a) := by
  unfold afterSandbox
  split
  · exact heeds_toolEnds hx hu _
  · exact heeds_toolEnds hx hu _
  · exact heeds_toolEnds hx hu _

theorem heeds_afterRead {call : ToolCall} (hx : x.phase = .driving stage old)
    (hu : (u.agents a).turn = x.turn) (hold : old.atFrontend = true) (path : String)
    (result : Except SandboxError ToolOutput) :
    Heeds ctx x answer ((u.afterRead ctx a stage call path result).agents a) := by
  unfold afterRead
  split
  · simp only
    split
    · exact heeds_toolEnds hx hu _
    · exact heeds_there hx hu hold
  · exact heeds_toolEnds hx hu _
  · exact heeds_toolEnds hx hu _

theorem heeds_afterFrontend {call : ToolCall} (hx : x.phase = .driving stage old)
    (hu : (u.agents a).turn = x.turn) (result : Except FrontendError ToolOutput) :
    Heeds ctx x answer ((u.afterFrontend a stage call result).agents a) := by
  unfold afterFrontend
  split
  · exact heeds_toolEnds hx hu _
  · simp only
    split
    · exact heeds_toolEnds hx hu _
    · exact heeds_toolEnds hx hu _

theorem heeds_outsideStep {call : ToolCall} (hphase : (s.agents a).phase = .driving stage old)
    (h : s.outsideStep ctx a stage call choice old = some t) :
    Heeds ctx (s.agents a) answer (t.agents a) := by
  have hrefl : Rests (s.agents a) (s.agents a) := ⟨rfl, rfl⟩
  have hpend : ∀ u : Session, Rests (s.agents a) (u.agents a) → Heeds ctx (s.agents a) answer ((u.pend a).agents a) :=
    fun u hu => (rests_pend hu).heeds
  unfold outsideStep at h
  split at h
  · split at h <;> cases h
    · exact heeds_afterSandbox hphase (rests_dropWait hrefl).turn _
    · refine heeds_orAbort ?_ hpend
      intro u reason hu
      cases reason <;> exact heeds_away hphase hu.turn rfl
  · split at h <;> cases h
    · exact heeds_away hphase rfl rfl
    · exact hpend s hrefl
  · split at h <;> cases h
    · exact heeds_afterSandbox hphase rfl _
    · exact hpend s hrefl
  · split at h <;> cases h
    · exact heeds_afterRead hphase rfl rfl _ _
    · exact hpend s hrefl
  · split at h <;> cases h
    · exact heeds_afterFrontend hphase (rests_dropWait hrefl).turn _
    · refine heeds_orAbort ?_ hpend
      intro u reason hu
      cases reason
      · exact heeds_toolEnds hphase hu.turn _
      · exact heeds_there hphase hu.turn rfl
  · split at h <;> cases h
    · exact heeds_there hphase rfl rfl
    · exact hpend s hrefl
  · split at h <;> cases h
    · exact heeds_afterFrontend hphase rfl _
    · exact hpend s hrefl
  · cases h

theorem turn_insertChild (s : Session) (a b : AgentId) (child : ChildHandle) :
    ((s.insertChild a child).agents b).turn = (s.agents b).turn := by
  have hagents : (s.insertChild a child).agents = s.agents := poolEntry_agents s a
  rw [hagents]

theorem heeds_childStep (hself : ∀ child prompt generation, old = .spawnEntry child prompt generation → child.id ≠ a)
    (hphase : (s.agents a).phase = .driving stage old) (h : s.childStep a stage choice old = some t) :
    Heeds ctx (s.agents a) answer (t.agents a) := by
  have hpend : ∀ u : Session, Rests (s.agents a) (u.agents a) → Heeds ctx (s.agents a) answer ((u.pend a).agents a) :=
    fun u hu => (rests_pend hu).heeds
  cases old with
  | spawnEntry child prompt generation =>
      cases h
      refine heeds_away hphase ?_ rfl
      simp only [spawnChild, setAgent, Function.update_of_ne (hself child prompt generation rfl).symm,
        poolEntry_agents]
  | spawnInsert child | reinsert child reason =>
      cases h
      exact heeds_toolEnds hphase (turn_insertChild s a a child) _
  | awaitKnown requested =>
      simp only [childStep] at h
      split at h <;> cases h
      · exact heeds_away hphase rfl rfl
      · exact heeds_toolEnds hphase rfl _
  | awaitHas | anyStill child =>
      simp only [childStep] at h
      split at h <;> cases h
      · exact heeds_away hphase rfl rfl
      · exact heeds_away hphase rfl rfl
  | anyFinished =>
      simp only [childStep] at h
      split at h
      · cases h
        exact heeds_away hphase rfl rfl
      · split at h <;> cases h
        exact heeds_away hphase rfl rfl
  | anyTakeRx =>
      simp only [childStep] at h
      split at h
      · cases h
        exact heeds_toolEnds hphase rfl _
      · split at h <;> cases h
        · exact heeds_away hphase rfl rfl
        · refine heeds_silent ?_ ?_ <;> rw [goto_phase] <;> rfl
  | anyWait chan =>
      cases h
      apply heeds_orAbort
      · intro u reason hu
        exact heeds_away hphase hu.turn rfl
      · intro u hu
        have hdrop := (rests_dropWait hu).turn
        rw [doneReady]
        split
        · exact heeds_away hphase hdrop rfl
        · split
          · exact heeds_away hphase hdrop rfl
          · exact hpend u hu
  | anyPut chan signalled =>
      cases signalled <;> cases h
      · exact heeds_toolEnds hphase rfl _
      · exact heeds_away hphase rfl rfl
  | anyAbort chan reason =>
      cases h
      exact heeds_toolEnds hphase rfl _
  | collect child =>
      simp only [childStep] at h
      split at h <;> cases h
      · exact heeds_away hphase rfl rfl
      · exact heeds_toolEnds hphase rfl _
  | join child =>
      cases h
      apply heeds_orAbort
      · intro u reason hu
        exact heeds_away hphase hu.turn rfl
      · intro u hu
        have hdrop := (rests_dropWait hu).turn
        rw [joinReady]
        simp only
        split
        · exact heeds_toolEnds hphase hdrop _
        · exact heeds_toolEnds hphase hdrop _
        · exact hpend u hu
  | _ => cases h

end Running

theorem heeds_driveStep {tool : ToolPc}
    (hself : ∀ child prompt generation,
      (s.agents a).phase = .driving stage (.spawnEntry child prompt generation) → child.id ≠ a)
    (hphase : (s.agents a).phase = .driving stage tool) (h : s.driveStep ctx a stage choice tool = some t) :
    Heeds ctx (s.agents a) choice.answer (t.agents a) := by
  unfold driveStep at h
  split at h
  · exact heeds_checkpointStep hphase h
  · exact heeds_checkpointStep hphase h
  · cases h
    apply heeds_orAbort
    · intro u reason hu
      apply heeds_advance hu.turn
      cases reason <;> exact nofun
    · intro u hu
      rw [completionReady]
      split
      · rename_i result hanswer
        refine heeds_advance (rests_dropWait hu).turn ?_
        intro r hr
        rw [Drive.response_completed _ result r hr] at hanswer
        exact .inr hanswer
      · exact (rests_pend hu).heeds
  · rename_i response results
    obtain ⟨call, -, h⟩ := Option.bind_eq_some_iff.mp h
    split at h
    · cases h
      apply heeds_advance rfl
      intro r hr
      rw [Drive.response_toolDone _ _ _ _ _ r hr, hphase]
      exact .inl rfl
    · rcases Option.or_eq_some_iff.mp h with hout | ⟨-, hchild⟩
      · exact heeds_outsideStep hphase hout
      · refine heeds_childStep ?_ hphase hchild
        rintro child prompt generation rfl
        exact hself child prompt generation hphase
  · cases h

theorem heeds_cancelStep {result : Except HarnessError TurnOutcome} {walk : Walk}
    (h : s.cancelStep a choice result walk = some t) :
    Heeds ctx (s.agents a) answer (t.agents a) := by
  have hgoto : ∀ (u : Session) (phase : Phase), phase.response = none → phase.atFrontend = false →
      Heeds ctx (s.agents a) answer ((u.goto a phase).agents a) := by
    intro u phase hr hf
    apply heeds_silent
    · rw [goto_phase]
      exact hr
    · rw [goto_phase]
      exact hf
  rw [cancelStep] at h
  split at h
  · split at h <;> cases h
    · exact hgoto _ _ rfl rfl
    · exact hgoto _ _ rfl rfl
  · cases h
    exact hgoto _ _ rfl rfl
  · split at h
    · split at h <;> cases h
      · exact hgoto _ _ rfl rfl
      · exact (rests_pend ⟨rfl, rfl⟩).heeds
    · split at h
      · cases h
        exact hgoto _ _ rfl rfl
      · obtain ⟨child, -, rfl⟩ := Option.map_eq_some_iff.mp h
        exact hgoto _ _ rfl rfl

theorem turnEnded_stage (l : TopLevel) (found : Option (Option String))
    (result : Except HarnessError TurnOutcome) :
    ∀ turn stage, (l.turnEnded ctx found result).1.stage = .driving turn stage → stage = .top := by
  intro turn stage hstage
  cases result with
  | error error => cases hstage
  | ok outcome =>
      cases outcome with
      | llmFailed message =>
          simp only [TopLevel.turnEnded] at hstage
          split at hstage <;> cases hstage
      | completed | interrupted | scriptFailed | shutdownRequested => cases hstage

theorem heeds_follow {step : TopLevel × List Record} (hu : u.follow a step = t)
    (hstage : ∀ turn stage, step.1.stage = .driving turn stage → stage = .top) :
    Heeds ctx x answer (t.agents a) := by
  subst hu
  apply heeds_silent
  all_goals
    simp only [follow, setAgent, Function.update_self]
    split
    · rfl
    · rfl
    · rename_i turn stage heq
      rw [hstage turn stage heq]
      rfl
    · rfl
    · rfl

theorem heeds_step (hself : ∀ stage child prompt generation,
      (s.agents a).phase = .driving stage (.spawnEntry child prompt generation) → child.id ≠ a)
    (h : s.step ctx a choice = some t) : Heeds ctx (s.agents a) choice.answer (t.agents a) := by
  have hrefl : Rests (s.agents a) (s.agents a) := ⟨rfl, rfl⟩
  have hpend : ∀ u : Session, Rests (s.agents a) (u.agents a) →
      Heeds ctx (s.agents a) choice.answer ((u.pend a).agents a) := fun u hu => (rests_pend hu).heeds
  cases hphase : (s.agents a).phase with
  | head =>
      simp only [step, hphase, Option.some.injEq] at h
      apply heeds_follow h
      cases s.signal.check.2 <;> rintro _ _ ⟨⟩
  | input =>
      simp only [step, hphase, Option.some.injEq] at h
      subst h
      apply heeds_orAbort
      · intro u reason hu
        cases reason with
        | shutdown message => exact heeds_follow rfl (by rintro _ _ ⟨⟩)
        | interrupted => exact hpend u hu
      · intro u hu
        unfold inputReady
        simp only
        split
        · apply heeds_follow rfl
          intro turn stage hstage
          unfold TopLevel.prompted at hstage
          split at hstage
          · cases hstage
          · cases hstage
            rfl
        · rename_i error _
          apply heeds_follow rfl
          cases error <;> rintro _ _ ⟨⟩
        · exact hpend u hu
  | interrupting =>
      simp only [step, hphase] at h
      split at h
      · exact heeds_follow (Option.some.inj h) (by rintro _ _ ⟨⟩)
      · cases h
        exact hpend s hrefl
  | driving stage tool =>
      simp only [step, hphase] at h
      exact heeds_driveStep (hself stage) hphase h
  | cancelling result walk =>
      simp only [step, hphase] at h
      exact heeds_cancelStep h
  | returned result =>
      simp only [step, hphase, Option.some.injEq] at h
      unfold returnStep at h
      split at h
      · subst h
        refine heeds_silent ?_ ?_ <;> simp [completeStep, setAgent, Phase.response, Phase.atFrontend]
      · exact heeds_follow h (by rintro _ _ ⟨⟩)
      · refine heeds_follow h (turnEnded_stage _ _ _)
  | finishing result =>
      simp only [step, hphase, Option.some.injEq] at h
      subst h
      refine heeds_silent ?_ ?_ <;> rw [goto_phase] <;> rfl
  | unborn | «over» | completed | dropped =>
      simp only [step, hphase] at h
      cases h

end Session

end Silo.Harness
