import Silo.Harness.TurnRuns

namespace Silo.Harness

open Silo.Core Silo.Lib

def Record.ender : Record → Option AgentId
  | .event (.turnComplete agent _) => some agent
  | _ => none

def lastCall (response : CompletionResponse) (results : List ContentBlock) : Bool :=
  decide (response.toolCalls.length ≤ results.length + 1) && decide (response.stopReason ≠ .toolUse)

def completes : Except HarnessError TurnOutcome → Bool
  | .ok (.completed _) => true
  | _ => false

namespace ToolPc

def runsOn : ToolPc → Bool
  | .sandbox | .sandboxInterrupt | .sandboxDrain | .read _ | .frontend _ | .frontendInterrupt _
  | .frontendDrain _ | .done (.ok (.output _ _)) => true
  | _ => false

def inPoll : ToolPc → Bool
  | .spawnEntry _ _ _ | .spawnInsert _ | .awaitKnown _ | .awaitHas | .anyFinished | .anyTakeRx
  | .anyPut _ _ | .anyStill _ | .collect _ => true
  | _ => false

end ToolPc

namespace Phase

def slips : Phase → Bool
  | .driving (.running response results) tool => tool.runsOn && lastCall response results
  | .cancelling result _ | .returned result => completes result
  | _ => false

def inPoll : Phase → Bool
  | .driving (.running _ _) tool => tool.inPoll
  | _ => false

def deaf (phase : Phase) : Bool := phase.slips || phase.inPoll

theorem deaf_running {response : CompletionResponse} {results : List ContentBlock} {tool : ToolPc}
    (hpoll : tool.inPoll = false) (h : tool.runsOn = true → lastCall response results = false) :
    (Phase.driving (.running response results) tool).deaf = false := by
  cases hr : tool.runsOn with
  | false => simp [deaf, slips, inPoll, hpoll, hr]
  | true => simp [deaf, slips, inPoll, hpoll, h hr]

end Phase

namespace Session

variable {ctx : SessionCtx} {s t u : Session} {a b : AgentId} {stage : Stage} {choice : Choice}
  {r : CompletionResponse} {rs : List ContentBlock} {tool tool' : ToolPc} {G : Prop}

/-- The log has grown by no report of a complete turn. -/
def Plain (s t : Session) : Prop := ∃ more, t.log = s.log ++ more ∧ ∀ r ∈ more, r.ender = none

theorem Plain.refl (s : Session) : Plain s s := ⟨[], by simp, by simp⟩

theorem Plain.trans (h : Plain s t) (h' : Plain t u) : Plain s u := by
  obtain ⟨more, hlog, hnone⟩ := h
  obtain ⟨more', hlog', hnone'⟩ := h'
  refine ⟨more ++ more', ?_, ?_⟩
  · rw [hlog', hlog, List.append_assoc]
  · intro r hr
    exact (List.mem_append.mp hr).elim (hnone r) (hnone' r)

theorem plain_same (h : t.log = s.log) : Plain s t := ⟨[], by simp [h], by simp⟩

theorem plain_record (records : List Record) (h : ∀ r ∈ records, r.ender = none) :
    Plain s (s.record records) := ⟨records, rfl, h⟩

theorem plain_setSignal (s : Session) (sig : Signal AgentId) : Plain s (s.setSignal sig) := by
  refine ⟨_, rfl, ?_⟩
  intro r hr
  obtain ⟨command, -, rfl⟩ := List.mem_map.mp hr
  rfl

theorem plain_pollWait (s : Session) (a : AgentId) (kind : WaitKind) (command : Bool) :
    Plain s (s.pollWait a kind command).1 := by
  rw [pollWait]
  simp only
  split
  · exact plain_setSignal s _
  · exact plain_setSignal s _

theorem plain_dropWait (s : Session) (a : AgentId) : Plain s (s.dropWait a) := plain_same rfl

/-- After a step of `a`: an interrupt newer than its snapshot finds the turn at a
place where it is heard, and the turn has been reported complete only if that
is how it ends. -/
structure Attends (G : Prop) (s t : Session) (a : AgentId) : Prop where
  heard : G → t.generation a < t.signal.interrupts → (t.agents a).phase.deaf = false
  polls : (t.agents a).phase.inPoll = true → (t.agents a).suspended = false
  log : ∃ more, t.log = s.log ++ more ∧ ∀ r ∈ more, ∀ b, r.ender = some b →
    b = a ∧ ∃ text walk, (t.agents a).phase = .cancelling (.ok (.completed text)) walk

theorem Plain.reports (h : Plain s t) : ∃ more, t.log = s.log ++ more ∧ ∀ r ∈ more, ∀ b,
    r.ender = some b → b = a ∧ ∃ text walk, (t.agents a).phase = .cancelling (.ok (.completed text)) walk := by
  obtain ⟨more, hlog, hnone⟩ := h
  refine ⟨more, hlog, ?_⟩
  intro r hr b hb
  rw [hnone r hr] at hb
  cases hb

theorem attends_goto {phase : Phase} (hp : Plain s u)
    (h : G → u.generation a < u.signal.interrupts → phase.deaf = false) :
    Attends G s (u.goto a phase) a := by
  refine ⟨?_, ?_, Plain.reports (hp.trans (plain_same rfl))⟩
  · intro hg hlt
    rw [goto_phase]
    apply h hg
    simpa [generation, goto, setAgent] using hlt
  · intro _
    simp [goto, setAgent]

theorem attends_toTool (hp : Plain s u)
    (h : G → u.generation a < u.signal.interrupts → (Phase.driving stage tool).deaf = false) :
    Attends G s (u.toTool a stage tool) a := attends_goto hp h

theorem dropWait_clear (hclear : ¬ u.generation a < u.signal.interrupts) :
    ¬ (u.dropWait a).generation a < (u.dropWait a).signal.interrupts := by
  simpa [Session.generation, dropWait, setAgent] using hclear

theorem attends_pend (hp : Plain s u) (hpoll : (u.agents a).phase.inPoll = false)
    (h : G → u.generation a < u.signal.interrupts → (u.agents a).phase.deaf = false) :
    Attends G s (u.pend a) a := by
  refine ⟨?_, ?_, Plain.reports (hp.trans (plain_same rfl))⟩
  · intro hg hlt
    rw [pend_phase]
    apply h hg
    simpa [generation, pend, setAgent] using hlt
  · intro hin
    rw [pend_phase, hpoll] at hin
    cases hin

theorem attends_advance {step : Advance} (hp : Plain s u)
    (h : G → u.generation a < u.signal.interrupts → (phaseOf a step.1.stage).deaf = false)
    (hrec : ∀ r ∈ step.2, ∀ b, r.ender = some b →
      b = a ∧ ∃ text, step.1.stage = .ended (.ok (.completed text))) :
    Attends G s (u.advance a step) a := by
  refine ⟨?_, ?_, ?_⟩
  · intro hg hlt
    rw [advance_phase]
    apply h hg
    simpa [generation, advance, record, setAgent] using hlt
  · intro _
    simp [advance, record, setAgent]
  · obtain ⟨more, hlog, hnone⟩ := hp
    refine ⟨more ++ step.2, ?_, ?_⟩
    · rw [← List.append_assoc, ← hlog]
      rfl
    · intro r hr b hb
      rcases List.mem_append.mp hr with hr | hr
      · rw [hnone r hr] at hb
        cases hb
      · obtain ⟨hba, text, hstage⟩ := hrec r hr b hb
        refine ⟨hba, text, ⟨some a, []⟩, ?_⟩
        rw [advance_phase, hstage]
        rfl

theorem attends_orAbort {onAbort : Session → AbortReason → Session} {other : Session → Session}
    (hact : Acting s a)
    (hkind : (s.agents a).phase.waitKind (s.generation a) = some (.abort (s.generation a)))
    (habort : ∀ u reason, s.orAbort a (s.turnWait a) choice onAbort other = onAbort u reason →
      OnlyLooks s u a → Plain s u → Attends G s (onAbort u reason) a)
    (hother : ∀ u, OnlyLooks s u a → Plain s u → ¬ u.generation a < u.signal.interrupts → Attends G s (other u) a) :
    Attends G s (s.orAbort a (s.turnWait a) choice onAbort other) a := by
  have hlooked := looked_pollWait choice.command hact.ok hkind
  have hplain := plain_pollWait s a (s.turnWait a) choice.command
  revert hlooked
  cases hpw : s.pollWait a (.abort (s.generation a)) choice.command with
  | mk u found =>
      have hwait : s.pollWait a (s.turnWait a) choice.command = (u, found) := hpw
      have hu : Plain s u := by rwa [hwait] at hplain
      have hstop : ∀ reason, found = some reason →
          s.orAbort a (s.turnWait a) choice onAbort other = onAbort u reason := by
        rintro reason rfl
        rw [orAbort, hwait]
      intro hlooked
      cases hlooked with
      | stop onlyLooks wait shutdown interrupted =>
          rw [hstop _ rfl]
          exact habort u _ (hstop _ rfl) onlyLooks hu
      | clear onlyLooks wait state interrupts kindEq stateSeen interruptsSeen =>
          have hdef : s.orAbort a (s.turnWait a) choice onAbort other = other u := by rw [orAbort, hwait]
          rw [hdef]
          apply hother u onlyLooks hu
          rw [onlyLooks.generation]
          exact Nat.not_lt.mpr (interrupts _ rfl)

section Running

variable {call : ToolCall}

/-- The call ends, or goes on to a place at which its output still comes. -/
theorem attends_running (hp : Plain s u) (hpoll : tool'.inPoll = false)
    (h : G → u.generation a < u.signal.interrupts → lastCall r rs = false) :
    Attends G s (u.toTool a (.running r rs) tool') a :=
  attends_toTool hp fun hg hlt => Phase.deaf_running hpoll fun _ => h hg hlt

theorem attends_afterSandbox (hp : Plain s u) (h : G → u.generation a < u.signal.interrupts → lastCall r rs = false)
    (result : Except SandboxError ToolOutput) :
    Attends G s (u.afterSandbox a (.running r rs) call result) a := by
  unfold afterSandbox
  split
  · exact attends_running hp rfl h
  · exact attends_running (hp.trans (plain_record _ (by simp [Record.ender]))) rfl h
  · exact attends_running (hp.trans (plain_record _ (by simp [Record.ender, errorEvent]))) rfl h

theorem attends_afterRead (hp : Plain s u) (h : G → u.generation a < u.signal.interrupts → lastCall r rs = false)
    (path : String) (result : Except SandboxError ToolOutput) :
    Attends G s (u.afterRead ctx a (.running r rs) call path result) a := by
  unfold afterRead
  split
  · simp only
    split
    · exact attends_running (hp.trans (plain_record _ (by simp [Record.ender]))) rfl h
    · exact attends_running (hp.trans (plain_record _ (by simp [Record.ender]))) rfl h
  · exact attends_running (hp.trans (plain_record _ (by simp [Record.ender]))) rfl h
  · exact attends_running (hp.trans (plain_record _ (by simp [Record.ender, errorEvent]))) rfl h

theorem attends_afterFrontend (hp : Plain s u)
    (h : G → u.generation a < u.signal.interrupts → lastCall r rs = false)
    (result : Except FrontendError ToolOutput) :
    Attends G s (u.afterFrontend a (.running r rs) call result) a := by
  unfold afterFrontend
  split
  · exact attends_running hp rfl h
  · have hcheck := hp.trans (plain_setSignal u u.signal.check.1)
    simp only
    split
    · exact attends_toTool hcheck fun _ _ => rfl
    · exact attends_toTool (hcheck.trans (plain_record _ (by simp [Record.ender, errorEvent]))) fun _ _ => rfl

theorem attends_outsideStep (hact : Acting s a) (hphase : (s.agents a).phase = .driving (.running r rs) tool)
    (h : s.outsideStep ctx a (.running r rs) call choice tool = some t)
    (hgrows : s.signal.interrupts ≤ t.signal.interrupts)
    (hheed : G → s.generation a < t.signal.interrupts → (s.agents a).phase.slips = false) :
    Attends G s t a := by
  have hplace : tool.runsOn = true ∧ tool.inPoll = false := by
    cases tool with
    | sandbox | sandboxInterrupt | sandboxDrain | read | frontend | frontendInterrupt | frontendDrain =>
        exact ⟨rfl, rfl⟩
    | _ => cases h
  have hlast : G → s.generation a < t.signal.interrupts → lastCall r rs = false := by
    intro hg hlt
    have := hheed hg hlt
    rw [hphase] at this
    simpa [Phase.slips, hplace.1] using this
  have hbase (hg : G) (hlt : s.generation a < s.signal.interrupts) : lastCall r rs = false :=
    hlast hg (Nat.lt_of_lt_of_le hlt hgrows)
  have hfreed (hg : G) (hlt : (s.dropWait a).generation a < (s.dropWait a).signal.interrupts) :
      lastCall r rs = false := by
    apply hbase hg
    simpa [generation, dropWait, setAgent] using hlt
  have hstay : Attends G s (s.pend a) a := by
    refine attends_pend (.refl s) ?_ fun hg hlt => ?_
    · rw [hphase]
      exact hplace.2
    · rw [hphase]
      exact Phase.deaf_running hplace.2 fun _ => hbase hg hlt
  -- a `select` that finds nothing leaves the task where it is
  have hwait : ∀ u, OnlyLooks s u a → Plain s u → ¬ u.generation a < u.signal.interrupts →
      Attends G s (u.pend a) a := by
    intro u hc hp hno
    refine attends_pend hp ?_ fun _ hlt => absurd hlt hno
    rw [hc.phase, hphase]
    exact hplace.2
  cases tool with
  | sandbox =>
      simp only [outsideStep] at h
      split at h <;> cases h
      · exact attends_afterSandbox (plain_dropWait s a) hfreed _
      · refine attends_orAbort hact (by rw [hphase]; rfl) ?_ hwait
        intro u reason heq hc hp
        rw [heq] at hlast
        cases reason with
        | shutdown message => exact attends_toTool hp fun _ _ => rfl
        | interrupted =>
            refine attends_running hp rfl fun hg hlt => hlast hg ?_
            rw [← hc.generation]
            exact hlt
  | sandboxInterrupt =>
      simp only [outsideStep] at h
      split at h <;> cases h
      · exact attends_running (plain_record _ (by simp [Record.ender, errorEvent])) rfl hbase
      · exact hstay
  | sandboxDrain =>
      simp only [outsideStep] at h
      split at h <;> cases h
      · exact attends_afterSandbox (.refl s) hbase _
      · exact hstay
  | read path =>
      simp only [outsideStep] at h
      split at h <;> cases h
      · exact attends_afterRead (.refl s) hbase _ _
      · exact hstay
  | frontend forwarded =>
      simp only [outsideStep] at h
      split at h <;> cases h
      · exact attends_afterFrontend (plain_dropWait s a) hfreed _
      · refine attends_orAbort hact (by rw [hphase]; rfl) ?_ hwait
        intro u reason heq hc hp
        rw [heq] at hlast
        cases reason with
        | shutdown message => exact attends_toTool hp fun _ _ => rfl
        | interrupted =>
            refine attends_running hp rfl fun hg hlt => hlast hg ?_
            rw [← hc.generation]
            exact hlt
  | frontendInterrupt forwarded =>
      simp only [outsideStep] at h
      split at h <;> cases h
      · exact attends_running (plain_record _ (by simp [Record.ender, errorEvent])) rfl hbase
      · exact hstay
  | frontendDrain forwarded =>
      simp only [outsideStep] at h
      split at h <;> cases h
      · exact attends_afterFrontend (.refl s) hbase _
      · exact hstay
  | _ => cases h

theorem poolEntry_keeps (s : Session) (a : AgentId) : (s.poolEntry a).1.log = s.log ∧
    (s.poolEntry a).1.signal = s.signal ∧ (s.poolEntry a).1.agents = s.agents := by
  rcases s.poolEntry_cases a with ⟨pool, -, heq⟩ | ⟨-, heq⟩
  · rw [heq]
    exact ⟨rfl, rfl, rfl⟩
  · rw [heq]
    exact ⟨rfl, rfl, rfl⟩

/-- A step of the Agent and AwaitAgent tools: its places are passed in polls that
found no interrupt, or an interrupt ends the call there. -/
theorem attends_childStep (hact : Acting s a) (hphase : (s.agents a).phase = .driving (.running r rs) tool)
    (h : s.childStep a (.running r rs) choice tool = some t)
    (hpoll : G → (s.agents a).phase.inPoll = true → ¬ s.generation a < s.signal.interrupts) : Attends G s t a := by
  have hno (hg : G) (hin : tool.inPoll = true) : ¬ s.generation a < s.signal.interrupts := by
    apply hpoll hg
    rw [hphase]
    exact hin
  -- the places at which nothing of the signal or the log is touched
  have hpass {u : Session} {tool' : ToolPc} (hlog : u.log = s.log) (hsig : u.signal = s.signal)
      (hgen : u.generation a = s.generation a) (hin : tool.inPoll = true) :
      Attends G s (u.toTool a (.running r rs) tool') a := by
    refine attends_toTool (plain_same hlog) fun hg hlt => ?_
    rw [hsig, hgen] at hlt
    exact absurd hlt (hno hg hin)
  cases tool with
  | spawnEntry child prompt generation =>
      cases h
      obtain ⟨hlog, hsig, hagents⟩ := poolEntry_keeps s a
      have hok := hact.ok.phase
      rw [hphase] at hok
      have hne : a ≠ child.id := Nat.ne_of_lt hok.2.2.2.2.2.2.1
      refine hpass hlog hsig ?_ rfl
      simp [Session.generation, spawnChild, setAgent, hne, hagents]
  | spawnInsert child =>
      cases h
      obtain ⟨hlog, hsig, hagents⟩ := poolEntry_keeps s a
      refine hpass hlog hsig ?_ rfl
      simp [Session.generation, insertChild, setPool, hagents]
  | awaitKnown requested =>
      simp only [childStep] at h
      split at h <;> cases h
      · exact hpass rfl rfl rfl rfl
      · exact hpass rfl rfl rfl rfl
  | awaitHas | anyStill child =>
      simp only [childStep] at h
      split at h <;> cases h
      · exact hpass rfl rfl rfl rfl
      · exact hpass rfl rfl rfl rfl
  | anyFinished =>
      simp only [childStep] at h
      split at h
      · cases h
        exact hpass rfl rfl rfl rfl
      · split at h <;> cases h
        exact hpass rfl rfl rfl rfl
  | anyTakeRx =>
      simp only [childStep] at h
      split at h
      · cases h
        exact hpass rfl rfl rfl rfl
      · split at h <;> cases h
        · exact hpass rfl rfl rfl rfl
        · exact attends_goto (.refl s) fun _ _ => rfl
  | anyWait chan =>
      cases h
      apply attends_orAbort hact (by rw [hphase]; rfl)
      · intro u reason _ _ hp
        exact attends_toTool hp fun _ _ => rfl
      · intro u hc hp hclear
        rw [doneReady]
        split
        · exact attends_toTool (hp.trans (plain_dropWait u a)) fun _ hlt => absurd hlt (dropWait_clear hclear)
        · split
          · exact attends_toTool (hp.trans (plain_dropWait u a)) fun _ hlt => absurd hlt (dropWait_clear hclear)
          · refine attends_pend hp ?_ fun _ hlt => absurd hlt hclear
            rw [hc.phase, hphase]
            rfl
  | anyPut chan signalled =>
      cases signalled <;> cases h
      · exact hpass rfl rfl rfl rfl
      · exact hpass rfl rfl rfl rfl
  | anyAbort chan reason =>
      cases h
      refine attends_toTool (plain_same rfl) fun _ _ => ?_
      cases reason <;> rfl
  | collect child =>
      simp only [childStep] at h
      split at h <;> cases h
      · exact hpass rfl rfl rfl rfl
      · exact hpass rfl rfl rfl rfl
  | join child =>
      cases h
      apply attends_orAbort hact (by rw [hphase]; rfl)
      · intro u reason _ _ hp
        exact attends_toTool hp fun _ _ => rfl
      · intro u hc hp hclear
        rw [joinReady]
        simp only
        split
        · exact attends_toTool (hp.trans (plain_dropWait u a)) fun _ hlt => absurd hlt (dropWait_clear hclear)
        · exact attends_toTool (hp.trans (plain_dropWait u a)) fun _ hlt => absurd hlt (dropWait_clear hclear)
        · refine attends_pend hp ?_ fun _ hlt => absurd hlt hclear
          rw [hc.phase, hphase]
          rfl
  | reinsert child reason =>
      cases h
      refine attends_toTool (plain_same (poolEntry_keeps s a).1) fun _ _ => ?_
      cases reason <;> rfl
  | _ => cases h

end Running

end Session

namespace Drive

variable {ctx : SessionCtx} {turn : Turn} (d : Drive)

/-- A piece of `drive_inner` reports the agent's own turn complete only where it
ends it so. -/
def Reports (turn : Turn) (step : Advance) : Prop :=
  ∀ r ∈ step.2, ∀ b, r.ender = some b →
    b = turn.agent ∧ ∃ text, step.1.stage = .ended (.ok (.completed text))

theorem reports_none {step : Advance} (h : ∀ r ∈ step.2, r.ender = none) : Reports turn step := by
  intro r hr b hb
  rw [h r hr] at hb
  cases hb

theorem reports_endOfTurn (response : CompletionResponse) : Reports turn (d.endOfTurn turn response) := by
  intro r hr b hb
  refine ⟨?_, response.text, rfl⟩
  rw [endOfTurn, stop] at hr
  simp only at hr
  rcases List.mem_append.mp hr with hr | hr
  · split at hr
    · cases List.mem_singleton.mp hr
      cases hb
    · cases hr
  · split at hr
    · cases List.mem_singleton.mp hr
      exact (Option.some.inj hb).symm
    · cases hr

theorem reports_nextCall (response : CompletionResponse) (results : List ContentBlock) :
    Reports turn (d.nextCall turn response results) := by
  rw [nextCall]
  split
  · exact reports_none (by simp)
  · split
    · exact reports_none (by simp)
    · exact reports_endOfTurn _ response

theorem Reports.cons {step : Advance} (h : Reports turn step) (records : List Record)
    (hnone : ∀ r ∈ records, r.ender = none) : Reports turn (step.1, records ++ step.2) := by
  intro r hr b hb
  rcases List.mem_append.mp hr with hr | hr
  · rw [hnone r hr] at hb
    cases hb
  · exact h r hr b hb

theorem reports_responded (response : CompletionResponse) :
    Reports turn (d.responded ctx turn response) := by
  rw [responded]
  simp only
  have hnone : ∀ r ∈ (Record.journal (.llmResponse turn.agent ctx.backend response) ::
      (response.content.filterMap ContentBlock.asText).map
        (fun text => Record.event (.assistantText turn.agent text)) ++ [Record.event (.costReport ctx.backend)]),
      r.ender = none := by
    intro r hr
    simp only [List.cons_append, List.mem_cons, List.mem_append, List.mem_map, List.not_mem_nil, or_false] at hr
    rcases hr with rfl | ⟨text, -, rfl⟩ | rfl <;> rfl
  split
  · exact (reports_endOfTurn _ response).cons _ hnone
  · exact (reports_none (by simp)).cons _ hnone

theorem reports_completed (result : Except LlmError CompletionResponse) :
    Reports turn (d.completed ctx turn result) := by
  unfold completed
  split
  · exact d.reports_responded _
  · exact reports_none (by simp [stop, lifecycle, Record.ender])
  · exact reports_none (by simp [stop, lifecycle, Record.ender])

theorem reports_toolDone (response : CompletionResponse) (results : List ContentBlock) (call : ToolCall)
    (result : Except HarnessError ToolDisposition) :
    Reports turn (d.toolDone turn response results call result) := by
  unfold toolDone
  split
  · exact reports_none (by simp)
  · exact reports_none (by simp [stop])
  · exact reports_none (by simp [cancelCalls, stop, lifecycle, Record.ender])
  · exact reports_none (by simp [stop])
  · simp only
    exact (d.reports_nextCall _ _).cons [_, _] (by simp [Record.ender])

end Drive

namespace Session

variable {ctx : SessionCtx} {s t u : Session} {a b : AgentId} {stage : Stage} {choice : Choice} {tool : ToolPc}
  {G : Prop}

theorem deaf_phaseOf {stage : Stage} (a : AgentId) (h : ∀ text, stage ≠ .ended (.ok (.completed text))) :
    (phaseOf a stage).deaf = false := by
  cases stage with
  | top | asking | calling | running => rfl
  | ended result =>
      cases result with
      | error error => rfl
      | ok outcome =>
          cases outcome with
          | completed text => exact absurd rfl (h text)
          | shutdownRequested | interrupted | llmFailed | scriptFailed => rfl

theorem attends_startTool {call : ToolCall} (hp : Plain s u)
    (hclear : ¬ u.generation a < u.signal.interrupts) : Attends G s (u.startTool ctx a stage call) a := by
  have hmove {tool : ToolPc} : Attends G s (u.toTool a stage tool) a :=
    attends_toTool hp fun _ hlt => absurd hlt hclear
  rw [startTool]
  split
  · exact hmove
  · split
    · exact hmove
    · exact hmove
  · split
    · split
      · exact hmove
      · exact hmove
    · rw [runAgentTool]
      simp only
      split
      · exact hmove
      · split
        · exact hmove
        · split
          · exact hmove
          · refine attends_toTool (hp.trans ?_) fun _ hlt => absurd hlt hclear
            exact (plain_same rfl).trans (plain_record _ (by simp [Record.ender]))
  · exact hmove

theorem attends_checkpointStep (h : s.checkpointStep ctx a stage = some t) : Attends G s t a := by
  obtain ⟨honlyLooks, -, -, hclear⟩ := checkpoint_spec s a
  rw [checkpointStep] at h
  simp only at h
  obtain ⟨step, hadv, rfl⟩ := Option.map_eq_some_iff.mp h
  have hp := plain_setSignal s (s.signal.checkpoint (s.turn a).generation).1
  set found := (s.signal.checkpoint (s.turn a).generation).2
  set u := s.setSignal (s.signal.checkpoint (s.turn a).generation).1
  have hundue (hf : found = .clear) : ¬ u.generation a < u.signal.interrupts :=
    fun hlt => hclear hf (.inr hlt)
  cases stage with
  | top =>
      cases hadv
      cases hf : found with
      | shutdown | interrupted => exact attends_advance hp (fun _ _ => rfl) (by simp [Drive.atTop, Drive.stop])
      | clear =>
          exact attends_advance hp (fun _ hlt => absurd hlt (hundue hf)) (by simp [Drive.atTop, Record.ender])
  | calling r rs =>
      obtain ⟨call, hcall, rfl⟩ := Option.map_eq_some_iff.mp hadv
      cases hf : found with
      | shutdown => exact attends_advance hp (fun _ _ => rfl) (by simp [Drive.atCall, Drive.stop])
      | interrupted =>
          apply attends_advance hp (fun _ _ => rfl)
          simp [Drive.atCall, Drive.cancelCalls, Drive.stop, Drive.lifecycle, Record.ender]
      | clear =>
          simp only [Drive.atCall, currentCall, hcall]
          refine attends_startTool (hp.trans ?_) ?_
          · exact (plain_record [.event (.toolUse (s.turn a).agent call)]
              (by simp [Record.ender])).trans (plain_same rfl)
          · simpa [generation, advance, record, setAgent] using hundue hf
  | asking | running | ended => cases hadv

theorem attends_driveStep (hact : Acting s a) (hphase : (s.agents a).phase = .driving stage tool)
    (h : s.driveStep ctx a stage choice tool = some t) (hgrows : s.signal.interrupts ≤ t.signal.interrupts)
    (hheed : G → s.generation a < t.signal.interrupts → (s.agents a).phase.slips = false)
    (hpoll : G → (s.agents a).phase.inPoll = true → ¬ s.generation a < s.signal.interrupts) : Attends G s t a := by
  have hown := hact.ok.own hact.born
  have hreports {step : Advance} (hr : Drive.Reports (s.turn a) step) : ∀ r ∈ step.2, ∀ b,
      r.ender = some b → b = a ∧ ∃ text, step.1.stage = .ended (.ok (.completed text)) := by
    intro r hr' b hb
    obtain ⟨hba, htext⟩ := hr r hr' b hb
    exact ⟨hba.trans hown, htext⟩
  cases stage with
  | top | calling => exact attends_checkpointStep (by simpa only [driveStep] using h)
  | asking =>
      have htool : tool = .idle := by
        have := hact.ok.phase
        rw [hphase] at this
        exact this
      subst htool
      simp only [driveStep, Option.some.injEq] at h
      subst h
      apply attends_orAbort hact (by rw [hphase]; rfl)
      · intro u reason _ _ hp
        cases reason with
        | shutdown message => exact attends_advance hp (fun _ _ => rfl) (by simp [Drive.aborted, Drive.stop])
        | interrupted =>
            apply attends_advance hp (fun _ _ => rfl)
            simp [Drive.aborted, Drive.stop, Drive.lifecycle, Record.ender]
      · intro u hc hp hclear
        rw [completionReady]
        split
        · exact attends_advance (hp.trans (plain_dropWait u a)) (fun _ hlt => absurd hlt (dropWait_clear hclear))
            (hreports (Drive.reports_completed _ _))
        · refine attends_pend hp ?_ fun _ hlt => absurd hlt hclear
          rw [hc.phase, hphase]
          rfl
  | running r rs =>
      simp only [driveStep] at h
      obtain ⟨call, -, hcall⟩ := Option.bind_eq_some_iff.mp h
      clear h
      split at hcall
      · rename_i result
        cases hcall
        refine attends_advance (.refl s) (fun hg hlt => ?_) (hreports (Drive.reports_toolDone _ _ _ _ _))
        have hslips := hheed hg (Nat.lt_of_lt_of_le hlt hgrows)
        rw [hphase] at hslips
        apply deaf_phaseOf
        intro text hended
        -- only the output of a last call completes the turn
        cases result with
        | error error => cases hended
        | ok disposition =>
            cases disposition with
            | shutdown | interrupted | scriptFailed => cases hended
            | output owner output =>
                simp only [Phase.slips, ToolPc.runsOn, lastCall, Bool.true_and, Bool.and_eq_false_iff,
                  decide_eq_false_iff_not, not_not, Nat.not_le] at hslips
                simp only [Drive.toolDone, Drive.nextCall, List.length_append, List.length_singleton] at hended
                split at hended
                · cases hended
                · rename_i hlen
                  split at hended
                  · cases hended
                  · rename_i hstop
                    exact hslips.elim (fun hl => hlen (by omega)) hstop
      · rcases Option.or_eq_some_iff.mp hcall with hout | ⟨-, hchild⟩
        · exact attends_outsideStep hact hphase hout hgrows hheed
        · exact attends_childStep hact hphase hchild hpoll
  | ended result => cases h

theorem attends_cancelStep {result : Except HarnessError TurnOutcome} {walk : Walk}
    (hphase : (s.agents a).phase = .cancelling result walk) (h : s.cancelStep a choice result walk = some t)
    (hheed : G → s.generation a < s.signal.interrupts → (s.agents a).phase.slips = false) : Attends G s t a := by
  have hcancel (hg : G) (hlt : s.generation a < s.signal.interrupts) (walk' : Walk) :
      (Phase.cancelling result walk').deaf = false := by
    have hs := hheed hg hlt
    rw [hphase] at hs
    simp only [Phase.deaf, Phase.inPoll, Bool.or_false]
    exact hs
  have hgoto {u : Session} {phase : Phase} (hp : Plain s u) (hsig : u.signal = s.signal)
      (hgen : u.generation a = s.generation a)
      (hd : G → s.generation a < s.signal.interrupts → phase.deaf = false) : Attends G s (u.goto a phase) a := by
    refine attends_goto hp fun hg hlt => hd hg ?_
    rwa [hsig, hgen] at hlt
  rw [cancelStep] at h
  split at h
  · split at h <;> cases h
    · exact hgoto (.refl s) rfl rfl fun hg hlt => hcancel hg hlt _
    · exact hgoto (plain_same rfl) rfl rfl fun hg hlt => hcancel hg hlt _
  · cases h
    exact hgoto (.refl s) rfl rfl fun hg hlt => hcancel hg hlt walk
  · rename_i f frames _ _
    split at h
    · rename_i child _
      split at h <;> cases h
      · refine hgoto ?_ rfl ?_ fun hg hlt => hcancel hg hlt _
        · refine Plain.trans ?_ (plain_same rfl)
          refine (plain_same rfl).trans (plain_record (s := { s with permits := s.permits + 1 }) _ ?_)
          split <;> simp [Record.ender]
        · by_cases hc : a = child.id
          · simp [generation, record, setAgent, ← hc]
          · simp [generation, record, setAgent, hc]
      · refine attends_pend (.refl s) ?_ fun hg hlt => ?_
        · rw [hphase]
          rfl
        · rw [hphase]
          exact hcancel hg hlt walk
    · split at h
      · cases h
        refine hgoto (plain_record _ ?_) rfl rfl fun hg hlt => hcancel hg hlt _
        split <;> simp [Record.ender]
      · obtain ⟨child, -, rfl⟩ := Option.map_eq_some_iff.mp h
        refine hgoto (plain_same rfl) rfl ?_ fun hg hlt => hcancel hg hlt _
        by_cases hc : a = child.id
        · simp [generation, abortTask, setAgent, ← hc]
        · simp [generation, abortTask, setAgent, hc]

theorem attends_follow {step : TopLevel × List Record} (hp : Plain s u)
    (hstage : ∀ turn stage, step.1.stage = .driving turn stage → stage = .top)
    (hrec : ∀ r ∈ step.2, r.ender = none) : Attends G s (u.follow a step) a := by
  have hdeaf : ((u.follow a step).agents a).phase.deaf = false ∧
      ((u.follow a step).agents a).phase.inPoll = false := by
    simp only [follow, setAgent, Function.update_self]
    cases hst : step.1.stage with
    | driving turn stage =>
        rw [hstage turn stage hst]
        exact ⟨rfl, rfl⟩
    | head | input | interrupting | «over» => exact ⟨rfl, rfl⟩
  refine ⟨fun _ _ => hdeaf.1, fun hin => ?_, Plain.reports (hp.trans ?_)⟩
  · rw [hdeaf.2] at hin
    cases hin
  · exact ⟨step.2, rfl, hrec⟩

theorem ender_turnEnded (l : TopLevel) (found : Option (Option String))
    (result : Except HarnessError TurnOutcome) : ∀ r ∈ (l.turnEnded ctx found result).2, r.ender = none := by
  cases result with
  | error error => exact nofun
  | ok outcome =>
      cases outcome with
      | completed | interrupted | shutdownRequested => exact nofun
      | scriptFailed message => simp [TopLevel.turnEnded, TopLevel.finish, Record.ender]
      | llmFailed message =>
          simp only [TopLevel.turnEnded]
          split <;> simp [TopLevel.finish, Record.ender]

theorem attends_inputReady (hp : Plain s u) (hpoll : (u.agents a).phase = .input) :
    Attends G s (inputReady ctx a choice u) a := by
  have hdrop := hp.trans (plain_dropWait u a)
  unfold inputReady
  simp only
  split
  · refine attends_follow (hdrop.trans (plain_setSignal _ _)) ?_ ?_
    · intro turn stage hstage
      unfold TopLevel.prompted at hstage
      split at hstage
      · cases hstage
      · cases hstage
        rfl
    · unfold TopLevel.prompted
      split
      · exact nofun
      · simp only
        split <;> simp [Record.ender]
  · rename_i error _
    refine attends_follow hdrop ?_ ?_
    · cases error <;> exact nofun
    · cases error <;> simp [TopLevel.inputFailed, TopLevel.finish, Record.ender]
  · refine attends_pend hp ?_ fun _ _ => ?_
    · rw [hpoll]
      rfl
    · rw [hpoll]
      rfl

theorem attends_step (hact : Acting s a) (h : s.step ctx a choice = some t)
    (hgrows : s.signal.interrupts ≤ t.signal.interrupts)
    (hheed : G → s.generation a < t.signal.interrupts → (s.agents a).phase.slips = false)
    (hpoll : G → (s.agents a).phase.inPoll = true → ¬ s.generation a < s.signal.interrupts) : Attends G s t a := by
  cases hphase : (s.agents a).phase with
  | head =>
      simp only [step, hphase, Option.some.injEq] at h
      subst h
      apply attends_follow (plain_setSignal _ _)
      · cases s.signal.check.2 <;> rintro _ _ ⟨⟩
      · cases s.signal.check.2 <;> simp [TopLevel.atHead, TopLevel.finish, Record.ender]
  | input =>
      simp only [step, hphase, Option.some.injEq] at h
      subst h
      have hplace := pollWait_phase s a .shutdown choice.command
      have hplain := plain_pollWait s a .shutdown choice.command
      unfold orAbort
      split
      · rename_i u reason heq
        rw [heq] at hplace hplain
        cases reason with
        | shutdown message => exact attends_follow hplain (by rintro _ _ ⟨⟩) (by rintro _ ⟨⟩)
        | interrupted =>
            refine attends_pend hplain ?_ fun _ _ => ?_
            · rw [hplace, hphase]
              rfl
            · rw [hplace, hphase]
              rfl
      · rename_i u heq
        rw [heq] at hplace hplain
        exact attends_inputReady hplain (hplace.trans hphase)
  | interrupting =>
      simp only [step, hphase] at h
      split at h <;> cases h
      · apply attends_follow (.refl s) (by rintro _ _ ⟨⟩)
        intro r hr
        rcases List.mem_append.mp hr with hr | hr
        · obtain ⟨error, -, rfl⟩ := List.mem_map.mp hr
          rfl
        · cases List.mem_singleton.mp hr
          rfl
      · refine attends_pend (.refl s) ?_ fun _ _ => ?_
        · rw [hphase]
          rfl
        · rw [hphase]
          rfl
  | driving stage tool =>
      simp only [step, hphase] at h
      exact attends_driveStep hact hphase h hgrows hheed hpoll
  | cancelling result walk =>
      simp only [step, hphase] at h
      exact attends_cancelStep hphase h fun hg hlt => hheed hg (Nat.lt_of_lt_of_le hlt hgrows)
  | returned result =>
      simp only [step, hphase, Option.some.injEq] at h
      subst h
      unfold returnStep
      split
      · unfold completeStep
        refine ⟨fun _ _ => ?_, fun hin => ?_, ?_⟩
        · simp [setAgent, Phase.deaf, Phase.slips, Phase.inPoll]
        · simp [setAgent, Phase.inPoll] at hin
        · refine Plain.reports ⟨_, rfl, ?_⟩
          split <;> simp [Record.ender]
      · exact attends_follow (plain_setSignal _ _) (by rintro _ _ ⟨⟩) (ender_turnEnded _ _ _)
      · exact attends_follow (.refl s) (fun turn stage hst => absurd hst (turnEnded_outside _ _ _ turn stage))
          (ender_turnEnded _ _ _)
  | finishing result =>
      simp only [step, hphase, Option.some.injEq] at h
      subst h
      exact attends_goto (.refl s) fun _ _ => rfl
  | unborn | «over» | completed | dropped =>
      simp only [step, hphase] at h
      cases h

end Session

end Silo.Harness
