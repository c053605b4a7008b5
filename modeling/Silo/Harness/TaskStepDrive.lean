import Silo.Harness.TaskStepChildren

namespace Silo.Harness

open Silo.Core Silo.Lib

namespace Session

variable {ctx : SessionCtx} {s t u : Session} {a : AgentId} {stage : Stage} {tool : ToolPc}
  {answer : Answer}

@[simp] theorem assistants_user (messages : List Message) (content : List ContentBlock) :
    assistants (messages ++ [⟨.user, content⟩]) = assistants messages := by
  simp [assistants]

/-- What a stage of `drive_inner` that a step leads to has to show. -/
def StageOk (s : Session) (a : AgentId) : Stage → Prop
  | .ended result => s.Concluded a result
  | .calling r rs => rs.length < r.toolCalls.length
  | .running _ _ => False
  | .top | .asking => True

theorem phaseOk_phaseOf {stage : Stage} (h : s.StageOk a stage) : s.PhaseOk a (phaseOf a stage) := by
  cases stage with
  | ended result =>
      refine ⟨h, ?_, by simp⟩
      intro e he
      exact .inl (Option.some.inj he).symm
  | calling r rs => exact ⟨h, rfl⟩
  | running r rs => exact h.elim
  | top | asking => exact rfl

/-- The records are words of `a` at most. -/
def Own (a : AgentId) (records : List Record) : Prop :=
  ∀ r ∈ records, r.command = none ∧ ∀ b, r.speaker = some b → b = a

theorem Silent.own {records : List Record} (h : Silent records) : Own a records := by
  intro r hr
  refine ⟨(h r hr).1, fun b hb => ?_⟩
  rw [(h r hr).2] at hb
  cases hb

theorem words_record {records : List Record} {messages : List Message} (hc : OnlyLooks s u a)
    (hlog : t.log = u.log ++ records) (hsig : t.signal = u.signal)
    (hgen : t.generation a = u.generation a) (hmess : (t.agents a).messages = messages)
    (h : (Silent records ∧ assistants messages = assistants (s.agents a).messages) ∨
      (Own a records ∧ ¬ u.Due a)) : Words s t a := by
  obtain ⟨more, hmore, happ, hsilent⟩ := hc.notes
  have hown : Own a records := h.elim (fun h => h.1.own) (fun h => h.1)
  have hnone : records.filterMap Record.command = [] :=
    List.filterMap_eq_nil_iff.mpr fun r hr => (hown r hr).1
  have hdue : t.Due a ↔ u.Due a := due_congr (by rw [hsig]) (by rw [hsig]) hgen
  refine ⟨⟨more ++ records, ?_, ?_, ?_⟩, ?_⟩
  · rw [hlog, hmore, List.append_assoc]
  · rw [hsig, happ, List.filterMap_append, hnone, List.append_nil]
  · intro r hr b hb
    rcases List.mem_append.mp hr with hr | hr
    · rw [hsilent r hr] at hb
      cases hb
    · refine ⟨(hown r hr).2 b hb, ?_⟩
      rcases h with ⟨hs, -⟩ | ⟨-, hd⟩
      · rw [(hs r hr).2] at hb
        cases hb
      · rw [hdue]
        exact hd
  · intro hd
    rw [hmess]
    rcases h with ⟨-, heq⟩ | ⟨-, hnd⟩
    · exact heq
    · exact absurd (hdue.mp hd) hnd

theorem taskStep_advance {step : Advance} (hact : Acting s a)
    (hphase : (s.agents a).phase = .driving stage tool)
    (hrx : (Phase.driving stage tool).usesRx = false) (hc : OnlyLooks s u a)
    (hwait : (u.agents a).wait = none) (hok : u.StageOk a step.1.stage)
    (hwords : (Silent step.2 ∧ assistants step.1.messages = assistants (s.agents a).messages) ∨
      (Own a step.2 ∧ ¬ u.Due a))
    (heffort : (phaseOf a step.1.stage).cost < (Phase.driving stage tool).cost ∨ ¬ u.Due a) :
    TaskStep s (u.advance a step) a answer := by
  set t := u.advance a step with ht
  have hphase' : (t.agents a).phase = phaseOf a step.1.stage := by simp [ht, advance, setAgent]
  have hgen : t.generation a = u.generation a := by
    simp [ht, generation, advance, setAgent, record]
  have hsig : t.signal = u.signal := rfl
  have hal : Alone s t a := by
    refine ⟨?_, ?_, ?_, ?_, Nat.le_of_eq hc.counter.symm, hc.feeds⟩
    · intro b hb
      refine staysPut_of_eq ?_ ?_
      · simp [ht, advance, setAgent, record, hb, hc.others b hb]
      · simp [ht, advance, setAgent, record, hc.registry]
    · simp [ht, advance, setAgent, record, hc.turn]
    · simp only [ht, advance, setAgent, record, Function.update_self]
      rw [hc.agent]
    · simp [ht, advance, setAgent, record, hc.aborted]
  have hreg : t.registry a = s.registry a := by simp [ht, advance, setAgent, record, hc.registry]
  have hdue : t.Due a ↔ u.Due a := due_congr rfl rfl hgen
  have hborn : phaseOf a step.1.stage ≠ .unborn := by
    cases step.1.stage <;> simp [phaseOf]
  have hstage : t.StageOk a step.1.stage := by
    cases hs : step.1.stage with
    | ended result =>
        rw [hs] at hok
        exact Concluded.grows (s := u) (by exact .refl _) hgen hok
    | top | asking | calling | running =>
        rw [hs] at hok
        exact hok
  refine taskStep_alone hact hal (words_record hc rfl hsig hgen (by simp [ht, advance, setAgent]) hwords)
    (by rw [hphase']; exact hborn) (by rw [hphase']; exact phaseOk_phaseOf hstage) ?_ ?_ ?_
  · intro w hw
    have hnone : (t.agents a).wait = none := by simpa [ht, advance, setAgent, record] using hwait
    rw [hnone] at hw
    cases hw
  · exact poolOk_alone hact hal hreg (by rw [hphase, hrx])
  · rcases heffort with hcost | hnd
    · refine .lighter ?_
      rw [weight, weight, hphase', hreg, hphase]
      omega
    · exact .free fun hd => hnd (hdue.mp hd)

section Stages

variable {turn : Turn} {d : Drive} (hagent : turn.agent = a)

theorem silent_nil : Silent [] := by simp [Silent]

theorem silent_endOfTurn (response : CompletionResponse) : Silent (d.endOfTurn turn response).2 := by
  rw [Drive.endOfTurn, Drive.stop]
  intro r hr
  rcases List.mem_append.mp hr with hr | hr
  · split at hr
    · cases List.mem_singleton.mp hr
      exact ⟨rfl, rfl⟩
    · cases hr
  · split at hr
    · cases List.mem_singleton.mp hr
      exact ⟨rfl, rfl⟩
    · cases hr

include hagent in
theorem own_completed (result : Except LlmError CompletionResponse) :
    Own a (d.completed ctx turn result).2 := by
  cases result with
  | error error =>
      apply Silent.own
      intro r hr
      cases error <;> simp [Drive.completed, Drive.stop, Drive.lifecycle] at hr <;> rcases hr with rfl | rfl <;>
        exact ⟨rfl, rfl⟩
  | ok response =>
      intro r hr
      simp only [Drive.completed, Drive.responded] at hr
      rcases List.mem_append.mp hr with hr | hr
      · rcases List.mem_append.mp hr with hr | hr
        · rcases List.mem_cons.mp hr with rfl | hr
          · exact ⟨rfl, fun b hb => (Option.some.inj hb).symm.trans hagent⟩
          · obtain ⟨text, -, rfl⟩ := List.mem_map.mp hr
            exact ⟨rfl, fun b hb => (Option.some.inj hb).symm.trans hagent⟩
        · cases List.mem_singleton.mp hr
          exact ⟨rfl, fun b hb => by cases hb⟩
      · split at hr
        · exact (silent_endOfTurn response).own r hr
        · cases hr

theorem stageOk_completed (result : Except LlmError CompletionResponse) :
    s.StageOk a (d.completed ctx turn result).1.stage := by
  cases result with
  | error error => cases error <;> exact trivial
  | ok response =>
      simp only [Drive.completed, Drive.responded]
      split
      · exact trivial
      · rename_i hcalls
        exact List.length_pos_iff.mpr (by simpa using hcalls)

theorem toolDone_spec {response : CompletionResponse} {results : List ContentBlock} (call : ToolCall)
    {result : Except HarnessError ToolDisposition} (hj : s.Justified a result) :
    s.StageOk a (d.toolDone turn response results call result).1.stage ∧
      Silent (d.toolDone turn response results call result).2 ∧
      assistants (d.toolDone turn response results call result).1.messages = assistants d.messages ∧
      (phaseOf a (d.toolDone turn response results call result).1.stage).cost < 40 := by
  cases result with
  | error error => exact ⟨trivial, silent_nil, rfl, by simp [Drive.toolDone, phaseOf, Phase.cost]⟩
  | ok disposition =>
      cases disposition with
      | shutdown => exact ⟨hj, silent_nil, rfl, by simp [Drive.toolDone, Drive.stop, phaseOf, Phase.cost]⟩
      | interrupted =>
          exact ⟨hj, silent_lifecycle _, assistants_user _ _, by simp [Drive.toolDone, Drive.cancelCalls,
            Drive.stop, phaseOf, Phase.cost]⟩
      | scriptFailed message => exact ⟨trivial, silent_nil, rfl, by simp [Drive.toolDone, Drive.stop,
          phaseOf, Phase.cost]⟩
      | output owner output =>
          have hsilent : ∀ more, Silent more → Silent (Record.journal (.toolExec turn.agent owner call output) ::
              .event (.toolResult turn.agent call.id call.name output) :: more) := by
            intro more hmore r hr
            rcases List.mem_cons.mp hr with rfl | hr
            · exact ⟨rfl, rfl⟩
            · rcases List.mem_cons.mp hr with rfl | hr
              · exact ⟨rfl, rfl⟩
              · exact hmore r hr
          simp only [Drive.toolDone, Drive.nextCall]
          split
          · rename_i hlt
            exact ⟨hlt, hsilent _ silent_nil, rfl, by simp [phaseOf, Phase.cost]⟩
          · split
            · exact ⟨trivial, hsilent _ silent_nil, assistants_user _ _, by simp [phaseOf, Phase.cost]⟩
            · exact ⟨trivial, hsilent _ (silent_endOfTurn _), assistants_user _ _,
                by simp [Drive.endOfTurn, Drive.stop, phaseOf, Phase.cost]⟩

end Stages

theorem checkpoint_spec (s : Session) (a : AgentId) :
    let found := (s.signal.checkpoint (s.turn a).generation).2
    let u := s.setSignal (s.signal.checkpoint (s.turn a).generation).1
    OnlyLooks s u a ∧ (found = .shutdown → u.signal.state.isSome = true) ∧
      (found = .interrupted → u.generation a < u.signal.interrupts) ∧ (found = .clear → ¬ u.Due a) := by
  have honlyLooks : OnlyLooks s (s.setSignal s.signal.drain) a := onlyLooks_setSignal (Signal.feeds_drain _) a
  refine ⟨honlyLooks, ?_, ?_, ?_⟩
  · intro hf
    simp only [Signal.checkpoint] at hf
    split at hf
    · assumption
    · split at hf <;> cases hf
  · intro hf
    simp only [Signal.checkpoint] at hf
    split at hf
    · cases hf
    · split at hf
      · rename_i hi
        exact of_decide_eq_true hi
      · cases hf
  · intro hf
    simp only [Signal.checkpoint] at hf
    split at hf
    · cases hf
    · split at hf
      · cases hf
      · rename_i hs hi
        rintro (h | h)
        · exact hs h
        · exact hi (decide_eq_true h)

/-- A tool call starts: it goes to its first place after the announcement. -/
theorem taskStep_started {r : CompletionResponse} {rs : List ContentBlock} {records : List Record}
    {v : Session} (hact : Acting s a) (hphase : (s.agents a).phase = .driving (.calling r rs) .idle)
    (hc : OnlyLooks s u a) (hwait : (u.agents a).wait = none) (hdue : ¬ u.Due a) (hown : Own a records)
    (hagents : v.agents = u.agents) (hregistry : v.registry = u.registry) (hsig : v.signal = u.signal)
    (hcounter : u.counter ≤ v.counter) (hlog : v.log = u.log ++ records)
    (hok : (v.toTool a (.running r rs) tool).ToolOk a tool) :
    TaskStep s (v.toTool a (.running r rs) tool) a answer := by
  set t := v.toTool a (.running r rs) tool with ht
  have hlen : rs.length < r.toolCalls.length := by
    have h := hact.ok.phase
    rw [hphase] at h
    exact h.1
  have hself : t.agents a = { u.agents a with
      phase := .driving (.running r rs) tool, suspended := false } := by
    simp [ht, toTool, goto, setAgent, hagents]
  have hreg : t.registry a = s.registry a := by
    rw [← hc.registry, ← hregistry]
    rfl
  have hal : Alone s t a := by
    refine ⟨?_, by rw [hself]; exact hc.turn, ?_, by rw [hself]; exact hc.aborted, ?_, ?_⟩
    · intro b hb
      apply staysPut_of_eq
      · simp [ht, toTool, goto, setAgent, hb, hagents, hc.others b hb]
      · rw [← hc.registry, ← hregistry]
        rfl
    · rw [hself, hc.agent]
    · rw [← hc.counter]
      exact hcounter
    · have hsig' : t.signal = u.signal := hsig
      rw [hsig']
      exact hc.feeds
  have hgen : t.generation a = u.generation a := by rw [generation, hself, generation]
  have hwords : Words s t a :=
    words_record hc hlog hsig hgen rfl (.inr ⟨hown, hdue⟩)
  apply taskStep_alone hact hal hwords (by simp [hself]) (by rw [hself]; exact ⟨hlen, hok⟩)
  · intro w hw
    rw [hself] at hw
    simp only [hwait] at hw
    cases hw
  · exact poolOk_alone hact hal hreg (by rw [hphase]; rfl)
  · exact .free fun hd => hdue ((due_congr (by rw [← hsig]; rfl) (by rw [← hsig]; rfl) hgen).mp hd)

theorem taskStep_startTool {r : CompletionResponse} {rs : List ContentBlock} {records : List Record}
    {call : ToolCall} (hact : Acting s a) (hlt : a < s.counter)
    (hfresh : (s.agents s.counter).phase = .unborn)
    (hphase : (s.agents a).phase = .driving (.calling r rs) .idle) (hc : OnlyLooks s u a)
    (hwait : (u.agents a).wait = none) (hdue : ¬ u.Due a) (hown : Own a records) :
    TaskStep s ((u.record records).startTool ctx a (.running r rs) call) a answer := by
  have hplace : ∀ {tool}, ((u.record records).toTool a (.running r rs) tool).ToolOk a tool →
      TaskStep s ((u.record records).toTool a (.running r rs) tool) a answer := fun hok =>
    taskStep_started hact hphase hc hwait hdue hown rfl rfl rfl (Nat.le_refl _) rfl hok
  have hends : ∀ message, TaskStep s ((u.record records).toolEnds a (.running r rs) (harnessError message)) a
      answer := fun message => hplace trivial
  rw [startTool]
  split
  · exact hplace trivial
  · split
    · exact hplace trivial
    · exact hplace trivial
  · split
    · split
      · exact hplace trivial
      · exact hplace trivial
    · rw [runAgentTool]
      simp only
      split
      · exact hends _
      · split
        · exact hends _
        · split
          · exact hends _
          · have hsilent : Own a (records ++ [Record.event (.agentSpawned a u.counter
                (((call.input.get "name").bind Json.asStr).filter (· ≠ "")) ‹String›)]) := by
              intro rec hrec
              rcases List.mem_append.mp hrec with hrec | hrec
              · exact hown rec hrec
              · cases List.mem_singleton.mp hrec
                exact ⟨rfl, fun b hb => by cases hb⟩
            have hstate : u.signal.state = none := by
              by_contra hs
              exact hdue (.inl (Option.isSome_iff_ne_none.mpr hs))
            have hgen : u.generation a = u.signal.interrupts := by
              have hle := hact.ok.snapshot
              have hnot : ¬ u.generation a < u.signal.interrupts := fun h => hdue (.inr h)
              have hgrow := hc.feeds.grows.interrupts
              rw [← hc.generation] at hle
              omega
            have hne : u.counter ≠ a := by
              rw [hc.counter]
              exact Nat.ne_of_gt hlt
            refine taskStep_started hact hphase hc hwait hdue hsilent rfl rfl rfl (Nat.le_succ _) ?_
              ⟨?_, hstate, ?_, rfl, ?_, ?_, Nat.lt_succ_self _⟩
            · simp [record, List.append_assoc]
            · simp [toTool, goto, setAgent]
            · rw [generation_toTool]
              exact hgen
            · simp only [toTool, goto, setAgent, record, Function.update_of_ne hne]
              rw [hc.others _ hne, hc.counter]
              exact hfresh
            · show a < u.counter
              rw [hc.counter]
              exact hlt
  · exact hends _

theorem toTool_advance {step : Advance} {counter permits : Nat} {records : List Record}
    (hm : step.1.messages = (u.agents a).messages) (stage : Stage) (tool : ToolPc) :
    ({ u.advance a step with counter := counter, permits := permits }.record records).toTool a stage tool =
      ({ u.record step.2 with counter := counter, permits := permits }.record records).toTool a stage tool := by
  simp [advance, toTool, goto, setAgent, record, hm]

theorem startTool_advance {step : Advance} {call : ToolCall}
    (hm : step.1.messages = (u.agents a).messages) (stage : Stage) :
    (u.advance a step).startTool ctx a stage call = (u.record step.2).startTool ctx a stage call := by
  have hmove : ∀ tool, (u.advance a step).toTool a stage tool = (u.record step.2).toTool a stage tool := by
    intro tool
    simp [advance, toTool, goto, setAgent, record, hm]
  have hdepth : ((u.advance a step).agents a).turn = ((u.record step.2).agents a).turn := by
    simp [advance, setAgent, record]
  unfold startTool
  split
  · exact hmove _
  · split
    · exact hmove _
    · exact hmove _
  · split
    · split
      · exact hmove _
      · exact hmove _
    · unfold runAgentTool
      simp only [hdepth]
      split
      · exact hmove _
      · split
        · exact hmove _
        · split
          · rw [if_pos ‹_›]
            exact hmove _
          · rw [if_neg ‹_›]
            exact toTool_advance hm stage _
  · exact hmove _

theorem taskStep_checkpointStep (hact : Acting s a) (hlt : a < s.counter)
    (hfresh : (s.agents s.counter).phase = .unborn)
    (hphase : (s.agents a).phase = .driving stage tool)
    (hstep : s.checkpointStep ctx a stage = some t) : TaskStep s t a answer := by
  obtain ⟨honlyLooks, hshutdown, hinterrupted, hclear⟩ := checkpoint_spec s a
  have hok := hact.ok.phase
  rw [hphase] at hok
  rw [checkpointStep] at hstep
  simp only at hstep
  obtain ⟨step, hadv, rfl⟩ := Option.map_eq_some_iff.mp hstep
  set found := (s.signal.checkpoint (s.turn a).generation).2
  set u := s.setSignal (s.signal.checkpoint (s.turn a).generation).1
  have hwaiting : ∀ w, (s.agents a).wait = some w →
      (Phase.driving stage tool).waitKind (s.generation a) = some w.kind := by
    intro w hw
    have := (hact.ok.wait w hw).kind
    rwa [hphase] at this
  cases stage with
  | top =>
      cases hok
      have hwait : (u.agents a).wait = none := by
        cases hw : (u.agents a).wait with
        | none => rfl
        | some w => cases hwaiting w hw
      cases hadv
      cases hf : found with
      | shutdown =>
          exact taskStep_advance hact hphase rfl honlyLooks hwait (hshutdown hf) (.inl ⟨silent_nil, rfl⟩)
            (.inl (by simp [Drive.atTop, Drive.stop, phaseOf, Phase.cost]))
      | interrupted =>
          exact taskStep_advance hact hphase rfl honlyLooks hwait (hinterrupted hf) (.inl ⟨silent_nil, rfl⟩)
            (.inl (by simp [Drive.atTop, Drive.stop, phaseOf, Phase.cost]))
      | clear =>
          refine taskStep_advance hact hphase rfl honlyLooks hwait trivial (.inl ⟨?_, rfl⟩) (.inr (hclear hf))
          simp [Drive.atTop, Silent, Record.command, Record.speaker]
  | calling r rs =>
      obtain ⟨hlen, rfl⟩ := hok
      have hwait : (u.agents a).wait = none := by
        cases hw : (u.agents a).wait with
        | none => rfl
        | some w => cases hwaiting w hw
      obtain ⟨call, hcall, rfl⟩ := Option.map_eq_some_iff.mp hadv
      cases hf : found with
      | shutdown =>
          exact taskStep_advance hact hphase rfl honlyLooks hwait (hshutdown hf) (.inl ⟨silent_nil, rfl⟩)
            (.inl (by simp [Drive.atCall, Drive.stop, phaseOf, Phase.cost]))
      | interrupted =>
          exact taskStep_advance hact hphase rfl honlyLooks hwait (hinterrupted hf)
            (.inl ⟨silent_lifecycle _, assistants_user _ _⟩)
            (.inl (by simp [Drive.atCall, Drive.cancelCalls, Drive.stop, phaseOf, Phase.cost]))
      | clear =>
          have hown : Own a [.event (.toolUse (s.turn a).agent call)] := by
            intro rec hrec
            cases List.mem_singleton.mp hrec
            exact ⟨rfl, fun b hb => (Option.some.inj hb).symm.trans (hact.ok.own hact.born)⟩
          simp only [Drive.atCall, currentCall, hcall]
          rw [startTool_advance rfl]
          exact taskStep_startTool hact hlt hfresh hphase honlyLooks hwait (hclear hf) hown
  | asking | running | ended => cases hadv

theorem taskStep_driveStep {choice : Choice} (hact : Acting s a) (hlt : a < s.counter)
    (hfresh : (s.agents s.counter).phase = .unborn) (hall : ∀ b, s.AgentOk b)
    (hphase : (s.agents a).phase = .driving stage tool)
    (hstep : s.driveStep ctx a stage choice tool = some t) : TaskStep s t a choice.answer := by
  have hok := hact.ok.phase
  rw [hphase] at hok
  cases stage with
  | top => exact taskStep_checkpointStep hact hlt hfresh hphase hstep
  | calling r rs => exact taskStep_checkpointStep hact hlt hfresh hphase hstep
  | asking =>
      cases hok
      simp only [driveStep, Option.some.injEq] at hstep
      subst hstep
      refine taskStep_orAbort hact (by rw [hphase]; rfl) (fun u reason hu hw hm => ?_) (fun u hu hdue hw => ?_)
      · cases reason with
        | shutdown message =>
            exact taskStep_advance hact hphase rfl hu hw hm (.inl ⟨silent_nil, rfl⟩)
              (.inl (by simp [Drive.aborted, Drive.stop, phaseOf, Phase.cost]))
        | interrupted =>
            exact taskStep_advance hact hphase rfl hu hw hm (.inl ⟨silent_lifecycle _, rfl⟩)
              (.inl (by simp [Drive.aborted, Drive.stop, phaseOf, Phase.cost]))
      · rw [completionReady]
        split
        · have hdue' : ¬ (u.dropWait a).Due a := by
            refine fun hd => hdue ((due_congr ?_ ?_ ?_).mp hd)
            · simp [setAgent, dropWait]
            · simp [setAgent, dropWait]
            · simp [generation, setAgent, dropWait]
          exact taskStep_advance hact hphase rfl (hu.trans (onlyLooks_dropWait u a)) (dropWait_wait u a)
            (stageOk_completed _) (.inr ⟨own_completed (hact.ok.own hact.born) _, hdue'⟩) (.inr hdue')
        · exact taskStep_pend hact hu (by rw [hphase]; exact rfl) hw (fun _ => .inl hdue)
  | running r rs =>
      simp only [driveStep] at hstep
      obtain ⟨call, -, hcall⟩ := Option.bind_eq_some_iff.mp hstep
      split at hcall
      · rename_i result
        cases hcall
        obtain ⟨hstage, hsilent, hmess, hcost⟩ :=
          @toolDone_spec s a (s.turn a) (s.drive a (.running r rs)) r rs call result hok.2
        exact taskStep_advance hact hphase rfl (.refl s a) (hact.unwaiting hphase rfl) hstage (.inl ⟨hsilent, hmess⟩)
          (.inl hcost)
      · rcases Option.or_eq_some_iff.mp hcall with hout | ⟨-, hchild⟩
        · exact taskStep_outsideStep hact hphase hout
        · exact taskStep_childStep hact hlt hall hphase hchild
  | ended result => cases hstep

end Session

end Silo.Harness
