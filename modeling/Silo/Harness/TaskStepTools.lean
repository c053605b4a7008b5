import Silo.Harness.TaskStep

namespace Silo.Harness

open Silo.Core Silo.Lib

namespace Session

variable {ctx : SessionCtx} {s t u : Session} {a : AgentId} {r : CompletionResponse}
  {rs : List ContentBlock} {tool tool' : ToolPc} {answer : Answer}

theorem setPool_self (s : Session) (a : AgentId) : s.setPool a (s.registry a) = s := by
  simp [setPool]

theorem generation_toTool (s : Session) (a : AgentId) (stage : Stage) (tool : ToolPc) :
    (s.toTool a stage tool).generation a = s.generation a := by
  simp [generation, toTool, goto, setAgent]

theorem Acting.length (hact : Acting s a) (hphase : (s.agents a).phase = .driving (.running r rs) tool) :
    rs.length < r.toolCalls.length := by
  have h := hact.ok.phase
  rw [hphase] at h
  exact h.1

theorem toolOk_done (hsig : t.signal = s.signal) (hgen : t.generation a = s.generation a)
    {result : Except HarnessError ToolDisposition} (h : s.Justified a result) :
    t.ToolOk a (.done result) :=
  Justified.grows (by rw [hsig]; exact .refl _) hgen h

theorem taskStep_toTool {pool : Option ChildPool} (hact : Acting s a)
    (hphase : (s.agents a).phase = .driving (.running r rs) tool) (hc : OnlyLooks s u a)
    (hwait : (u.agents a).wait = none)
    (hok : ((u.setPool a pool).toTool a (.running r rs) tool').ToolOk a tool')
    (hpool : ∀ p, pool = some p → (∀ c ∈ p.children, s.Kin a c.id) ∧
      (∀ chan, p.doneRx = some chan → chan = p.chan) ∧
      (p.doneRx = none → (Phase.driving (.running r rs) tool').usesRx = true))
    (heffort : (tool'.rank < tool.rank ∧ poolCost pool < poolCost (s.registry a) + 20) ∨
      ¬ ((u.setPool a pool).toTool a (.running r rs) tool').Due a) :
    TaskStep s ((u.setPool a pool).toTool a (.running r rs) tool') a answer := by
  set t := (u.setPool a pool).toTool a (.running r rs) tool' with ht
  have hal : Alone s t a := alone_goto hc pool _
  have hphase' : (t.agents a).phase = .driving (.running r rs) tool' := by
    simp [ht, toTool, goto, setAgent]
  have hreg : t.registry a = pool := by simp [ht, toTool, goto, setAgent, setPool]
  have hlen := hact.length hphase
  have hmess : (t.agents a).messages = (s.agents a).messages := by
    simp [ht, toTool, goto, setAgent, setPool, hc.messages]
  have hnotes : Notes s t := hc.notes
  refine taskStep_alone hact hal (hnotes.words hmess) (by simp [hphase']) ?_ ?_ ?_ ?_
  · rw [hphase']
    exact ⟨hlen, hok⟩
  · intro w hw
    have hnone : (t.agents a).wait = none := by simpa [ht, toTool, goto, setAgent, setPool] using hwait
    rw [hnone] at hw
    cases hw
  · intro p hp
    rw [hreg] at hp
    obtain ⟨hkin, hchan, hrx⟩ := hpool p hp
    refine ⟨fun c hcm => (hkin c hcm).alone hal, hchan, fun _ hnone => ?_⟩
    rw [hphase']
    exact hrx hnone
  · rcases heffort with ⟨hrank, hcost⟩ | hfree
    · refine .lighter ?_
      simp only [weight, hphase', hphase, hreg, Phase.cost]
      omega
    · exact .free hfree

section Place

variable (hact : Acting s a) (hphase : (s.agents a).phase = .driving (.running r rs) tool)

include hact hphase

theorem Acting.toolOk : s.ToolOk a tool := by
  have h := hact.ok.phase
  rw [hphase] at h
  exact h.2

theorem Acting.unwaiting (hkind : (Phase.driving (.running r rs) tool).waitKind (s.generation a) = none) :
    (s.agents a).wait = none := by
  cases hw : (s.agents a).wait with
  | none => rfl
  | some w =>
      have hk := (hact.ok.wait w hw).kind
      rw [hphase, hkind] at hk
      cases hk

theorem taskStep_place (hc : OnlyLooks s u a) (hwait : (u.agents a).wait = none)
    (hok : (u.toTool a (.running r rs) tool').ToolOk a tool')
    (hrx : (Phase.driving (.running r rs) tool).usesRx = true →
      (Phase.driving (.running r rs) tool').usesRx = true)
    (heffort : tool'.rank < tool.rank ∨ ¬ (u.toTool a (.running r rs) tool').Due a) :
    TaskStep s (u.toTool a (.running r rs) tool') a answer := by
  have hself := setPool_self u a
  have hcost : poolCost (u.registry a) < poolCost (s.registry a) + 20 := by
    rw [hc.registry]
    omega
  rw [← hself] at hok heffort ⊢
  refine taskStep_toTool hact hphase hc hwait hok ?_ (heffort.imp (fun h => ⟨h, hcost⟩) id)
  intro p hp
  rw [hc.registry] at hp
  obtain ⟨hkin, hchan, hdone⟩ := hact.ok.pool p hp
  refine ⟨hkin, hchan, fun hnone => hrx ?_⟩
  have := hdone hact.aborted hnone
  rwa [hphase] at this

theorem taskStep_toolEnds (hc : OnlyLooks s u a) (hwait : (u.agents a).wait = none)
    {result : Except HarnessError ToolDisposition} (hj : u.Justified a result)
    (hrx : (Phase.driving (.running r rs) tool).usesRx = false) (hrank : 1 < tool.rank) :
    TaskStep s (u.toolEnds a (.running r rs) result) a answer := by
  refine taskStep_place hact hphase hc hwait ?_ (fun h => ?_) (.inl hrank)
  · exact toolOk_done (s := u) (by rfl) (generation_toTool u a _ _) hj
  · rw [hrx] at h
    cases h

end Place

theorem silent_lifecycle (message : String) : Silent [.journal (.lifecycle message)] := by
  simp [Silent, Record.command, Record.speaker]

theorem silent_error (context message : String) : Silent [errorEvent context message] := by
  simp [Silent, errorEvent, Record.command, Record.speaker]

def Parked (s u : Session) (a : AgentId) : Prop :=
  ∀ w, (u.agents a).wait = some w →
    (s.agents a).phase.waitKind (s.generation a) = some w.kind ∧ w.stateSeen = false ∧
      ∀ g, w.kind = .abort g → w.interruptsSeen ≤ g

theorem parked_none (h : (u.agents a).wait = none) : Parked s u a := by
  intro w hw
  rw [h] at hw
  cases hw

theorem alone_pend (hc : OnlyLooks s u a) : Alone s (u.pend a) a := by
  refine ⟨?_, ?_, ?_, ?_, Nat.le_of_eq hc.counter.symm, hc.feeds⟩
  · intro b hb
    refine staysPut_of_eq ?_ (by rw [pend, setAgent, hc.registry])
    simp [pend, setAgent, hb, hc.others b hb]
  · simp [pend, setAgent, hc.turn]
  · simp only [pend, setAgent, Function.update_self]
    rw [hc.agent]
  · simp [pend, setAgent, hc.aborted]

theorem taskStep_pend (hact : Acting s a) (hc : OnlyLooks s u a)
    (hphase : (u.pend a).PhaseOk a (s.agents a).phase)
    (hwait : Parked s u a)
    (hexcuse : (s.agents a).phase.inTurn = true → ¬ u.Due a ∨ (s.agents a).phase.fits answer = false ∨
      ∃ c, (s.agents a).phase.joining = some c ∧ (s.agents c).finished = false) :
    TaskStep s (u.pend a) a answer := by
  have hal := alone_pend hc
  have hsame : ((u.pend a).agents a).phase = (s.agents a).phase := by
    simp [pend, setAgent, hc.phase]
  have hreg : (u.pend a).registry a = s.registry a := by rw [pend, setAgent, hc.registry]
  have hmess : ((u.pend a).agents a).messages = (s.agents a).messages := by
    simp [pend, setAgent, hc.messages]
  have hnotes : Notes s (u.pend a) := hc.notes
  refine taskStep_alone hact hal (hnotes.words hmess) (by rw [hsame]; exact hact.born) (by rw [hsame]; exact hphase)
    ?_ ?_ ?_
  · intro w hw
    have hw' : (u.agents a).wait = some w := by simpa [pend, setAgent] using hw
    obtain ⟨hkind, hstate, hint⟩ := hwait w hw'
    refine ⟨?_, hstate, hint⟩
    rw [hsame, hal.generation]
    exact hkind
  · intro p hp
    rw [hreg] at hp
    obtain ⟨hkin, hchan, hrx⟩ := hact.ok.pool p hp
    refine ⟨fun c hcm => (hkin c hcm).alone hal, hchan, ?_⟩
    rw [hsame, hal.aborted]
    exact hrx
  · refine .idle hsame hreg fun hturn => (hexcuse hturn).imp_left fun hdue hd => hdue ?_
    simpa [Due, generation, pend, setAgent] using hd

theorem taskStep_select {kind : WaitKind} {choice : Choice} {onAbort : Session → AbortReason → Session}
    {other : Session → Session} (hact : Acting s a)
    (hkind : (s.agents a).phase.waitKind (s.generation a) = some kind)
    (habort : ∀ u reason, OnlyLooks s u a → (u.agents a).wait = none →
      (∀ message, reason = .shutdown message → u.signal.state = some message) →
      (reason = .interrupted → ∃ g, kind = .abort g ∧ g < u.signal.interrupts) →
      TaskStep s (onAbort u reason) a answer)
    (hother : ∀ u, OnlyLooks s u a → u.signal.state = none →
      (∀ g, kind = .abort g → u.signal.interrupts ≤ g) → Parked s u a → TaskStep s (other u) a answer) :
    TaskStep s (s.orAbort a kind choice onAbort other) a answer := by
  have hlooked := looked_pollWait choice.command hact.ok hkind
  rw [orAbort]
  generalize s.pollWait a kind choice.command = polled at hlooked
  cases hlooked with
  | stop onlyLooks wait shutdown interrupted => exact habort _ _ onlyLooks wait shutdown interrupted
  | clear onlyLooks wait state interrupts kindEq stateSeen interruptsSeen =>
      apply hother _ onlyLooks state interrupts
      intro w hw
      rw [wait] at hw
      cases hw
      rw [hkind, kindEq]
      exact ⟨rfl, stateSeen, interruptsSeen⟩

theorem taskStep_orAbort {choice : Choice} {onAbort : Session → AbortReason → Session}
    {other : Session → Session} (hact : Acting s a)
    (hkind : (s.agents a).phase.waitKind (s.generation a) = some (.abort (s.generation a)))
    (habort : ∀ u reason, OnlyLooks s u a → (u.agents a).wait = none → u.Meant a reason →
      TaskStep s (onAbort u reason) a answer)
    (hother : ∀ u, OnlyLooks s u a → ¬ u.Due a → Parked s u a → TaskStep s (other u) a answer) :
    TaskStep s (s.orAbort a (s.turnWait a) choice onAbort other) a answer := by
  refine taskStep_select hact hkind (fun u reason hc hw hs hi => habort u reason hc hw ?_)
    (fun u hc hs hi hp => hother u hc ?_ hp)
  · cases reason with
    | shutdown message =>
        rw [Meant, hs message rfl]
        rfl
    | interrupted =>
        obtain ⟨g, hg, hlt⟩ := hi rfl
        cases hg
        rw [Meant, hc.generation]
        exact hlt
  · rintro (hstate | hint)
    · rw [hs] at hstate
      cases hstate
    · rw [hc.generation] at hint
      exact absurd hint (Nat.not_lt.mpr (hi _ rfl))

section Outside

variable {call : ToolCall}
variable (hact : Acting s a) (hphase : (s.agents a).phase = .driving (.running r rs) tool)
  (hc : OnlyLooks s u a) (hwait : (u.agents a).wait = none)
  (hrx : (Phase.driving (.running r rs) tool).usesRx = false) (hrank : 1 < tool.rank)

include hact hphase hc hwait hrx hrank

theorem taskStep_noted {records : List Record} (hsilent : Silent records)
    {result : Except HarnessError ToolDisposition} (hj : u.Justified a result) :
    TaskStep s ((u.record records).toolEnds a (.running r rs) result) a answer :=
  taskStep_toolEnds hact hphase (hc.trans (onlyLooks_record hsilent a)) hwait hj hrx hrank

theorem taskStep_afterSandbox (result : Except SandboxError ToolOutput) :
    TaskStep s (u.afterSandbox a (.running r rs) call result) a answer := by
  cases result with
  | ok output => exact taskStep_toolEnds hact hphase hc hwait trivial hrx hrank
  | error error =>
      cases error with
      | scriptMismatch detail =>
          exact taskStep_noted hact hphase hc hwait hrx hrank (silent_lifecycle _) trivial
      | unavailable | setup | helper | rejected | io =>
          exact taskStep_noted hact hphase hc hwait hrx hrank (silent_error _ _) trivial

theorem taskStep_afterFrontend (result : Except FrontendError ToolOutput) :
    TaskStep s (u.afterFrontend a (.running r rs) call result) a answer := by
  cases result with
  | ok output => exact taskStep_toolEnds hact hphase hc hwait trivial hrx hrank
  | error error =>
      have hcheck := hc.trans (onlyLooks_check u a)
      simp only [afterFrontend]
      split
      · rename_i hs
        exact taskStep_toolEnds hact hphase hcheck hwait hs hrx hrank
      · exact taskStep_noted hact hphase hcheck hwait hrx hrank (silent_error _ _) trivial

theorem taskStep_afterRead (path : String) (hread : 4 < tool.rank) (result : Except SandboxError ToolOutput) :
    TaskStep s (u.afterRead ctx a (.running r rs) call path result) a answer := by
  cases result with
  | ok output =>
      have hsilent : Silent [.journal (.toolExec a "sandbox"
          ⟨call.id ++ "-read", "Read", .object [("path", .string path)]⟩ output)] := by
        simp [Silent, Record.command, Record.speaker]
      simp only [afterRead]
      split
      · exact taskStep_noted hact hphase hc hwait hrx hrank hsilent trivial
      · refine taskStep_place hact hphase (hc.trans (onlyLooks_record hsilent a)) hwait trivial (fun h => ?_) (.inl hread)
        rw [hrx] at h
        cases h
  | error error =>
      cases error with
      | scriptMismatch detail =>
          exact taskStep_noted hact hphase hc hwait hrx hrank (silent_lifecycle _) trivial
      | unavailable | setup | helper | rejected | io =>
          exact taskStep_noted hact hphase hc hwait hrx hrank (silent_error _ _) trivial

end Outside

theorem silent_errors {ε : Type} (errors : List ε) (context : String) (display : ε → String) :
    Silent (errors.map fun e => errorEvent context (display e)) := by
  intro r hr
  obtain ⟨e, -, rfl⟩ := List.mem_map.mp hr
  exact silent_error _ _ _ (List.mem_singleton_self _)

theorem taskStep_waiting (hact : Acting s a) (hphase : (s.agents a).phase = .driving (.running r rs) tool)
    (hwait : (s.agents a).wait = none) (hok : (s.pend a).ToolOk a tool)
    (hfits : (s.agents a).phase.fits answer = false) : TaskStep s (s.pend a) a answer := by
  apply taskStep_pend hact (OnlyLooks.refl s a) _ (parked_none hwait) fun _ => .inr (.inl hfits)
  rw [hphase]
  exact ⟨hact.length hphase, hok⟩

theorem taskStep_outsideStep {call : ToolCall} {choice : Choice} (hact : Acting s a)
    (hphase : (s.agents a).phase = .driving (.running r rs) tool)
    (hstep : s.outsideStep ctx a (.running r rs) call choice tool = some t) :
    TaskStep s t a choice.answer := by
  have hrefl := OnlyLooks.refl s a
  have hdrop := onlyLooks_dropWait s a
  have hdropped := dropWait_wait s a
  have hlen := hact.length hphase
  cases tool with
  | sandbox =>
      simp only [outsideStep] at hstep
      split at hstep <;> cases hstep
      · exact taskStep_afterSandbox hact hphase hdrop hdropped rfl (by decide) _
      · refine taskStep_orAbort hact (by rw [hphase]; rfl) (fun u reason hu hw hm => ?_) (fun u hu hdue hw => ?_)
        · cases reason with
          | shutdown message => exact taskStep_toolEnds hact hphase hu hw hm rfl (by decide)
          | interrupted => exact taskStep_place hact hphase hu hw trivial id (.inl (by decide))
        · exact taskStep_pend hact hu (by rw [hphase]; exact ⟨hlen, trivial⟩) hw (fun _ => .inl hdue)
  | sandboxInterrupt =>
      have hnone := hact.unwaiting hphase rfl
      simp only [outsideStep] at hstep
      split at hstep <;> cases hstep
      · exact taskStep_place hact hphase (onlyLooks_record (silent_errors _ _ _) a) hnone trivial id (.inl (by decide))
      · rename_i hno
        apply taskStep_waiting hact hphase hnone trivial
        rw [hphase]
        cases hans : choice.answer with
        | sandboxInterrupt error => exact absurd hans (hno error)
        | _ => rfl
  | sandboxDrain =>
      have hnone := hact.unwaiting hphase rfl
      simp only [outsideStep] at hstep
      split at hstep <;> cases hstep
      · exact taskStep_afterSandbox hact hphase hrefl hnone rfl (by decide) _
      · rename_i hno
        apply taskStep_waiting hact hphase hnone trivial
        rw [hphase]
        cases hans : choice.answer with
        | sandbox result => exact absurd hans (hno result)
        | _ => rfl
  | read path =>
      have hnone := hact.unwaiting hphase rfl
      simp only [outsideStep] at hstep
      split at hstep <;> cases hstep
      · exact taskStep_afterRead hact hphase hrefl hnone rfl (by simp [ToolPc.rank]) path (by simp [ToolPc.rank]) _
      · rename_i hno
        apply taskStep_waiting hact hphase hnone trivial
        rw [hphase]
        cases hans : choice.answer with
        | sandbox result => exact absurd hans (hno result)
        | _ => rfl
  | frontend forwarded =>
      simp only [outsideStep] at hstep
      split at hstep <;> cases hstep
      · exact taskStep_afterFrontend hact hphase hdrop hdropped rfl (by simp [ToolPc.rank]) _
      · refine taskStep_orAbort hact (by rw [hphase]; rfl) (fun u reason hu hw hm => ?_) (fun u hu hdue hw => ?_)
        · cases reason with
          | shutdown message =>
              exact taskStep_toolEnds hact hphase hu hw hm rfl (by simp [ToolPc.rank])
          | interrupted => exact taskStep_place hact hphase hu hw trivial id (.inl (by simp [ToolPc.rank]))
        · exact taskStep_pend hact hu (by rw [hphase]; exact ⟨hlen, trivial⟩) hw (fun _ => .inl hdue)
  | frontendInterrupt forwarded =>
      have hnone := hact.unwaiting hphase rfl
      simp only [outsideStep] at hstep
      split at hstep <;> cases hstep
      · exact taskStep_place hact hphase (onlyLooks_record (silent_errors _ _ _) a) hnone trivial id
          (.inl (by simp [ToolPc.rank]))
      · rename_i hno
        apply taskStep_waiting hact hphase hnone trivial
        rw [hphase]
        cases hans : choice.answer with
        | frontendInterrupt error => exact absurd hans (hno error)
        | _ => rfl
  | frontendDrain forwarded =>
      have hnone := hact.unwaiting hphase rfl
      simp only [outsideStep] at hstep
      split at hstep <;> cases hstep
      · exact taskStep_afterFrontend hact hphase hrefl hnone rfl (by simp [ToolPc.rank]) _
      · rename_i hno
        apply taskStep_waiting hact hphase hnone trivial
        rw [hphase]
        cases hans : choice.answer with
        | frontend result => exact absurd hans (hno result)
        | _ => rfl
  | _ => cases hstep

end Session

end Silo.Harness
