import Silo.Harness.Commands
import Silo.Harness.Failures

namespace Silo.Harness

open Silo.Core Silo.Lib Silo.Sandbox Session

namespace SandboxedRun

variable {ctx : SessionCtx} {env : ToolEnv} {p q : SandboxedRun} {a b : AgentId} {n : Nat}
  {h h' : HelperSession}

structure HelperOk (h : HelperSession) : Prop where
  sound : h.Sound
  cleared : h.Cleared
  tracked : h.Tracked

theorem HelperOk.next {debug : HelperPayload → String} {l : HelperSession.Label} (hok : HelperOk h)
    (hn : h.next debug l = some h') : HelperOk h' :=
  ⟨hok.sound.next hn, HelperSession.cleared_effect hok.cleared hok.sound (HelperSession.effect_of_next hn),
    HelperSession.tracked_next hok.tracked hok.sound.counted hn⟩

theorem helperOk_start : HelperOk HelperSession.start :=
  ⟨HelperSession.sound_start, fun _ he => absurd he List.not_mem_nil,
    ⟨List.nodup_nil, fun _ hid => absurd hid List.not_mem_nil⟩⟩

theorem abandon_next (hn : h.next env.debug (.abandon n) = some h') : h' = h.setStage n .abandoned := by
  simp only [HelperSession.next, Option.ite_none_right_eq_some, Option.some.injEq] at hn
  exact hn.2.symm

structure Dropped (calls : List Nat) (h h' : HelperSession) : Prop where
  drawn : h'.drawn = h.drawn
  entries : h'.entries = h.entries
  op : ∀ n, (h'.calls n).op = (h.calls n).op
  stage : ∀ n, (h'.calls n).stage = if n ∈ calls then .abandoned else (h.calls n).stage
  ok : HelperOk h → HelperOk h'

theorem dropped_of_abandon {calls : List Nat} (hd : abandon env calls h = some h') : Dropped calls h h' := by
  induction calls generalizing h with
  | nil =>
      cases hd
      exact ⟨rfl, rfl, fun _ => rfl, fun n => by simp, id⟩
  | cons m rest ih =>
      simp only [abandon, List.foldlM_cons] at hd
      obtain ⟨h₁, h₁eq, hrest⟩ := Option.bind_eq_some_iff.mp hd
      have hstep := abandon_next h₁eq
      have hdrop := ih hrest
      refine ⟨?_, ?_, ?_, ?_, fun hok => hdrop.ok (hok.next h₁eq)⟩
      · rw [hdrop.drawn, hstep]
        rfl
      · rw [hdrop.entries, hstep]
        rfl
      · intro n
        rw [hdrop.op, hstep, HelperSession.setStage_op]
      · intro n
        rw [hdrop.stage, hstep, HelperSession.setStage_stage]
        by_cases hm : n = m <;> simp [hm]

/-- The request can be dropped with nothing left of it: it is no `Exec`, and its
waiter has been taken from the pending map. -/
def harmless (p : SandboxedRun) (n : Nat) : Bool :=
  !(p.helper.calls n).op.isExec && p.helper.entries.all fun e => e.2 ≠ n

/-- A shutdown ends the `select` around the tool before the tool is done. -/
def cutShort (env : ToolEnv) (p : SandboxedRun) (a : AgentId) (choice : Choice) : Bool :=
  match p.phase a with
  | .driving _ .sandbox =>
    (p.ready env a).isNone &&
      match (p.session.pollWait a (p.session.turnWait a) choice.command).2 with
      | some (.shutdown _) => true
      | _ => false
  | _ => false

/-- Cancellation is safe for the child handles, and no task drops a request that
leaves something behind in the helper session. -/
def careful (env : ToolEnv) (p : SandboxedRun) : Act → Bool
  | .session (.step a choice) =>
    p.session.disciplined (.step a choice) &&
      (!(p.cutShort env a choice) || (p.toolCalls a).all p.harmless)
  | .session (.drop a) =>
    (p.toolCalls a ++ p.cancelCalls a).all fun n => (p.returned n).isSome || p.harmless n
  | _ => true

structure Inv (p : SandboxedRun) : Prop where
  kept : Kept p.session
  familyInv : FamilyInv p.session
  helper : HelperOk p.helper
  fresh : ∀ n, p.helper.drawn ≤ n → p.caller n = none
  called : ∀ n, (p.helper.calls n).op.isExec = true → p.caller n ≠ none
  tool : ∀ a, p.tool a ≠ none → (p.phase a).inSandbox = true
  cancels : ∀ a, p.cancels a ≠ none → (p.phase a).cancelsSandbox = true
  calls : ∀ n a, p.caller n = some a → n ∈ p.toolCalls a ++ p.cancelCalls a ∨ p.helper.Cleaned n

theorem cleaned_of_returned (hr : (p.returned n).isSome = true) : p.helper.Cleaned n := by
  rw [returned] at hr
  split at hr
  · exact .inl ⟨_, ‹_›⟩
  · cases hr

/-- A call that is dropped without harm, or has returned, is cleaned up. -/
theorem cleaned_of_dropped {calls : List Nat} (hd : Dropped calls p.helper h')
    (hn : (p.returned n).isSome = true ∧ n ∉ calls ∨ n ∈ calls ∧ p.harmless n = true) : h'.Cleaned n := by
  rcases hn with ⟨hr, hout⟩ | ⟨hin, hharm⟩
  · rcases cleaned_of_returned hr with ⟨reply, hs⟩ | ⟨hs, -⟩
    · exact .inl ⟨reply, by rw [hd.stage, if_neg hout]; exact hs⟩
    · rw [returned] at hr
      rw [hs] at hr
      cases hr
  · simp only [harmless, Bool.and_eq_true, Bool.not_eq_true', List.all_eq_true, decide_eq_true_eq] at hharm
    refine .inr ⟨by rw [hd.stage, if_pos hin], by rw [hd.op]; exact hharm.1, ?_⟩
    rw [hd.entries]
    exact hharm.2

theorem dropped_cleaned {calls : List Nat} (hd : Dropped calls p.helper h') (hc : p.helper.Cleaned n)
    (hout : ∀ n ∈ calls, (p.returned n).isNone = true) : h'.Cleaned n := by
  rcases hc with ⟨reply, hs⟩ | ⟨hs, hop, hent⟩
  · refine .inl ⟨reply, ?_⟩
    rw [hd.stage, if_neg, hs]
    intro hmem
    have hnone := hout n hmem
    rw [returned, hs] at hnone
    cases hnone
  · refine .inr ⟨?_, by rw [hd.op]; exact hop, by rw [hd.entries]; exact hent⟩
    rw [hd.stage]
    split
    · rfl
    · exact hs

theorem inSandbox_of_cancels {phase : Phase} (hp : phase.cancelsSandbox = true) : phase.inSandbox = true := by
  unfold Phase.cancelsSandbox at hp
  split at hp
  · rfl
  · cases hp

theorem toolCalls_of_tool (ht : q.tool a = p.tool a) : q.toolCalls a = p.toolCalls a := by
  simp only [toolCalls, ht]

theorem cancelCalls_of_cancels (hc : q.cancels a = p.cancels a) : q.cancelCalls a = p.cancelCalls a := by
  simp only [cancelCalls, hc]

theorem mem_forsaken {phase : Phase} : n ∈ p.forsaken a phase ↔
    (phase.inSandbox = false ∧ n ∈ p.toolCalls a ∨ phase.cancelsSandbox = false ∧ n ∈ p.cancelCalls a) ∧
      (p.returned n).isNone = true := by
  rw [forsaken]
  rw [List.mem_filter, List.mem_append]
  cases phase.inSandbox <;> cases phase.cancelsSandbox <;> simp

theorem inv_settle {session : Session} (hi : Inv p) (hk : Kept session) (hh : FamilyInv session)
    (hothers : ∀ b, b ≠ a → (p.phase b).inSandbox = true → (session.agents b).phase = p.phase b)
    (hharm : ∀ n ∈ p.forsaken a (session.agents a).phase, p.harmless n = true)
    (hq : p.settle env a session = some q) : Inv q := by
  obtain ⟨h', hab, rfl⟩ := Option.map_eq_some_iff.mp hq
  have hd := dropped_of_abandon hab
  have hgone : ∀ n, n ∈ p.toolCalls a ∧ (session.agents a).phase.inSandbox = false ∨
      n ∈ p.cancelCalls a ∧ (session.agents a).phase.cancelsSandbox = false → h'.Cleaned n := by
    intro n hn
    apply cleaned_of_dropped hd
    cases hr : (p.returned n).isSome with
    | true =>
        refine .inl ⟨rfl, ?_⟩
        intro hmem
        have hnone := (mem_forsaken.mp hmem).2
        rw [Option.isNone_iff_eq_none] at hnone
        rw [hnone] at hr
        cases hr
    | false =>
        have hmem : n ∈ p.forsaken a (session.agents a).phase :=
          mem_forsaken.mpr ⟨hn.imp And.symm And.symm, by simpa using hr⟩
        exact .inr ⟨hmem, hharm n hmem⟩
  refine ⟨hk, hh, hd.ok hi.helper, ?_, ?_, ?_, ?_, ?_⟩
  · intro n hn
    exact hi.fresh n (hd.drawn ▸ hn)
  · intro n hn
    exact hi.called n (hd.op n ▸ hn)
  · intro b hb
    by_cases hba : b = a
    · subst hba
      simp only [Function.update_self] at hb
      split at hb
      · assumption
      · exact absurd rfl hb
    · simp only [Function.update_of_ne hba] at hb
      have hin := hi.tool b hb
      rw [phase, hothers b hba hin]
      exact hin
  · intro b hb
    by_cases hba : b = a
    · subst hba
      simp only [Function.update_self] at hb
      split at hb
      · assumption
      · exact absurd rfl hb
    · simp only [Function.update_of_ne hba] at hb
      have hin := hi.cancels b hb
      rw [phase, hothers b hba (inSandbox_of_cancels hin)]
      exact hin
  · intro n b hcaller
    rcases hi.calls n b hcaller with hmem | hclean
    · by_cases hba : b = a
      · subst hba
        rcases List.mem_append.mp hmem with hmem | hmem
        · cases hin : (session.agents b).phase.inSandbox with
          | true =>
              refine .inl (List.mem_append_left _ ?_)
              rwa [toolCalls_of_tool (p := p) (by simp)]
          | false => exact .inr (hgone n (.inl ⟨hmem, hin⟩))
        · cases hin : (session.agents b).phase.cancelsSandbox with
          | true =>
              refine .inl (List.mem_append_right _ ?_)
              rwa [cancelCalls_of_cancels (p := p) (by simp)]
          | false => exact .inr (hgone n (.inr ⟨hmem, hin⟩))
      · left
        rwa [toolCalls_of_tool (p := p) (by simp [hba]), cancelCalls_of_cancels (p := p) (by simp [hba])]
    · exact .inr (dropped_cleaned hd hclean fun n hn => (mem_forsaken.mp hn).2)

section Steps

variable {s t : Session} {choice : Choice} {r : CompletionResponse} {rs : List ContentBlock} {tool : ToolPc}

/-- Outside its `select`, a task waits for the sandbox until that answers. -/
theorem step_pending (hphase : (s.agents a).phase = .driving (.running r rs) tool)
    (htool : tool = .sandboxInterrupt ∨ tool = .sandboxDrain ∨ ∃ path, tool = .read path)
    (hans : choice.answer = .pending) (hstep : s.step ctx a choice = some t) :
    (t.agents a).phase = (s.agents a).phase := by
  simp only [Session.step, hphase, driveStep] at hstep
  obtain ⟨call, -, hcall⟩ := Option.bind_eq_some_iff.mp hstep
  have hpend : t = s.pend a := by
    rcases htool with rfl | rfl | ⟨path, rfl⟩
    all_goals
      simp only [outsideStep, hans, Option.some_or, Option.some.injEq] at hcall
      exact hcall.symm
  rw [hpend]
  simp [pend, setAgent]

/-- Inside it, a task that the tool does not answer goes on with the wait. -/
theorem step_select (hphase : (s.agents a).phase = .driving (.running r rs) .sandbox)
    (hans : choice.answer = .pending) (hstep : s.step ctx a choice = some t) :
    (t.agents a).phase.inSandbox = true ∨
      ∃ message, (s.pollWait a (s.turnWait a) choice.command).2 = some (.shutdown message) := by
  have hlocal := (local_pollWait s a (s.turnWait a) choice.command).2
  simp only [Session.step, hphase, driveStep] at hstep
  obtain ⟨call, -, hcall⟩ := Option.bind_eq_some_iff.mp hstep
  simp only [outsideStep, hans, Option.some_or, Option.some.injEq, orAbort] at hcall
  split at hcall
  · rename_i u reason heq
    cases reason with
    | shutdown message => exact .inr ⟨message, by rw [heq]⟩
    | interrupted =>
        subst hcall
        left
        simp [sandboxAborted, toTool, goto, setAgent, Phase.inSandbox]
  · rename_i u heq
    subst hcall
    left
    have hsame : ((u.pend a).agents a).phase = (s.agents a).phase := by
      rw [heq] at hlocal
      simpa [pend, setAgent] using hlocal
    rw [hsame, hphase]
    rfl

theorem running_of_inSandbox (hk : Kept s) (hin : (s.agents a).phase.inSandbox = true) :
    ∃ r rs tool, (s.agents a).phase = .driving (.running r rs) tool ∧
      (tool = .sandbox ∨ tool = .sandboxInterrupt ∨ tool = .sandboxDrain ∨ ∃ path, tool = .read path) := by
  have hok := hk.tools a
  cases hphase : (s.agents a).phase with
  | driving stage tool =>
      rw [hphase] at hin hok
      cases stage with
      | running r rs =>
          refine ⟨r, rs, tool, rfl, ?_⟩
          cases tool with
          | sandbox => exact .inl rfl
          | sandboxInterrupt => exact .inr (.inl rfl)
          | sandboxDrain => exact .inr (.inr (.inl rfl))
          | read path => exact .inr (.inr (.inr ⟨path, rfl⟩))
          | _ => cases hin
      | _ =>
          cases tool with
          | idle => cases hin
          | _ => cases hok
  | _ =>
      rw [hphase] at hin
      cases hin

end Steps

theorem step_of_next {s t : Session} {choice : Choice} (hn : Session.next ctx s (.step a choice) = some t) :
    s.step ctx a choice = some t := by
  simp only [Session.next] at hn
  split at hn
  · cases hn
  · exact hn

theorem mem_toolCalls : n ∈ p.toolCalls a ↔ p.tool a = some (.asked n) := by
  rw [toolCalls]
  split
  · rename_i m heq
    rw [heq, List.mem_singleton, Option.some.injEq, ToolFuture.asked.injEq]
    exact eq_comm
  · rename_i hne
    exact iff_of_false List.not_mem_nil (hne n)

theorem mem_cancelCalls : n ∈ p.cancelCalls a ↔ ∃ c, p.cancels a = some c ∧ c.current = some n := by
  rw [cancelCalls, Option.mem_toList, Option.bind_eq_some_iff]

theorem ready_of_waiting (ht : p.tool a = some (.asked n)) (hr : (p.returned n).isNone = true) :
    p.ready env a = none := by
  rw [Option.isNone_iff_eq_none] at hr
  simp [ready, ht, hr]

/-- A step drops a request that has not returned only when a shutdown ends the
`select` around it. -/
theorem forsaken_step {choice : Choice} {t : Session} (hi : Inv p)
    (hstep : p.session.step ctx a { choice with answer := p.answer env a choice } = some t)
    (hn : n ∈ p.forsaken a (t.agents a).phase) : n ∈ p.toolCalls a ∧ p.cutShort env a choice = true := by
  obtain ⟨hmem, hr⟩ := mem_forsaken.mp hn
  rcases hmem with ⟨hout, hmem⟩ | ⟨hout, hmem⟩
  · refine ⟨hmem, ?_⟩
    have htool := mem_toolCalls.mp hmem
    have hready : p.ready env a = none := ready_of_waiting htool hr
    have hin := hi.tool a (by rw [htool]; rintro ⟨⟩)
    obtain ⟨r, rs, tool, hphase, hcases⟩ := running_of_inSandbox hi.kept hin
    have hstays : (t.agents a).phase = (p.session.agents a).phase → False := by
      intro hsame
      rw [hsame, show (p.session.agents a).phase.inSandbox = true from hin] at hout
      cases hout
    rcases hcases with rfl | rfl | rfl | ⟨path, rfl⟩
    · have hans : p.answer env a choice = .pending := by simp [answer, phase, hphase, hready]
      rcases step_select hphase hans hstep with hin' | ⟨message, hwait⟩
      · rw [hin'] at hout
        cases hout
      · have hwait' : (p.session.pollWait a (p.session.turnWait a) choice.command).2 =
            some (.shutdown message) := hwait
        simp [cutShort, phase, hphase, hready, hwait']
    · by_cases hc : p.cancelled a = true
      · exfalso
        have hans : p.answer env a choice = .sandboxInterrupt none := by simp [answer, phase, hphase, hc]
        simp only [Session.step, hphase, driveStep] at hstep
        obtain ⟨call, -, hcall⟩ := Option.bind_eq_some_iff.mp hstep
        simp only [outsideStep, hans, Option.some_or, Option.some.injEq] at hcall
        subst hcall
        simp [toTool, goto, setAgent, Phase.inSandbox] at hout
      · have hans : p.answer env a choice = .pending := by simp [answer, phase, hphase, hc]
        exact (hstays (step_pending hphase (.inl rfl) hans hstep)).elim
    · have hans : p.answer env a choice = .pending := by simp [answer, phase, hphase, hready]
      exact (hstays (step_pending hphase (.inr (.inl rfl)) hans hstep)).elim
    · have hans : p.answer env a choice = .pending := by simp [answer, phase, hphase, hready]
      exact (hstays (step_pending hphase (.inr (.inr ⟨path, rfl⟩)) hans hstep)).elim
  · exfalso
    obtain ⟨c, hc, hcur⟩ := mem_cancelCalls.mp hmem
    have hin := hi.cancels a (by rw [hc]; rintro ⟨⟩)
    obtain ⟨r, rs, tool, hphase, hcases⟩ := running_of_inSandbox hi.kept (inSandbox_of_cancels hin)
    have hin' : (p.session.agents a).phase.cancelsSandbox = true := hin
    rcases hcases with rfl | rfl | rfl | ⟨path, rfl⟩
    · rw [hphase] at hin'
      cases hin'
    · have hopen : p.cancelled a = false := by
        rw [Option.isNone_iff_eq_none] at hr
        simp [cancelled, hc, hcur, hr]
      have hans : p.answer env a choice = .pending := by simp [answer, phase, hphase, hopen]
      rw [step_pending hphase (.inl rfl) hans hstep, hin'] at hout
      cases hout
    · rw [hphase] at hin'
      cases hin'
    · rw [hphase] at hin'
      cases hin'

theorem inv_session {session : Session} (hi : Inv p) (hk : Kept session) (hh : FamilyInv session)
    (hagents : session.agents = p.session.agents) : Inv { p with session := session } := by
  have hphase : ∀ b, phase { p with session := session } b = p.phase b := by
    intro b
    rw [phase, phase, hagents]
  refine ⟨hk, hh, hi.helper, hi.fresh, hi.called, ?_, ?_, hi.calls⟩
  · intro b hb
    rw [hphase]
    exact hi.tool b hb
  · intro b hb
    rw [hphase]
    exact hi.cancels b hb

theorem inv_draw {op : HelperOp} {owner : Option AgentId} (hi : Inv p) (hd : p.helper.draw op = some h')
    (hop : op.isExec = true → owner ≠ none) (hsession : q.session = p.session) (hhelper : q.helper = h')
    (hcaller : q.caller = Function.update p.caller p.helper.drawn owner)
    (htool : ∀ b, q.tool b ≠ none → (p.phase b).inSandbox = true)
    (hcancels : ∀ b, q.cancels b ≠ none → (p.phase b).cancelsSandbox = true)
    (hown : ∀ b, owner = some b → p.helper.drawn ∈ q.toolCalls b ++ q.cancelCalls b)
    (hstill : ∀ n b, n ∈ p.toolCalls b ++ p.cancelCalls b →
      n ∈ q.toolCalls b ++ q.cancelCalls b ∨ p.helper.Cleaned n) : Inv q := by
  have hnext : p.helper.next (fun _ => "") (.draw op) = some h' := hd
  have heffect := HelperSession.effect_of_next hnext
  have hphase : ∀ b, q.phase b = p.phase b := by
    intro b
    rw [phase, phase, hsession]
  have hdraw := hd
  simp only [HelperSession.draw, Option.ite_none_right_eq_some, Option.some.injEq] at hdraw
  obtain ⟨-, rfl⟩ := hdraw
  refine ⟨hsession ▸ hi.kept, hsession ▸ hi.familyInv, hhelper ▸ hi.helper.next hnext, ?_, ?_, ?_, ?_, ?_⟩
  · intro n hn
    rw [hhelper] at hn
    have hlt : p.helper.drawn < n := hn
    rw [hcaller, Function.update_of_ne (Nat.ne_of_gt hlt)]
    exact hi.fresh n (Nat.le_of_lt hlt)
  · intro n hn
    rw [hhelper] at hn
    rw [hcaller]
    by_cases hnew : n = p.helper.drawn
    · subst hnew
      rw [Function.update_self]
      exact hop (by simpa [HelperSession.setCall] using hn)
    · rw [Function.update_of_ne hnew]
      exact hi.called n (by simpa [HelperSession.setCall, hnew] using hn)
  · intro b hb
    rw [hphase]
    exact htool b hb
  · intro b hb
    rw [hphase]
    exact hcancels b hb
  · intro n b hn
    rw [hcaller] at hn
    rw [hhelper]
    by_cases hnew : n = p.helper.drawn
    · subst hnew
      rw [Function.update_self] at hn
      exact .inl (hown b hn)
    · rw [Function.update_of_ne hnew] at hn
      rcases hi.calls n b hn with hmem | hclean
      · exact (hstill n b hmem).imp_right fun hc => hc.effect hi.helper.sound.counted heffect
      · exact .inr (hclean.effect hi.helper.sound.counted heffect)

theorem inv_begin (hi : Inv p) (hq : p.begin env a = some q) : Inv q := by
  rw [begin] at hq
  split at hq
  case h_3 => cases hq
  all_goals
    rename_i hnone hphase
    have hin : (p.phase a).inSandbox = true := by rw [hphase]; rfl
    obtain ⟨call, -, hcall⟩ := Option.bind_eq_some_iff.mp hq
    have htool : ∀ future b, Function.update p.tool a (some future) b ≠ none →
        (p.phase b).inSandbox = true := by
      intro future b hb
      by_cases hba : b = a
      · rw [hba]
        exact hin
      · rw [Function.update_of_ne hba] at hb
        exact hi.tool b hb
    have hlost : ∀ future n b, n ∈ p.toolCalls b ++ p.cancelCalls b →
        b ≠ a ∧ n ∈ toolCalls { p with tool := Function.update p.tool a (some future) } b ++
          p.cancelCalls b ∨ b = a ∧ n ∈ p.cancelCalls b := by
      intro future n b hmem
      by_cases hba : b = a
      · subst hba
        refine .inr ⟨rfl, (List.mem_append.mp hmem).resolve_left ?_⟩
        rw [mem_toolCalls, hnone]
        exact nofun
      · left
        rw [toolCalls_of_tool (p := p) (by simp [hba])]
        exact ⟨hba, hmem⟩
    split at hcall
    · rename_i result hrun
      cases hcall
      refine ⟨hi.kept, hi.familyInv, hi.helper, hi.fresh, hi.called, htool _, hi.cancels, ?_⟩
      intro n b hn
      rcases hi.calls n b hn with hmem | hclean
      · rcases hlost (.answered result) n b hmem with ⟨-, hmem⟩ | ⟨-, hmem⟩
        · exact .inl hmem
        · exact .inl (List.mem_append_right _ hmem)
      · exact .inr hclean
    · rename_i op after hrun
      obtain ⟨h', hd, rfl⟩ := Option.map_eq_some_iff.mp hcall
      refine inv_draw hi hd (fun _ => Option.some_ne_none a) rfl rfl rfl (htool _) hi.cancels ?_ ?_
      · rintro b ⟨⟩
        exact List.mem_append_left _ (mem_toolCalls.mpr (by simp))
      · intro n b hmem
        rcases hlost (.asked p.helper.drawn) n b hmem with ⟨-, hmem⟩ | ⟨-, hmem⟩
        · exact .inl hmem
        · exact .inl (List.mem_append_right _ hmem)

theorem inv_snapshot (hi : Inv p) (hq : p.snapshot a = some q) : Inv q := by
  rw [snapshot] at hq
  split at hq
  · rename_i hnone hphase
    cases hq
    refine ⟨hi.kept, hi.familyInv, hi.helper, hi.fresh, hi.called, hi.tool, ?_, ?_⟩
    · intro b hb
      by_cases hba : b = a
      · rw [hba]
        exact (congrArg Phase.cancelsSandbox hphase).trans rfl
      · simp only [Function.update_of_ne hba] at hb
        exact hi.cancels b hb
    · intro n b hn
      refine (hi.calls n b hn).imp_left fun hmem => ?_
      by_cases hba : b = a
      · subst hba
        refine List.mem_append_left _ ((List.mem_append.mp hmem).resolve_right ?_)
        rw [mem_cancelCalls, hnone]
        rintro ⟨c, hc, -⟩
        cases hc
      · rwa [cancelCalls_of_cancels (p := p) (by simp [hba])]
  · cases hq

theorem inv_cancel {id : UInt64} (hi : Inv p) (hq : p.cancel a id = some q) : Inv q := by
  obtain ⟨c, hc, hq⟩ := Option.bind_eq_some_iff.mp hq
  split at hq
  · rename_i hcond
    obtain ⟨h', hd, rfl⟩ := Option.map_eq_some_iff.mp hq
    refine inv_draw hi hd nofun rfl rfl rfl hi.tool ?_ ?_ ?_
    · intro b hb
      by_cases hba : b = a
      · rw [hba]
        exact hi.cancels a (by rw [hc]; exact nofun)
      · simp only [Function.update_of_ne hba] at hb
        exact hi.cancels b hb
    · rintro b ⟨⟩
      exact List.mem_append_right _ (mem_cancelCalls.mpr ⟨_, Function.update_self .., rfl⟩)
    · intro n b hmem
      by_cases hba : b = a
      · subst hba
        rcases List.mem_append.mp hmem with hmem | hmem
        · exact .inl (List.mem_append_left _ hmem)
        · obtain ⟨c', hc', hcur⟩ := mem_cancelCalls.mp hmem
          rw [hc] at hc'
          cases hc'
          have hret := hcond.2
          rw [hcur] at hret
          exact .inr (cleaned_of_returned hret)
      · left
        rwa [cancelCalls_of_cancels (p := p) (by simp [hba])]
  · cases hq

end SandboxedRun

end Silo.Harness
