import Silo.Harness.CommandSteps

namespace Silo.Harness

open Silo.Core Silo.Lib Silo.Sandbox Session

namespace SandboxedRun

variable {ctx : SessionCtx} {env : ToolEnv} {p q : SandboxedRun} {h' : HelperSession}

theorem inv_helper {l : HelperSession.Label} (hi : Inv p) (hl : p.others l = true)
    (hn : p.helper.next env.debug l = some h') : Inv { p with helper := h' } := by
  by_cases hdraw : ∃ op, l = .draw op
  · obtain ⟨op, rfl⟩ := hdraw
    have hop : op.isExec = false := by simpa [others] using hl
    have hnone : Function.update p.caller p.helper.drawn none = p.caller := by
      rw [Function.update_eq_self_iff]
      exact (hi.fresh p.helper.drawn (Nat.le_refl _)).symm
    refine inv_draw hi hn ?_ rfl rfl hnone.symm hi.tool hi.cancels nofun fun n b hmem => .inl hmem
    rw [hop]
    exact nofun
  · have heffect := HelperSession.effect_of_next hn
    have hop := HelperSession.next_op (fun op hl => hdraw ⟨op, hl⟩) hn
    refine ⟨hi.kept, hi.familyInv, hi.helper.next hn, ?_, ?_, hi.tool, hi.cancels, ?_⟩
    · intro n hle
      exact hi.fresh n (Nat.le_trans (HelperSession.effect_drawn heffect) hle)
    · intro n hexec
      exact hi.called n (hop n ▸ hexec)
    · intro n b hcaller
      exact (hi.calls n b hcaller).imp_right fun hc => hc.effect hi.helper.sound.counted heffect

theorem inv_step {act : Act} (hi : Inv p) (hc : careful env p act = true) (hq : next ctx env p act = some q) :
    Inv q := by
  cases act with
  | begin a => exact inv_begin hi hq
  | snapshot a => exact inv_snapshot hi hq
  | cancel a id => exact inv_cancel hi hq
  | helper l =>
      simp only [next, Option.ite_none_right_eq_some] at hq
      obtain ⟨hl, hq⟩ := hq
      obtain ⟨h', hn, rfl⟩ := Option.map_eq_some_iff.mp hq
      exact inv_helper hi hl hn
  | session act =>
      cases act with
      | send command =>
          obtain ⟨session, hn, rfl⟩ := Option.map_eq_some_iff.mp hq
          apply inv_session hi (kept_next hi.kept rfl hn) (familyInv_next hi.familyInv hn)
          simp only [Session.next, Option.ite_none_right_eq_some, Option.some.injEq] at hn
          obtain ⟨-, rfl⟩ := hn
          rfl
      | hangUp | request =>
          simp only [next] at hq
          obtain ⟨session, hn, rfl⟩ := Option.map_eq_some_iff.mp hq
          apply inv_session hi (kept_next hi.kept rfl hn) (familyInv_next hi.familyInv hn)
          cases hn
          rfl
      | step a choice =>
          simp only [next, Option.ite_none_right_eq_some] at hq
          obtain ⟨session, hn, hsettle⟩ := Option.bind_eq_some_iff.mp hq.2
          simp only [careful, Bool.and_eq_true, Bool.or_eq_true, Bool.not_eq_true', List.all_eq_true] at hc
          have hstep := step_of_next hn
          have hd : p.session.disciplined (.step a { choice with answer := p.answer env a choice }) = true :=
            hc.1
          refine inv_settle hi (kept_next hi.kept hd hn) (familyInv_next hi.familyInv hn) ?_ ?_ hsettle
          · intro b hb hin
            apply hi.familyInv.others_stay hstep hb
            obtain ⟨r, rs, tool, hphase, htool⟩ := running_of_inSandbox hi.kept hin
            rw [hphase]
            rcases htool with rfl | rfl | rfl | ⟨path, rfl⟩ <;> rintro ⟨⟩
          · intro n hmem
            obtain ⟨hcall, hcut⟩ := forsaken_step hi hstep hmem
            rcases hc.2 with hno | hall
            · rw [hcut] at hno
              cases hno
            · exact hall n hcall
      | drop a =>
          obtain ⟨session, hn, hsettle⟩ := Option.bind_eq_some_iff.mp hq
          have hk := kept_next hi.kept rfl hn
          have hh := familyInv_next hi.familyInv hn
          simp only [Session.next, Option.ite_none_right_eq_some, Option.some.injEq] at hn
          obtain ⟨-, rfl⟩ := hn
          refine inv_settle hi hk hh ?_ ?_ hsettle
          · intro b hb _
            simp [dropTask, setAgent, phase, hb]
          · intro n hmem
            obtain ⟨hcall, hr⟩ := mem_forsaken.mp hmem
            simp only [careful, List.all_eq_true, Bool.or_eq_true] at hc
            rcases hc n (List.mem_append.mpr (hcall.imp And.right And.right)) with hret | hharm
            · rw [Option.isNone_iff_eq_none] at hr
              rw [hr] at hret
              cases hret
            · exact hharm

theorem inv_start : Inv start :=
  ⟨kept_start, familyInv_start, helperOk_start, fun _ _ => rfl, nofun, fun _ ht => absurd rfl ht,
    fun _ hc => absurd rfl hc, nofun⟩

/-- A `Cancel` for the call has been requested. -/
def CancelSent (p : SandboxedRun) (n : Nat) : Prop :=
  ∃ m, m < p.helper.drawn ∧ (p.helper.calls m).op = .cancel (p.helper.calls n).id

/-- Nothing is left of what the agents have asked of the helper: every `Exec` has
returned or was sent a `Cancel`, and the session holds neither a waiter nor an id
in flight for any of their calls. -/
structure NothingLeft (p : SandboxedRun) : Prop where
  execs : ∀ n a, p.caller n = some a → (p.helper.calls n).op.isExec = true →
    (p.returned n).isSome = true ∨ p.CancelSent n
  waiters : ∀ n a, p.caller n = some a → ∀ e ∈ p.helper.entries, e.2 ≠ n
  inflight : ∀ n a, p.caller n = some a → (p.helper.calls n).op.isExec = true →
    (p.helper.calls n).id ∉ p.helper.inflightExecs

theorem Inv.nothingLeft (hi : Inv p) (hclean : ∀ n a, p.caller n = some a → p.helper.Cleaned n) :
    NothingLeft p := by
  refine ⟨?_, ?_, ?_⟩
  · intro n a hcaller hexec
    rcases hclean n a hcaller with ⟨reply, hs⟩ | ⟨-, hop, -⟩
    · left
      rw [returned, hs]
      rfl
    · rw [hop] at hexec
      cases hexec
  · intro n a hcaller e he
    rcases hclean n a hcaller with ⟨reply, hs⟩ | ⟨-, -, hout⟩
    · rintro rfl
      have hl := hi.helper.cleared e he
      rw [hs] at hl
      cases hl
    · exact hout e he
  · intro n a _ _ hid
    obtain ⟨m, hexec, -, hstage⟩ := hi.helper.tracked.exec _ hid
    obtain ⟨b, hb⟩ := Option.ne_none_iff_exists'.mp (hi.called m hexec)
    rcases hclean m b hb with ⟨reply, hs⟩ | ⟨-, hop, -⟩
    · rw [hs] at hstage
      cases hstage
    · rw [hop] at hexec
      cases hexec

/-- When the top level's `drive` has returned, no agent is in the sandbox. -/
theorem Inv.out_of_sandbox {result : Except HarnessError TurnOutcome} (hi : Inv p)
    (hret : p.phase topLevelAgentId = .returned result) (a : AgentId) : (p.phase a).inSandbox = false := by
  by_cases htop : a = topLevelAgentId
  · rw [htop, hret]
    rfl
  · cases hin : (p.phase a).inSandbox with
    | false => rfl
    | true =>
        obtain ⟨r, rs, tool, hphase, htool⟩ := running_of_inSandbox hi.kept hin
        have hborn : (p.session.agents a).phase.post ≠ .unborn := by
          rw [hphase]
          rcases htool with rfl | rfl | rfl | ⟨path, rfl⟩ <;> exact nofun
        have hdesc := (hi.familyInv.descendant a hborn htop).descends
        have hquiet := hi.kept.sound.quiet_of_returned (a := topLevelAgentId)
          (by rw [life_eq, show (p.session.agents topLevelAgentId).phase = _ from hret]; rfl)
        have hgone := (hi.kept.sound.descendants_gone hquiet hdesc).1
        rw [life_eq, hphase] at hgone
        cases hgone

/-- In every run where cancellation is safe and no task drops a request that the
helper session still holds something for: when the top level's `drive` returns,
no command of its agents is left. -/
theorem no_command_outlives_turn {result : Except HarnessError TurnOutcome}
    (hr : (machine ctx env).ReachableUnder (fun p act => careful env p act = true) p)
    (hret : p.phase topLevelAgentId = .returned result) : NothingLeft p := by
  have hi : Inv p := by
    refine hr.invariant ?_ fun hi hc hq => inv_step hi hc hq
    rintro _ rfl
    exact inv_start
  apply hi.nothingLeft
  intro n a hcaller
  have hout := hi.out_of_sandbox hret a
  refine (hi.calls n a hcaller).resolve_left ?_
  intro hmem
  rcases List.mem_append.mp hmem with hmem | hmem
  · have hin := hi.tool a (by rw [mem_toolCalls.mp hmem]; exact nofun)
    rw [hin] at hout
    cases hout
  · obtain ⟨c, hc, -⟩ := mem_cancelCalls.mp hmem
    have hin := inSandbox_of_cancels (hi.cancels a (by rw [hc]; exact nofun))
    rw [hin] at hout
    cases hout

def bashEnv : ToolEnv where
  workspaceMount := "/workspace"
  homeDir := "/scratch/home"
  tmpDir := "/scratch/tmp"
  b64 := id
  unb64 text := .ok text.toUTF8.toList
  lossy bytes := String.ofList (bytes.map fun b => Char.ofNat b.toNat)
  percentEncode := id
  parseResults := id
  debug _ := ""

def bashCtx : SessionCtx where
  backend := "mock"
  frontendKind := "interactive"
  registry := ⟨⟨"Bash", "", .null, .both⟩, .sandbox⟩ :: familyCtx.registry
  system := ""
  maxTokens := 100
  b64 := id

def moves (acts : List Session.Act) : List Act := acts.map .session

/-- The helper answers the call. -/
def replies (n : Nat) (result : Except String HelperPayload) : List Act :=
  [.helper (.receive ⟨UInt64.ofNat n, result⟩), .helper .deliver, .helper (.hear n), .helper (.finish n)]

def sends (n : Nat) : List Act :=
  [.helper (.register n), .helper (.track n), .helper (.send n), .helper .write]

def connected : List Act :=
  .helper (.draw .hello) :: sends 0 ++ replies 0 (.ok (.hello "1" 7)) ++ [.helper .handshake]

/-- The agent runs a command, which is call `n`, and waits for it. -/
def runs (a : AgentId) (n : Nat) : List Act :=
  moves (Session.calls a "Bash" "command" "make") ++ .begin a :: sends n ++ moves [goes a]

def interruptedCommand : List Act :=
  connected ++ moves prompted ++ runs 0 1 ++
    moves [.send .interrupt, .step 0 ⟨.pending, true, 0⟩] ++ [.snapshot 0, .cancel 0 0x1] ++ sends 2 ++
    replies 2 (.ok .ack) ++ moves [goes 0] ++ replies 1 (.ok (.exec 130 "" "" false false true)) ++
    moves [goes 0, goes 0, goes 0, goes 0, goes 0]

theorem no_command_outlives_turn_interruptedCommand :
    ∃ p, (machine bashCtx bashEnv).ReachableUnder (fun p act => careful bashEnv p act = true) p ∧
      (∃ result, p.phase topLevelAgentId = .returned result) ∧ p.caller 1 = some topLevelAgentId ∧
      (p.helper.calls 1).op.isExec = true ∧ NothingLeft p := by
  obtain ⟨p, hr, hp⟩ := Machine.exists_of_runChecked (M := machine bashCtx bashEnv) (careful bashEnv)
    interruptedCommand
    (fun p => isReturned (p.phase topLevelAgentId) && decide (p.caller 1 = some topLevelAgentId) &&
      (p.helper.calls 1).op.isExec) rfl rfl
  simp only [Bool.and_eq_true, decide_eq_true_eq] at hp
  obtain ⟨⟨hret, hcaller⟩, hexec⟩ := hp
  obtain ⟨result, hphase⟩ := exists_returned hret
  exact ⟨p, hr, ⟨result, hphase⟩, hcaller, hexec, no_command_outlives_turn hr hphase⟩

def abortedCommand : List Act :=
  connected ++ moves (prompted ++ spawns 0) ++ runs 1 1 ++
    moves (ends 0 ++ [goes 0, Session.cancels 0 1, goes 0, .drop 1, goes 0, goes 0, goes 0])

/-- The command goes on, nobody has cancelled it, and its waiter and its id stay
with the session. -/
theorem aborted_command_outlives :
    ∃ p, (machine bashCtx bashEnv).Reachable p ∧
      (∃ result, p.phase topLevelAgentId = .returned result) ∧ p.caller 1 = some 1 ∧
      (p.helper.calls 1).op.isExec = true ∧ (p.returned 1).isSome = false ∧ ¬ p.CancelSent 1 ∧
      ((p.helper.calls 1).id, 1) ∈ p.helper.entries ∧
      (p.helper.calls 1).id ∈ p.helper.inflightExecs := by
  obtain ⟨p, hr, hp⟩ := Machine.exists_of_run (M := machine bashCtx bashEnv) abortedCommand
    (fun p => isReturned (p.phase topLevelAgentId) && decide (p.caller 1 = some 1) &&
      (p.helper.calls 1).op.isExec && !(p.returned 1).isSome &&
      ((List.range p.helper.drawn).all fun m => (p.helper.calls m).op ≠ .cancel (p.helper.calls 1).id) &&
      decide (((p.helper.calls 1).id, 1) ∈ p.helper.entries) &&
      decide ((p.helper.calls 1).id ∈ p.helper.inflightExecs)) rfl rfl
  simp only [Bool.and_eq_true, decide_eq_true_eq, Bool.not_eq_true', List.all_eq_true, List.mem_range] at hp
  obtain ⟨⟨⟨⟨⟨⟨hret, hcaller⟩, hexec⟩, hopen⟩, hno⟩, hwaiter⟩, hid⟩ := hp
  refine ⟨p, hr, exists_returned hret, hcaller, hexec, hopen, ?_, hwaiter, hid⟩
  rintro ⟨m, hm, hop⟩
  exact hno m hm hop

end SandboxedRun

end Silo.Harness
