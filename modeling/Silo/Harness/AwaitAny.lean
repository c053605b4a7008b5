import Silo.Harness.Completions

namespace Silo.Harness

open Silo.Core Silo.Lib

/-- The places of `await_any_child`. -/
def ToolPc.awaitingAny : ToolPc → Bool
  | .anyFinished | .anyTakeRx | .anyWait _ | .anyPut _ _ | .anyAbort _ _ | .anyStill _ => true
  | _ => false

/-- The task has sent its id on the done channel. -/
def Agent.signalled (x : Agent) : Bool :=
  match x.phase with
  | .finishing _ | .completed _ => true
  | _ => false

theorem signalled_post (x : Agent) : x.phase.post.signalled = x.signalled := by
  rw [Agent.signalled]
  cases hp : x.phase with
  | driving stage tool =>
      cases tool with
      | done result =>
          rw [Phase.post]
          rcases Session.post_done result with heq | heq <;> rw [heq] <;> rfl
      | _ => rfl
  | _ => rfl

namespace Session

variable {ctx : SessionCtx} {s t : Session} {a c : AgentId} {stage : Stage} {choice : Choice}

/-- The agent waits on the done channel in `await_any_child`. A task that has
been aborted does not: it is dropped where it stands. -/
def ParkedAny (s : Session) (a : AgentId) (chan : Nat) : Prop :=
  (∃ stage, (s.agents a).phase = .driving stage (.anyWait chan)) ∧ (s.agents a).aborted = false

/-- `await_any_child` of `a` returns `c`, which is collected next. -/
structure ReturnsChild (ctx : SessionCtx) (s : Session) (a c : AgentId) (t : Session) : Prop where
  step : ∃ choice, next ctx s (.step a choice) = some t
  place : ∃ stage tool, (s.agents a).phase = .driving stage tool ∧ tool.awaitingAny = true
  chosen : ∃ stage, (t.agents a).phase = .driving stage (.collect c)

theorem children_mem_kids {child : ChildHandle} (hc : child ∈ s.children a) : child.id ∈ s.family.kids a := by
  rw [family_kids]
  exact List.mem_map_of_mem hc

theorem FamilyInv.not_dropped (h : FamilyInv s) {child : ChildHandle} (hc : child ∈ s.children a) :
    (s.agents child.id).phase ≠ .dropped := by
  intro hdropped
  have hfree := (h.ledger.loose child.id ⟨a, .inl (children_mem_kids hc)⟩).1
  have hfelled := (h.signals.wired child.id).felled (by rw [post_eq, hdropped]; rfl)
  rw [hfree] at hfelled
  cases hfelled

theorem FamilyInv.signalled_of_finished (h : FamilyInv s) {child : ChildHandle} (hc : child ∈ s.children a)
    (hfin : (s.agents child.id).finished = true) : (s.agents child.id).signalled = true := by
  have hthere := h.not_dropped hc
  rw [Agent.finished] at hfin
  rw [Agent.signalled]
  split at hfin
  · rename_i heq
    rw [heq]
  · rename_i heq
    exact absurd heq hthere
  · cases hfin

theorem FamilyInv.unread (h : FamilyInv s) {chan : Nat} (hp : ParkedAny s a chan) {child : ChildHandle}
    (hc : child ∈ s.children a) (hfin : (s.agents child.id).finished = true) :
    ∃ pool, s.registry a = some pool ∧ pool.chan = chan ∧ child.id ∈ s.chans pool.chan := by
  obtain ⟨⟨stage, hphase⟩, hfree⟩ := hp
  have hpost : s.family.post a = .receiving chan none := by
    rw [post_eq, hphase]
    rfl
  have hwired := h.signals.wired a
  obtain ⟨pool, hreg⟩ : ∃ pool, s.registry a = some pool := by
    cases hreg : s.registry a with
    | none =>
        rw [children, hreg] at hc
        cases hc
    | some pool => exact ⟨pool, rfl⟩
  have hpool : s.family.pool a = some pool.ids := by
    simp only [family, hreg, Option.map_some]
  have hkid : child.id ∈ pool.ids.children := by
    rw [← Family.kids_some hpool]
    exact children_mem_kids hc
  have hchan : chan = pool.chan := hwired.chan pool.ids chan hpool (.inr (by rw [hpost]; rfl))
  have hsig : (s.family.post child.id).signalled = true := by
    rw [post_eq, signalled_post]
    exact h.signalled_of_finished hc hfin
  refine ⟨pool, hreg, hchan.symm, ?_⟩
  rcases hwired.unread hfree pool.ids hpool child.id hkid hsig with hminds | hin
  · rw [hpost] at hminds
    cases hminds
  · exact hin

theorem FamilyInv.receiver_parked (h : FamilyInv s) {pool : ChildPool}
    (hphase : (s.agents a).phase = .driving stage .anyTakeRx) (hreg : s.registry a = some pool) :
    pool.doneRx ≠ none := by
  intro hnone
  have hpool : s.family.pool a = some pool.ids := by
    simp only [family, hreg, Option.map_some]
  have hpost : s.family.post a = .plain := by
    rw [post_eq, hphase]
    rfl
  rcases (h.signals.wired a).rx pool.ids hpool hnone with hrx | hdropped
  · rw [hpost] at hrx
    cases hrx
  · rw [hpost] at hdropped
    cases hdropped

theorem childStep_of_next {tool : ToolPc} (h : ∀ b, (s.agents b).Tidy)
    (hphase : (s.agents a).phase = .driving stage tool) (htool : tool.awaitingAny = true)
    (hnext : next ctx s (.step a choice) = some t) : s.childStep a stage choice tool = some t := by
  have hok := (h a).tools
  rw [hphase] at hok
  simp only [next] at hnext
  split at hnext
  · cases hnext
  · simp only [step, hphase] at hnext
    cases stage with
    | running response results =>
        obtain ⟨call, -, hcall⟩ := Option.bind_eq_some_iff.mp hnext
        cases tool with
        | anyFinished | anyTakeRx | anyWait | anyPut | anyAbort | anyStill =>
            simpa only [outsideStep, Option.none_or] using hcall
        | _ => cases htool
    | top | asking | calling | ended =>
        cases tool with
        | idle => cases htool
        | _ => cases hok

theorem FamilyInv.stale_skipped (h : FamilyInv s) (hphase : (s.agents a).phase = .driving stage (.anyStill c))
    (hstale : ∀ child ∈ s.children a, child.id ≠ c) (hnext : next ctx s (.step a choice) = some t) :
    (t.agents a).phase = .driving stage .anyFinished := by
  have hstep := childStep_of_next h.tidy hphase rfl hnext
  have hnone : ((s.children a).any fun child => child.id = c) = false := by
    simpa using hstale
  simp only [childStep, hnone, Bool.false_eq_true, if_false, Option.some.injEq] at hstep
  subst hstep
  exact toTool_phase _ _ _ _

theorem FamilyInv.returned_outstanding (h : FamilyInv s) (hr : ReturnsChild ctx s a c t) :
    (∃ child ∈ s.children a, child.id = c) ∧
      ((s.agents c).signalled = true ∨ (s.agents c).finished = true) := by
  obtain ⟨choice, hnext⟩ := hr.step
  obtain ⟨stage, tool, hphase, htool⟩ := hr.place
  obtain ⟨stage', hchosen⟩ := hr.chosen
  have hstep := childStep_of_next h.tidy hphase htool hnext
  cases tool with
  | anyFinished =>
      simp only [childStep] at hstep
      split at hstep
      · cases hstep
        rw [toTool_phase] at hchosen
        cases hchosen
      · split at hstep
        · rename_i hany
          cases hstep
          rw [toTool_phase] at hchosen
          cases hchosen
          obtain ⟨child, hmem, hid⟩ := List.any_eq_true.mp hany
          rw [List.mem_filter] at hmem
          have hid' : child.id = choice.pick := by simpa using hid
          exact ⟨⟨child, hmem.1, hid'⟩, .inr (hid' ▸ hmem.2)⟩
        · cases hstep
  | anyStill child =>
      have hheard := (h.signals.wired a).heard child (by rw [post_eq, hphase]; rfl)
      rw [post_eq, signalled_post] at hheard
      simp only [childStep] at hstep
      split at hstep
      · rename_i hany
        cases hstep
        rw [toTool_phase] at hchosen
        cases hchosen
        obtain ⟨handle, hmem, hid⟩ := List.any_eq_true.mp hany
        exact ⟨⟨handle, hmem, by simpa using hid⟩, .inl hheard⟩
      · cases hstep
        rw [toTool_phase] at hchosen
        cases hchosen
  | anyTakeRx =>
      simp only [childStep] at hstep
      repeat' split at hstep
      all_goals
        cases hstep
        simp at hchosen
  | anyWait chan =>
      simp only [childStep, Option.some.injEq] at hstep
      subst hstep
      exfalso
      revert hchosen
      refine orAbort_place (P := fun phase => phase ≠ .driving stage' (.collect c)) ?_ ?_
      · intro u reason _
        rw [toTool_phase]
        rintro ⟨⟩
      · intro u hu
        rw [doneReady]
        split
        · rw [toTool_phase]
          rintro ⟨⟩
        · split
          · rw [toTool_phase]
            rintro ⟨⟩
          · rw [pend_phase, hu, hphase]
            rintro ⟨⟩
  | anyPut chan signalled =>
      cases signalled <;>
        cases hstep <;>
        simp at hchosen
  | anyAbort chan reason =>
      cases hstep
      simp at hchosen
  | _ => cases htool

theorem FamilyInv.woken (h : FamilyInv s) {chan : Nat} (hp : ParkedAny s a chan) {child : ChildHandle}
    (hc : child ∈ s.children a) (hfin : (s.agents child.id).finished = true)
    (hnext : next ctx s (.step a choice) = some t) : ¬ ParkedAny t a chan := by
  obtain ⟨pool, -, hchan, hin⟩ := h.unread hp hc hfin
  obtain ⟨⟨stage, hphase⟩, -⟩ := hp
  have hstep := childStep_of_next h.tidy hphase rfl hnext
  have hsameFamily := sameFamily_pollWait (a := a) h.tidy (s.turnWait a) choice.command
  simp only [childStep, Option.some.injEq] at hstep
  subst hstep
  rintro ⟨⟨stage', hparked⟩, -⟩
  rw [orAbort] at hparked
  split at hparked
  · rw [toTool_phase] at hparked
    cases hparked
  · rename_i u heq
    rw [heq] at hsameFamily
    have hchans : u.chans = s.chans := congrArg Family.chans hsameFamily.family
    rw [doneReady] at hparked
    split at hparked
    · rw [toTool_phase] at hparked
      cases hparked
    · rename_i hempty
      rw [hchans, ← hchan] at hempty
      rw [hempty] at hin
      cases hin

/-- In every run: a child that has finished can be read by the agent that waits
for any of its children, so that its next poll ends the wait; an id whose child
is gone is skipped; the receiver is always there to be taken; and the id that
is returned is that of an outstanding child that has signalled or finished. -/
theorem await_any_hears (h : (machine ctx).Reachable s) (a : AgentId) :
    (∀ chan, ParkedAny s a chan → ∀ child ∈ s.children a, (s.agents child.id).finished = true →
      (∃ pool, s.registry a = some pool ∧ pool.chan = chan ∧ child.id ∈ s.chans pool.chan) ∧
        ∀ choice t, next ctx s (.step a choice) = some t → ¬ ParkedAny t a chan) ∧
      (∀ stage c choice t, (s.agents a).phase = .driving stage (.anyStill c) →
        (∀ child ∈ s.children a, child.id ≠ c) → next ctx s (.step a choice) = some t →
        (t.agents a).phase = .driving stage .anyFinished) ∧
      (∀ stage pool, (s.agents a).phase = .driving stage .anyTakeRx → s.registry a = some pool →
        pool.doneRx ≠ none) ∧
      ∀ c t, ReturnsChild ctx s a c t →
        (∃ child ∈ s.children a, child.id = c) ∧
          ((s.agents c).signalled = true ∨ (s.agents c).finished = true) := by
  have hh := familyInv_of_reachable h
  refine ⟨?_, ?_, ?_, ?_⟩
  · intro chan hp child hc hfin
    exact ⟨hh.unread hp hc hfin, fun choice t hnext => hh.woken hp hc hfin hnext⟩
  · intro stage c choice t hphase hstale hnext
    exact hh.stale_skipped hphase hstale hnext
  · intro stage pool hphase hreg
    exact hh.receiver_parked hphase hreg
  · intro c t hr
    exact hh.returned_outstanding hr

def waitsOn : Phase → Option Nat
  | .driving _ (.anyWait chan) => some chan
  | _ => none

theorem exists_wait {phase : Phase} {chan : Nat} (h : waitsOn phase = some chan) :
    ∃ stage, phase = .driving stage (.anyWait chan) := by
  unfold waitsOn at h
  split at h
  · rename_i stage n
    cases h
    exact ⟨stage, rfl⟩
  · cases h

def secondEnds : List Act :=
  prompted ++ spawns 0 ++ spawns 0 ++ calls 0 "AwaitAgent" "agent" "" ++
    [goes 0, goes 0, goes 0, goes 0] ++ ends 2 ++ [goes 2, goes 2, goes 2, goes 2]

theorem await_any_hears_secondEnds :
    ∃ s, (machine familyCtx).Reachable s ∧ ParkedAny s 0 0 ∧ ⟨2, none⟩ ∈ s.children 0 ∧
      (s.agents 2).finished = true ∧ 2 ∈ s.chans 0 := by
  obtain ⟨s, hr, hp⟩ := Machine.exists_of_run (M := machine familyCtx) secondEnds
    (fun s => decide (waitsOn (s.agents 0).phase = some 0) && !(s.agents 0).aborted &&
      decide (⟨2, none⟩ ∈ s.children 0) && (s.agents 2).finished) rfl rfl
  simp only [Bool.and_eq_true, decide_eq_true_eq, Bool.not_eq_true'] at hp
  obtain ⟨⟨⟨hwait, hfree⟩, hmem⟩, hfin⟩ := hp
  have hparked : ParkedAny s 0 0 := ⟨exists_wait hwait, hfree⟩
  obtain ⟨⟨pool, -, hchan, hin⟩, -⟩ := (await_any_hears hr 0).1 0 hparked ⟨2, none⟩ hmem hfin
  rw [hchan] at hin
  exact ⟨s, hr, hparked, hmem, hfin, hin⟩

end Session

end Silo.Harness
