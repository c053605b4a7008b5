import Silo.Harness.FamilyRuns
import Silo.Harness.Outlive

namespace Silo.Harness

open Silo.Core Silo.Lib

def Record.spawned : Record → Option AgentId
  | .event (.agentSpawned _ child _ _) => some child
  | _ => none

def Record.completionOf (c : AgentId) : Record → Option Report
  | .event (.agentCompleted child text isError) => if child = c then some (text, isError) else none
  | _ => none

namespace Session

variable {ctx : SessionCtx} {s t : Session} {a c : AgentId} {choice : Choice}

def spawnedIds (s : Session) : List AgentId := s.log.filterMap Record.spawned

/-- What the AgentCompleted events say of `c`, in order. -/
def completions (s : Session) (c : AgentId) : List Report := s.log.filterMap (Record.completionOf c)

theorem spawnedIds_eq (s : Session) : s.spawnedIds = s.family.spawnedIds := by
  rw [spawnedIds, Family.spawnedIds, family, List.filterMap_filterMap]
  congr 1
  funext r
  cases r with
  | journal entry => rfl
  | event payload => cases payload <;> rfl

theorem completions_eq (s : Session) (c : AgentId) : s.completions c = s.family.reports c := by
  rw [completions, Family.reports, family, List.filterMap_filterMap]
  congr 1
  funext r
  cases r with
  | journal entry => rfl
  | event payload => cases payload <;> rfl

theorem FamilyInv.told (h : FamilyInv s) (c : AgentId) :
    (s.agents c).phase.post.Told (s.agents c).emitted (s.completions c) := by
  rw [completions_eq]
  exact h.reported.told c

theorem FamilyInv.completions_le (h : FamilyInv s) (c : AgentId) : (s.completions c).length ≤ 1 := by
  have ht := h.told c
  generalize (s.agents c).phase.post = p at ht
  generalize (s.agents c).emitted = e at ht
  cases p with
  | finishing | completed =>
      rw [ht.2]
      exact Nat.le_refl 1
  | dropped =>
      cases e with
      | true =>
          obtain ⟨r, hr⟩ := ht
          rw [hr]
          exact Nat.le_refl 1
      | false =>
          rw [Post.Told] at ht
          rw [ht]
          exact Nat.zero_le 1
  | _ =>
      rw [ht.2]
      exact Nat.zero_le 1

theorem FamilyInv.completions_one (h : FamilyInv s) (hfin : (s.agents c).finished = true)
    (hem : (s.agents c).emitted = true) : (s.completions c).length = 1 := by
  have ht := h.told c
  rw [hem] at ht
  rw [← finished_post] at hfin
  generalize (s.agents c).phase.post = p at ht hfin
  cases p with
  | completed =>
      rw [ht.2]
      rfl
  | dropped =>
      obtain ⟨r, hr⟩ := ht
      rw [hr]
      rfl
  | _ => cases hfin

theorem FamilyInv.completed_first (h : FamilyInv s) {before after : List Record} {text : String} {isError : Bool}
    (hlog : s.log = before ++ .event (.agentCompleted c text isError) :: after) :
    ∃ parent name prompt, .event (.agentSpawned parent c name prompt) ∈ before := by
  have hmarks : s.family.marks = before.filterMap Record.mark ++
      .completed c (text, isError) :: after.filterMap Record.mark := by
    simp only [family, hlog, List.filterMap_append]
    rfl
  obtain ⟨r, hr, hmark⟩ := List.mem_filterMap.mp (h.reported.ordered _ _ c _ hmarks)
  cases r with
  | journal entry => cases hmark
  | event payload =>
      cases payload with
      | agentSpawned parent child name prompt =>
          cases hmark
          exact ⟨parent, name, prompt, hr⟩
      | _ => cases hmark

theorem join_done {stage stage' : Stage} {child : ChildHandle}
    {result : Except HarnessError ToolDisposition} (h : ∀ b, (s.agents b).Tidy)
    (hphase : (s.agents a).phase = .driving stage (.join child)) (hstep : s.step ctx a choice = some t)
    (hdone : (t.agents a).phase = .driving stage' (.done result)) :
    t.family = { s.family with permits := s.family.permits + 1 }.setPost a (ToolPc.done result).post ∧
      ((∃ r, (s.agents child.id).phase = .completed r ∧ result = .ok (collected child r)) ∨
        (s.agents child.id).phase = .dropped) := by
  have hok := (h a).tools
  rw [hphase] at hok
  cases stage with
  | running response results =>
      have hsame := same_pollWait s a (s.turnWait a) choice.command
      have hsameFamily := sameFamily_pollWait (a := a) h (s.turnWait a) choice.command
      simp only [step, hphase, driveStep] at hstep
      obtain ⟨call, -, hcall⟩ := Option.bind_eq_some_iff.mp hstep
      simp only [outsideStep, Option.none_or, childStep, Option.some.injEq] at hcall
      subst hcall
      unfold orAbort at hdone ⊢
      split at hdone
      · rw [toTool_phase] at hdone
        cases hdone
      · rename_i u heq
        rw [heq] at hsame hsameFamily
        have hfreed : ∀ result, Session.family ({ u.dropWait a with permits := u.permits + 1 }.toolEnds a
            (.running response results) result) =
            { s.family with permits := s.family.permits + 1 }.setPost a (ToolPc.done result).post := by
          intro result
          rw [toolEnds, toTool, family_goto, ← hsameFamily.family, ← (sameFamily_dropWait (a := a) hsameFamily.tidy).family]
          rfl
        unfold joinReady at hdone ⊢
        simp only at hdone ⊢
        split at hdone
        · rename_i r hr
          rw [toolEnds_phase] at hdone
          cases hdone
          exact ⟨hfreed _, .inl ⟨r, (hsame.phase child.id).symm.trans hr, rfl⟩⟩
        · rename_i display hr _
          rw [toolEnds_phase] at hdone
          cases hdone
          exact ⟨hfreed _, .inr ((hsame.phase child.id).symm.trans hr)⟩
        · rw [pend_phase, hsame.phase, hphase] at hdone
          cases hdone
  | top | asking | calling | ended => cases hok

/-- An AwaitAgent call of `a` returns, having collected `child`. -/
structure Collects (ctx : SessionCtx) (s : Session) (a : AgentId) (child : ChildHandle)
    (result : Except HarnessError ToolDisposition) (t : Session) : Prop where
  step : ∃ choice, next ctx s (.step a choice) = some t
  join : ∃ stage, (s.agents a).phase = .driving stage (.join child)
  done : ∃ stage, (t.agents a).phase = .driving stage (.done result)

theorem FamilyInv.collected (h : FamilyInv s) {child : ChildHandle} {result : Except HarnessError ToolDisposition}
    (hc : Collects ctx s a child result t) :
    t.family = { s.family with permits := s.family.permits + 1 }.setPost a (ToolPc.done result).post ∧
      ∃ r, (s.agents child.id).phase = .completed r ∧ result = .ok (collected child r) := by
  obtain ⟨choice, hnext⟩ := hc.step
  obtain ⟨stage, hjoin⟩ := hc.join
  obtain ⟨stage', hdone⟩ := hc.done
  simp only [next] at hnext
  split at hnext
  · cases hnext
  · obtain ⟨hfam, hcompleted | hdropped⟩ := join_done h.tidy hjoin hnext hdone
    · exact ⟨hfam, hcompleted⟩
    · -- a task is dropped only after an abort, and nobody aborts what is being joined
      have hpost : s.family.post a = .joining child.id := by
        rw [post_eq, hjoin]
        rfl
      have hloose : s.family.Loose child.id := ⟨a, .inr (by rw [hpost]; exact List.mem_singleton_self _)⟩
      have hfree := (h.ledger.loose child.id hloose).1
      have hfelled := (h.signals.wired child.id).felled (by rw [post_eq, hdropped]; rfl)
      rw [hfree] at hfelled
      cases hfelled

theorem FamilyInv.completions_next {act : Act} (h : FamilyInv s) (hnext : next ctx s act = some t) (c : AgentId) :
    s.completions c <+: t.completions c := by
  rw [completions_eq, completions_eq]
  rcases (familyStep_next h.tidy hnext).family with heq | hstep
  · rw [heq]
  · exact Family.reports_step hstep c

theorem FamilyInv.collected_report (h : FamilyInv s) {child : ChildHandle}
    {result : Except HarnessError ToolDisposition} (hc : Collects ctx s a child result t) :
    ∃ r, result = .ok (Session.collected child r) ∧ t.completions child.id = [r.report] := by
  obtain ⟨-, r, hphase, hresult⟩ := h.collected hc
  obtain ⟨choice, hnext⟩ := hc.step
  have htold := h.told child.id
  rw [hphase] at htold
  have hgrows := h.completions_next hnext child.id
  rw [htold.2] at hgrows
  refine ⟨r, hresult, ?_⟩
  have hle := (familyInv_next h hnext).completions_le child.id
  exact (hgrows.eq_of_length (Nat.le_antisymm hgrows.length_le hle)).symm

/-- The child is in the hands of a cancellation, or its end has been announced. -/
def Settling (s : Session) (a c : AgentId) : Prop :=
  (∃ e frames, s.family.post a = .walking e frames ∧ c ∈ (s.family.post a).held) ∨
    (s.completions c).length = 1 ∨ s.family.post a = .dropped

theorem FamilyInv.settling_next {act : Act} (h : FamilyInv s) (hs : Settling s a c)
    (hnext : next ctx s act = some t) : Settling t a c := by
  have ht := familyInv_next h hnext
  rcases hs with ⟨e, frames, hwalk, hheld⟩ | hone | hdropped
  · rcases (familyStep_next h.tidy hnext).family with heq | hstep
    · rw [Settling, heq]
      exact .inl ⟨e, frames, hwalk, hheld⟩
    · rcases h.ledger.walks hstep hwalk hheld with hstill | ⟨hfin, hem⟩ | hdropped
      · exact .inl hstill
      · refine .inr (.inl (ht.completions_one ?_ hem))
        rw [← finished_post]
        exact hfin
      · exact .inr (.inr hdropped)
  · have hle := ht.completions_le c
    have hge := (h.completions_next hnext c).length_le
    exact .inr (.inl (by omega))
  · refine .inr (.inr ?_)
    rcases (familyStep_next h.tidy hnext).family with heq | hstep
    · rw [heq]
      exact hdropped
    · rw [h.ledger.finished_stays hstep (by rw [hdropped]; rfl)]
      exact hdropped

theorem FamilyInv.cancelled_once (h : FamilyInv s) {result result' : Except HarnessError TurnOutcome} {walk : Walk}
    {child : ChildHandle} (hphase : (s.agents a).phase = .cancelling result walk)
    (hheld : child ∈ (s.agents a).phase.held) (hrun : (machine ctx).RunsTo (fun _ _ => True) s t)
    (hret : (t.agents a).phase = .returned result') : (t.completions child.id).length = 1 := by
  have hids : child.id ∈ (s.family.post a).held := by
    rw [post_eq, ← held_ids (by rw [hphase]; rfl)]
    exact List.mem_map_of_mem hheld
  have hpost : s.family.post a = .walking walk.entering (walk.frames.map Frame.ids) := by
    rw [post_eq, hphase]
    rfl
  have hend : FamilyInv t ∧ Settling t a child.id := by
    refine hrun.invariant (I := fun u => FamilyInv u ∧ Settling u a child.id) ?_
      ⟨h, .inl ⟨_, _, hpost, hids⟩⟩
    intro u w act hu _ hnext
    exact ⟨familyInv_next hu.1 hnext, hu.1.settling_next hu.2 hnext⟩
  have hback : t.family.post a = .returned := by
    rw [post_eq, hret]
    rfl
  rcases hend.2 with ⟨e, frames, hwalk, -⟩ | hone | hdropped
  · rw [hback] at hwalk
    cases hwalk
  · exact hone
  · rw [hback] at hdropped
    cases hdropped

/-- The handle of `c` has been given up. -/
def Spent (s : Session) (c : AgentId) : Prop := c < s.counter ∧ c ∉ s.family.handles

theorem FamilyInv.spent_next {act : Act} (h : FamilyInv s) (hc : Spent s c) (hnext : next ctx s act = some t) :
    Spent t c := by
  rcases (familyStep_next h.tidy hnext).family with heq | hstep
  · have hcounter : t.counter = s.counter := congrArg Family.counter heq
    rw [Spent, heq, hcounter]
    exact hc
  · exact h.ledger.gone_step hstep hc.1 hc.2

theorem FamilyInv.joins_handle (h : FamilyInv s) {child : ChildHandle} {stage : Stage}
    (hjoin : (s.agents a).phase = .driving stage (.join child)) :
    a < s.counter ∧ s.family.post a = .joining child.id ∧ child.id ∈ s.family.handles := by
  have hpost : s.family.post a = .joining child.id := by
    rw [post_eq, hjoin]
    rfl
  have ha := h.ledger.lt (a := a) (by rw [hpost]; exact nofun)
  exact ⟨ha, hpost, Family.held_mem_handles ha (by rw [hpost]; exact List.mem_singleton_self _)⟩

theorem FamilyInv.spent_of_collects (h : FamilyInv s) {child : ChildHandle}
    {result : Except HarnessError ToolDisposition} (hc : Collects ctx s a child result t) :
    Spent t child.id := by
  obtain ⟨stage, hjoin⟩ := hc.join
  obtain ⟨ha, hpost, hmem⟩ := h.joins_handle hjoin
  obtain ⟨hfam, -⟩ := h.collected hc
  have hcounter : t.counter = s.counter := congrArg Family.counter hfam
  have hheld : (ToolPc.done result).post.held = [] := by
    rcases post_done result with heq | heq <;> rw [heq] <;> rfl
  have hhandles : t.family.handles + {child.id} = s.family.handles := by
    have hset := Family.handles_setPost (v := { s.family with permits := s.family.permits + 1 }) (a := a)
      ha (ToolPc.done result).post
    rw [← hfam, hheld] at hset
    simp only [hpost, Post.held, Multiset.coe_nil, add_zero] at hset
    exact hset
  refine ⟨?_, ?_⟩
  · rw [hcounter]
    exact (h.ledger.below _ hmem).2
  · intro hin
    have hnodup := h.ledger.nodup
    rw [← hhandles, Multiset.nodup_add] at hnodup
    exact Multiset.disjoint_left.mp hnodup.2.2 hin (Multiset.mem_singleton_self _)

theorem FamilyInv.not_collected_again (h : FamilyInv s) {b : AgentId} {child child' : ChildHandle} {u w : Session}
    {result result' : Except HarnessError ToolDisposition} (hc : Collects ctx s a child result t)
    (hrun : (machine ctx).RunsTo (fun _ _ => True) t u) (hc' : Collects ctx u b child' result' w) :
    child'.id ≠ child.id := by
  obtain ⟨choice, hnext⟩ := hc.step
  have hspent : FamilyInv u ∧ Spent u child.id := by
    refine hrun.invariant (I := fun u => FamilyInv u ∧ Spent u child.id) ?_
      ⟨familyInv_next h hnext, h.spent_of_collects hc⟩
    intro u w act hu _ hnext
    exact ⟨familyInv_next hu.1 hnext, hu.1.spent_next hu.2 hnext⟩
  obtain ⟨stage, hjoin⟩ := hc'.join
  intro heq
  apply hspent.2.2
  rw [← heq]
  exact (hspent.1.joins_handle hjoin).2.2

theorem FamilyInv.spawnedIds_nodup (h : FamilyInv s) : s.spawnedIds.Nodup := by
  rw [spawnedIds_eq, h.reported.spawned]
  exact List.nodup_range'

theorem collected_output {child : ChildHandle} {r : ChildResult} {owner : String} {output : ToolOutput}
    (h : collected child r = .output owner output) :
    output = ⟨"Subagent '" ++ child.name.getD (agentName child.id) ++ "' (" ++ agentName child.id ++
      ") finished.\n" ++ r.output, r.isError⟩ := by
  rw [collected] at h
  split at h
  · cases h
  · split at h
    · cases h
    · cases h
      rfl

/-- In every run: no two subagents are announced under one id, and the end of
one at most once and after its start; once by the time an AwaitAgent call
returns with it, with the text and the flag of the report, and once by the time
a cancellation that has its handle is over; and none is collected twice. -/
theorem subagents_complete_once (h : (machine ctx).Reachable s) :
    s.spawnedIds.Nodup ∧
      (∀ c, (s.completions c).length ≤ 1) ∧
      (∀ before after c text isError,
        s.log = before ++ .event (.agentCompleted c text isError) :: after →
        ∃ parent name prompt, .event (.agentSpawned parent c name prompt) ∈ before) ∧
      (∀ a child result t, Collects ctx s a child result t →
        ∃ r : ChildResult, result = .ok (collected child r) ∧
          t.completions child.id = [(r.output, r.isError)] ∧
          ∀ owner output, result = .ok (.output owner output) →
            output = ⟨"Subagent '" ++ child.name.getD (agentName child.id) ++ "' (" ++ agentName child.id ++
              ") finished.\n" ++ r.output, r.isError⟩) ∧
      (∀ a result walk, ∀ child ∈ (s.agents a).phase.held, ∀ t result',
        (s.agents a).phase = .cancelling result walk → (machine ctx).RunsTo (fun _ _ => True) s t →
        (t.agents a).phase = .returned result' → (t.completions child.id).length = 1) ∧
      ∀ a child result t u b child' result' w, Collects ctx s a child result t →
        (machine ctx).RunsTo (fun _ _ => True) t u → Collects ctx u b child' result' w →
        child'.id ≠ child.id := by
  have hh := familyInv_of_reachable h
  refine ⟨hh.spawnedIds_nodup, hh.completions_le, ?_, ?_, ?_, ?_⟩
  · intro before after c text isError hlog
    exact hh.completed_first hlog
  · intro a child result t hc
    obtain ⟨r, hresult, hcompletions⟩ := hh.collected_report hc
    refine ⟨r, hresult, hcompletions, ?_⟩
    intro owner output hout
    rw [hresult] at hout
    exact collected_output (Except.ok.inj hout)
  · intro a result walk child hheld t result' hphase hrun hret
    exact hh.cancelled_once hphase hheld hrun hret
  · intro a child result t u b child' result' w hc hrun hc'
    exact hh.not_collected_again hc hrun hc'

def joinedChild : Phase → Option ChildHandle
  | .driving _ (.join child) => some child
  | _ => none

theorem exists_join {phase : Phase} {child : ChildHandle} (h : joinedChild phase = some child) :
    ∃ stage, phase = .driving stage (.join child) := by
  unfold joinedChild at h
  split at h
  · rename_i stage c
    cases h
    exact ⟨stage, rfl⟩
  · cases h

def toolDone : Phase → Bool
  | .driving _ (.done _) => true
  | _ => false

theorem exists_done {phase : Phase} (h : toolDone phase = true) :
    ∃ result stage, phase = .driving stage (.done result) := by
  unfold toolDone at h
  split at h
  · rename_i stage result
    exact ⟨result, stage, rfl⟩
  · cases h

def awaitedChild : List Act :=
  prompted ++ spawns 0 ++ ends 1 ++ [goes 1, goes 1, goes 1, goes 1] ++
    calls 0 "AwaitAgent" "agent" "agent-1" ++ [goes 0, goes 0]

theorem subagents_complete_once_awaitedChild :
    ∃ s t result, (machine familyCtx).Reachable s ∧ Collects familyCtx s 0 ⟨1, none⟩ result t ∧
      ∃ r : ChildResult, result = .ok (collected ⟨1, none⟩ r) ∧ t.completions 1 = [(r.output, r.isError)] := by
  obtain ⟨s, hr, hp⟩ := Machine.exists_of_run (M := machine familyCtx) awaitedChild
    (fun s => decide (joinedChild (s.agents 0).phase = some ⟨1, none⟩) &&
      (next familyCtx s (goes 0)).any fun t => toolDone (t.agents 0).phase) rfl rfl
  rw [Bool.and_eq_true, decide_eq_true_eq] at hp
  obtain ⟨t, ht, hdone⟩ := (Option.any_eq_true ..).mp hp.2
  obtain ⟨result, hstage⟩ := exists_done hdone
  have hc : Collects familyCtx s 0 ⟨1, none⟩ result t := ⟨⟨_, ht⟩, exists_join hp.1, hstage⟩
  obtain ⟨r, hresult, hcompletions, -⟩ := (subagents_complete_once hr).2.2.2.1 0 ⟨1, none⟩ result t hc
  exact ⟨s, t, result, hr, hc, r, hresult, hcompletions⟩

end Session

end Silo.Harness
