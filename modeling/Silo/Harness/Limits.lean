import Silo.Harness.FamilyRuns
import Silo.Harness.Outlive

namespace Silo.Harness

open Silo.Core Silo.Lib

/-- The handles in the hands of a task, with the one of a child that is about to
be started: its permit is taken already. -/
def Phase.carried : Phase → List ChildHandle
  | .driving _ (.spawnEntry child _ _) => [child]
  | phase => phase.held

theorem carried_ids (phase : Phase) : phase.carried.map ChildHandle.id = phase.post.held := by
  cases hswift : phase.swift with
  | false =>
      rw [← Session.held_ids hswift]
      unfold Phase.carried
      split
      · cases hswift
      · rfl
  | true =>
      unfold Phase.swift at hswift
      split at hswift
      · rfl
      · rfl
      · cases hswift

namespace Session

variable {ctx : SessionCtx} {s t : Session} {a b : AgentId}

/-- The child handles there are: in the pools, and in the hands of the Agent,
AwaitAgent and cancellation calls in progress. -/
def outstanding (s : Session) : Nat :=
  ∑ a ∈ Finset.range s.counter, ((s.children a).length + (s.agents a).phase.carried.length)

theorem outstanding_eq (s : Session) : s.outstanding = s.family.handles.card := by
  have hcounter : s.family.counter = s.counter := rfl
  rw [outstanding, Family.handles, Multiset.card_sum, hcounter]
  apply Finset.sum_congr rfl
  intro a _
  rw [Family.owns, Multiset.card_add, Multiset.coe_card, Multiset.coe_card, family_kids, post_eq, ← carried_ids,
    List.length_map, List.length_map]

structure WithinLimits (s : Session) : Prop where
  concurrent : ∀ subagents : List AgentId, subagents.Nodup →
    (∀ b ∈ subagents, (s.agents b).running = true ∧ (s.agents b).parent ≠ none) →
    subagents.length ≤ maxConcurrentSubagents
  depth : ∀ b, (s.agents b).running = true → (s.agents b).turn.depth ≤ maxSubagentDepth
  permits : s.permits + s.outstanding = maxConcurrentSubagents
  free : ∀ result, (s.agents topLevelAgentId).phase = .returned result →
    s.permits = maxConcurrentSubagents

theorem FamilyInv.permits (h : FamilyInv s) : s.permits + s.outstanding = maxConcurrentSubagents := by
  rw [outstanding_eq]
  exact h.ledger.permits

theorem FamilyInv.attached_mem (h : FamilyInv s) (hb : Attached s b) : b ∈ s.family.handles := by
  obtain ⟨p, child, rfl, hc | hc⟩ := hb
  · have hkid : child.id ∈ s.family.kids p := by
      rw [family_kids]
      exact List.mem_map_of_mem hc
    exact Family.kids_mem_handles (h.ledger.owner_lt (Family.mem_owns_of_kids hkid)) hkid
  · have hheld : child.id ∈ (s.family.post p).held := by
      rw [post_eq, ← carried_ids]
      apply List.mem_map_of_mem
      cases hp : (s.agents p).phase with
      | driving stage tool =>
          rw [hp] at hc
          cases tool with
          | spawnEntry => cases hc
          | _ => exact hc
      | _ =>
          rw [hp] at hc
          exact hc
    exact Family.held_mem_handles (h.ledger.owner_lt (Family.mem_owns_of_held hheld)) hheld

theorem FamilyInv.concurrent (h : FamilyInv s) {subagents : List AgentId} (hnodup : subagents.Nodup)
    (hall : ∀ b ∈ subagents, Attached s b) : subagents.length ≤ maxConcurrentSubagents := by
  have hle : (↑subagents : Multiset Nat) ≤ s.family.handles := by
    apply (Multiset.le_iff_subset (Multiset.coe_nodup.mpr hnodup)).mpr
    intro b hb
    exact h.attached_mem (hall b hb)
  have hcard := Multiset.card_le_card hle
  have hpermits := h.ledger.permits
  rw [Multiset.coe_card] at hcard
  omega

theorem FamilyInv.descendant (h : FamilyInv s) : ∀ b, (s.agents b).phase.post ≠ .unborn → b ≠ topLevelAgentId →
    Descendant s b topLevelAgentId := by
  intro b
  induction b using Nat.strong_induction_on with
  | _ b ih =>
      intro hborn hne
      obtain ⟨p, hparent, hlt, hp⟩ := h.rooted.parent b hborn hne
      by_cases htop : p = topLevelAgentId
      · rw [htop] at hparent
        exact .child hparent
      · exact .further hparent (ih p hlt hp htop)

theorem held_of_not_running {x : Agent} (h : x.running = false) : x.phase.carried = [] := by
  rw [Agent.running] at h
  split at h
  · rename_i heq
    rw [heq]
    rfl
  · rename_i heq
    rw [heq]
    rfl
  · rename_i heq
    rw [heq]
    rfl
  · cases h

theorem carried_of_returned {phase : Phase} (h : phase.life = .returned) : phase.carried = [] := by
  cases phase with
  | driving | cancelling => cases h
  | _ => rfl

theorem FamilyInv.quiet (h : FamilyInv s) (hk : Kept s)
    (hret : (s.agents topLevelAgentId).phase.life = .returned) : s.outstanding = 0 := by
  have hquiet := hk.sound.quiet_of_returned (a := topLevelAgentId) (by rw [life_eq, hret])
  have hempty : ∀ a, s.children a = [] ∧ (s.agents a).phase.carried = [] := by
    intro a
    by_cases hborn : (s.agents a).phase.post = .unborn
    · have hpool : s.children a = [] := by
        have hkids : s.family.kids a = [] := by
          rw [Family.kids, h.ledger.bare a hborn]
          rfl
        rw [family_kids] at hkids
        exact List.map_eq_nil_iff.mp hkids
      have hheld := carried_ids (s.agents a).phase
      rw [hborn] at hheld
      exact ⟨hpool, List.map_eq_nil_iff.mp hheld⟩
    · by_cases htop : a = topLevelAgentId
      · rw [htop]
        exact ⟨List.map_eq_nil_iff.mp hquiet.pool, carried_of_returned hret⟩
      · obtain ⟨hrun, hq⟩ := hk.sound.descendants_gone hquiet (h.descendant a hborn htop).descends
        rw [life_eq, running_life] at hrun
        exact ⟨List.map_eq_nil_iff.mp hq.pool, held_of_not_running hrun⟩
  apply Finset.sum_eq_zero
  intro a _
  rw [(hempty a).1, (hempty a).2]
  rfl

theorem FamilyInv.free (h : FamilyInv s) (hk : Kept s) {result : Except HarnessError TurnOutcome}
    (hret : (s.agents topLevelAgentId).phase = .returned result) : s.permits = maxConcurrentSubagents := by
  have hpermits := h.permits
  rw [h.quiet hk (by rw [hret]; rfl)] at hpermits
  exact hpermits

/-- In every run where no child is aborted with a child handle in its hands and
no aborted task moves one, the limits hold in every state. -/
theorem limits_hold (h : (machine ctx).ReachableUnder (fun s act => s.disciplined act = true) s) :
    WithinLimits s := by
  have hh := familyInv_of_reachable h.reachable
  constructor
  · intro subagents hnodup hall
    apply hh.concurrent hnodup
    intro b hb
    exact (kept_of_reachable h).attached (hall b hb).1 (hall b hb).2
  · intro b _
    exact hh.shallow.depth b
  · exact hh.permits
  · intro result hret
    exact hh.free (kept_of_reachable h) hret

theorem limits_hold_oneChild :
    ∃ s, (machine familyCtx).ReachableUnder (fun s act => s.disciplined act = true) s ∧
      (∃ result, (s.agents topLevelAgentId).phase = .returned result) ∧ (s.agents 1).parent = some 0 ∧
      s.permits = maxConcurrentSubagents := by
  obtain ⟨s, hr, hp⟩ := Machine.exists_of_runChecked (M := machine familyCtx) disciplined oneChild
    (fun s => isReturned (s.agents topLevelAgentId).phase && decide ((s.agents 1).parent = some 0)) rfl
    (rfl)
  rw [Bool.and_eq_true, decide_eq_true_eq] at hp
  obtain ⟨result, hphase⟩ := exists_returned hp.1
  exact ⟨s, hr, ⟨result, hphase⟩, hp.2, (limits_hold hr).free result hphase⟩

/-- The turn that leaves a grandchild running is over, and the next one starts
as many children as there are permits. -/
def eightMore : List Act :=
  awaitedGrandchild ++ [goes 0] ++ prompted ++ (List.replicate maxConcurrentSubagents (spawns 0)).flatten

theorem orphan_exceeds_limit : ∃ s, (machine familyCtx).Reachable s ∧ ¬ WithinLimits s := by
  obtain ⟨s, hr, hp⟩ := Machine.exists_of_run (M := machine familyCtx) eightMore
    (fun s => (List.range' 2 9).all fun b => (s.agents b).running && (s.agents b).parent.isSome) rfl
    (by decide +kernel)
  refine ⟨s, hr, ?_⟩
  intro hlimits
  have hle := hlimits.concurrent (List.range' 2 9) List.nodup_range' ?_
  · exact absurd hle (by decide)
  · intro b hb
    have hb' := List.all_eq_true.mp hp b hb
    rw [Bool.and_eq_true] at hb'
    exact ⟨hb'.1, Option.isSome_iff_ne_none.mp hb'.2⟩

end Session

end Silo.Harness
