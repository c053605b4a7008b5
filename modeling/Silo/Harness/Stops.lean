import Mathlib.Algebra.Order.BigOperators.Group.Finset
import Silo.Lib.Fair
import Silo.Harness.TimelyRuns

namespace Silo.Harness

open Silo.Core Silo.Lib

namespace Session

variable {ctx : SessionCtx} {s t : Session} {a b : AgentId} {g : Nat}

/-- Every turn whose snapshot is at most `g` is to stop. -/
def Ripe (s : Session) (g : Nat) : Prop := s.signal.state.isSome = true ∨ g < s.signal.interrupts

theorem Ripe.due (h : s.Ripe g) (hb : s.generation b ≤ g) : s.Due b :=
  h.imp id fun hlt => Nat.lt_of_le_of_lt hb hlt

theorem Ripe.grows (h : s.Ripe g) (hg : s.signal.Grows t.signal) : t.Ripe g :=
  h.imp (isSome_of_grows hg) fun hlt => Nat.lt_of_lt_of_le hlt hg.interrupts

def share (s : Session) (g : Nat) (b : AgentId) : Nat := if s.generation b ≤ g then s.weight b else 0

/-- What is left to do for the turns whose snapshot is at most `g`. -/
def burden (s : Session) (g : Nat) : Nat := ∑ b ∈ Finset.range s.counter, s.share g b

theorem weight_of_unborn (h : s.AgentOk b) (hb : (s.agents b).phase = .unborn) : s.weight b = 0 := by
  have hreg := h.phase
  rw [hb] at hreg
  rw [weight, hb, hreg]
  rfl

theorem StaysPut.weight_le (h : StaysPut s t b) : t.weight b ≤ s.weight b := by
  rw [weight, weight, h.phase]
  rcases h.pool with heq | ⟨hnone, -⟩
  · rw [heq]
  · rw [hnone]
    exact Nat.le_add_right _ _

theorem StaysPut.share_le (h : StaysPut s t b) : t.share g b ≤ s.share g b := by
  rw [share, share, h.generation]
  split
  · exact h.weight_le
  · exact Nat.le_refl _

theorem share_congr (hphase : (t.agents b).phase = (s.agents b).phase)
    (hgen : t.generation b = s.generation b) (hreg : t.registry b = s.registry b) :
    t.share g b = s.share g b := by
  rw [share, share, weight, weight, hphase, hgen, hreg]

theorem Newborn.share_eq (h : Newborn t b) (hr : t.Ripe g) : t.share g b = 0 := by
  rw [share, if_neg]
  exact fun hle => h.undue (hr.due hle)

theorem TaskStep.share_le {answer : Answer} (h : TaskStep s t a answer) (hr : t.Ripe g) (hb : b ≠ a) :
    t.share g b ≤ s.share g b := by
  by_cases hborn : (s.agents b).phase = .unborn
  · rcases h.unborn b hb hborn with hbs | ⟨hnew, -⟩
    · exact hbs.share_le
    · rw [hnew.share_eq hr]
      exact Nat.zero_le _
  · exact (h.staysPut b hb hborn).share_le

theorem burden_eq {n : Nat} (hn : n ≤ t.counter)
    (hzero : ∀ b, n ≤ b → b < t.counter → t.share g b = 0) :
    t.burden g = ∑ b ∈ Finset.range n, t.share g b := by
  symm
  apply Finset.sum_subset (Finset.range_subset_range.mpr hn)
  intro b hb hnb
  rw [Finset.mem_range] at hb hnb
  exact hzero b (Nat.not_lt.mp hnb) hb

theorem TaskStep.burden_eq {answer : Answer} (hs : s.Timely) (h : TaskStep s t a answer)
    (hlt : a < s.counter) (hr : t.Ripe g) :
    t.burden g = ∑ b ∈ Finset.range s.counter, t.share g b := by
  apply Session.burden_eq h.evolves.counter
  intro b hb _
  have hunborn := hs.fresh b hb
  have hle := h.share_le hr (Nat.ne_of_gt (Nat.lt_of_lt_of_le hlt hb))
  have hzero : s.share g b = 0 := by
    rw [share, weight_of_unborn (hs.ok b) hunborn]
    split <;> rfl
  omega

theorem share_le_of_weight (hgen : s.generation a ≤ t.generation a) (hw : t.weight a ≤ s.weight a) :
    t.share g a ≤ s.share g a := by
  rw [share, share]
  split
  · rw [if_pos (Nat.le_trans hgen ‹_›)]
    exact hw
  · exact Nat.zero_le _

theorem share_lt_of_weight (hgen : s.generation a ≤ g) (hw : t.weight a < s.weight a) :
    t.share g a < s.share g a := by
  rw [share, share, if_pos hgen]
  split
  · exact hw
  · exact Nat.lt_of_le_of_lt (Nat.zero_le _) hw

theorem sum_lt_of_pair {f f' : Nat → Nat} {n e : Nat} (ha : a < n) (he : e < n) (hne : e ≠ a)
    (hpair : f' a + f' e < f a + f e) (hle : ∀ b, b < n → b ≠ a → b ≠ e → f' b ≤ f b) :
    ∑ b ∈ Finset.range n, f' b < ∑ b ∈ Finset.range n, f b := by
  have hmem : a ∈ Finset.range n := Finset.mem_range.mpr ha
  have hmem' : e ∈ (Finset.range n).erase a := Finset.mem_erase.mpr ⟨hne, Finset.mem_range.mpr he⟩
  have hrest : ∑ b ∈ ((Finset.range n).erase a).erase e, f' b ≤
      ∑ b ∈ ((Finset.range n).erase a).erase e, f b := by
    refine Finset.sum_le_sum fun b hb => ?_
    obtain ⟨hbe, hb⟩ := Finset.mem_erase.mp hb
    obtain ⟨hba, hb⟩ := Finset.mem_erase.mp hb
    exact hle b (Finset.mem_range.mp hb) hba hbe
  rw [← Finset.add_sum_erase _ f' hmem, ← Finset.add_sum_erase _ f hmem,
    ← Finset.add_sum_erase _ f' hmem', ← Finset.add_sum_erase _ f hmem']
  omega

def Productive (s t : Session) (a : AgentId) (answer : Answer) : Prop :=
  (s.agents a).phase.inTurn = true ∧ ((t.agents a).phase ≠ (s.agents a).phase ∨
    ((s.agents a).phase.fits answer = true ∧
      ∀ c, (s.agents a).phase.joining = some c → (s.agents c).finished = true))

section Burden

variable {answer : Answer} (hs : s.Timely) (h : TaskStep s t a answer) (hlt : a < s.counter) (hr : s.Ripe g)

include hs h hlt hr

theorem TaskStep.burden_le_of_share (ha : t.share g a ≤ s.share g a) : t.burden g ≤ s.burden g := by
  have hrt := hr.grows h.evolves.grows
  rw [h.burden_eq hs hlt hrt, burden]
  refine Finset.sum_le_sum fun b _ => ?_
  by_cases hba : b = a
  · rw [hba]
    exact ha
  · exact h.share_le hrt hba

theorem TaskStep.burden_lt_of_share (ha : t.share g a < s.share g a) : t.burden g < s.burden g := by
  have hrt := hr.grows h.evolves.grows
  rw [h.burden_eq hs hlt hrt, burden]
  refine Finset.sum_lt_sum (fun b _ => ?_) ⟨a, Finset.mem_range.mpr hlt, ha⟩
  by_cases hba : b = a
  · rw [hba]
    exact Nat.le_of_lt ha
  · exact h.share_le hrt hba

theorem TaskStep.burden_lt_of_entered {e : AgentId} (hgen : s.generation a ≤ g) (hkin : s.Kin a e)
    (hw : t.weight a + t.weight e < s.weight a + s.weight e) : t.burden g < s.burden g := by
  have hrt := hr.grows h.evolves.grows
  have he : e < s.counter := by
    by_contra hge
    exact hkin.born (hs.fresh e (Nat.not_lt.mp hge))
  have hshare : ∀ b, t.share g b ≤ t.weight b := by
    intro b
    rw [share]
    split
    · exact Nat.le_refl _
    · exact Nat.zero_le _
  rw [h.burden_eq hs hlt hrt, burden]
  refine sum_lt_of_pair hlt he (Nat.ne_of_gt hkin.younger) ?_ fun b _ hba _ => h.share_le hrt hba
  have ha' : s.share g a = s.weight a := if_pos hgen
  have he' : s.share g e = s.weight e := if_pos (Nat.le_trans hkin.generation hgen)
  have hta := hshare a
  have hte := hshare e
  rw [ha', he']
  exact Nat.lt_of_le_of_lt (Nat.add_le_add hta hte) hw

theorem TaskStep.share_zero (hgen : g < t.generation a) : t.burden g ≤ s.burden g := by
  apply h.burden_le_of_share hs hlt hr
  rw [share, if_neg (Nat.not_le.mpr hgen)]
  exact Nat.zero_le _

theorem TaskStep.burden_le : t.burden g ≤ s.burden g := by
  have hrt := hr.grows h.evolves.grows
  cases h.effort with
  | idle phase pool _ =>
      refine h.burden_le_of_share hs hlt hr (share_le_of_weight h.later ?_)
      rw [weight, weight, phase, pool]
  | between _ hw => exact h.burden_le_of_share hs hlt hr (share_le_of_weight h.later hw)
  | free hundue =>
      apply h.share_zero hs hlt hr
      by_contra hle
      exact hundue (hrt.due (Nat.not_lt.mp hle))
  | lighter hw => exact h.burden_le_of_share hs hlt hr (share_le_of_weight h.later (Nat.le_of_lt hw))
  | entered hkin hw =>
      by_cases hgen : s.generation a ≤ g
      · exact Nat.le_of_lt (h.burden_lt_of_entered hs hlt hr hgen hkin hw)
      · exact h.share_zero hs hlt hr (Nat.lt_of_lt_of_le (Nat.not_le.mp hgen) h.later)

theorem TaskStep.burden_lt (hgen : s.generation a ≤ g) (hp : Productive s t a answer) :
    t.burden g < s.burden g := by
  have hrt := hr.grows h.evolves.grows
  have hdue : t.Due a := hrt.due (by rw [h.sameTurn hp.1]; exact hgen)
  cases h.effort with
  | idle phase pool hexcuse =>
      rcases hp.2 with hne | ⟨hfits, hjoin⟩
      · exact absurd phase hne
      · rcases hexcuse hp.1 with hundue | hno | ⟨c, hc, hfin⟩
        · exact absurd hdue hundue
        · rw [hfits] at hno
          cases hno
        · rw [hjoin c hc] at hfin
          cases hfin
  | between hout _ =>
      rw [hp.1] at hout
      cases hout
  | free hundue => exact absurd hdue hundue
  | lighter hw => exact h.burden_lt_of_share hs hlt hr (share_lt_of_weight hgen hw)
  | entered hkin hw => exact h.burden_lt_of_entered hs hlt hr hgen hkin hw

end Burden

theorem burden_pend : (s.pend a).burden g = s.burden g := by
  refine Finset.sum_congr rfl fun b _ => ?_
  by_cases hb : b = a
  · subst hb
    exact share_congr (by simp) (by simp [generation, pend, setAgent]) rfl
  · have heq : (s.pend a).agents b = s.agents b := by simp [pend, setAgent, hb]
    exact share_congr (by rw [heq]) (by rw [generation, heq, generation]) rfl

theorem share_of_dropTask (hb : b ≠ a) : (s.dropTask a).share g b = s.share g b := by
  have heq : (s.dropTask a).agents b = s.agents b := by simp [dropTask, setAgent, hb]
  exact share_congr (by rw [heq]) (by rw [generation, heq, generation]) rfl

theorem weight_dropTask : (s.dropTask a).weight a + (s.agents a).phase.cost = s.weight a := by
  simp [weight, dropTask, setAgent, Phase.cost, Nat.add_comm]

theorem share_dropTask_le : (s.dropTask a).share g a ≤ s.share g a := by
  have hgen : (s.dropTask a).generation a = s.generation a := by simp [generation, dropTask, setAgent]
  apply share_le_of_weight (Nat.le_of_eq hgen.symm)
  rw [← weight_dropTask (s := s)]
  exact Nat.le_add_right _ _

theorem burden_dropTask_le : (s.dropTask a).burden g ≤ s.burden g := by
  refine Finset.sum_le_sum fun b _ => ?_
  by_cases hb : b = a
  · rw [hb]
    exact share_dropTask_le
  · exact Nat.le_of_eq (share_of_dropTask hb)

theorem burden_dropTask_lt (ha : a < s.counter) (hgen : s.generation a ≤ g)
    (hcost : 0 < (s.agents a).phase.cost) : (s.dropTask a).burden g < s.burden g := by
  refine Finset.sum_lt_sum (fun b _ => ?_) ⟨a, Finset.mem_range.mpr ha, share_lt_of_weight hgen ?_⟩
  · by_cases hb : b = a
    · rw [hb]
      exact share_dropTask_le
    · exact Nat.le_of_eq (share_of_dropTask hb)
  · rw [← weight_dropTask (s := s)]
    exact Nat.lt_add_of_pos_right hcost

end Session

end Silo.Harness
