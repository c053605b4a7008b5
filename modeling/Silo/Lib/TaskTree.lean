import Mathlib.Data.List.Basic
import Mathlib.Logic.Function.Basic

namespace Silo.Lib.TaskTree

variable {ι : Type}

/-- One level of a cancellation walk: the children of `owner` still to cancel,
and the one that has been aborted and not yet joined. -/
structure Frame (ι : Type) where
  owner : ι
  rest : List ι
  current : Option ι

def Frame.handles (f : Frame ι) : List ι := f.rest ++ f.current.toList

/-- The life of a task: open to new children, with at most one handle out of
its pool; walking over its descendants to cancel them; returned; gone. -/
inductive Life (ι : Type)
  | unborn
  | accepting (held : Option ι)
  | walking (entering : Option ι) (frames : List (Frame ι))
  | returned
  | gone

namespace Life

def held : Life ι → Option ι
  | .accepting held => held
  | _ => none

def entering : Life ι → Option ι
  | .walking entering _ => entering
  | _ => none

def frames : Life ι → List (Frame ι)
  | .walking _ frames => frames
  | _ => []

def running : Life ι → Bool
  | .unborn | .gone => false
  | _ => true

def Before (a : ι) (l : Life ι) : Prop := (∃ h, l = .accepting h) ∨ l = .walking (some a) []

def Released (l : Life ι) : Prop := l.held = none ∧ l.frames = []

end Life

/-- The walk of the task has the handle of `b`, a child of `p`. -/
def Life.Carries (l : Life ι) (b p : ι) : Prop := ∃ f ∈ l.frames, f.owner = p ∧ b ∈ f.handles

/-- Every frame but the walk's own is there for the child that a frame below it
has in its hands. -/
def Chain (t : ι) : List (Frame ι) → Prop
  | [] => True
  | f :: fs => (f.owner = t ∨ ∃ g ∈ fs, g.current = some f.owner) ∧ Chain t fs

theorem Chain.of_mem {t : ι} {fs : List (Frame ι)} (h : Chain t fs) {f : Frame ι} (hf : f ∈ fs) :
    f.owner = t ∨ ∃ g ∈ fs, g.current = some f.owner := by
  induction fs with
  | nil => cases hf
  | cons f' fs ih =>
      rcases List.mem_cons.mp hf with rfl | hf
      · exact h.1.imp id fun ⟨g, hg, hc⟩ => ⟨g, List.mem_cons_of_mem _ hg, hc⟩
      · exact (ih h.2 hf).imp id fun ⟨g, hg, hc⟩ => ⟨g, List.mem_cons_of_mem _ hg, hc⟩

structure Tree (ι : Type) where
  parent : ι → Option ι
  life : ι → Life ι
  aborted : ι → Bool
  pool : ι → List ι

namespace Tree

variable [DecidableEq ι] (s : Tree ι)

def setLife (a : ι) (l : Life ι) : Tree ι := { s with life := Function.update s.life a l }

def setPool (a : ι) (l : List ι) : Tree ι := { s with pool := Function.update s.pool a l }

def abort (a : ι) : Tree ι := { s with aborted := Function.update s.aborted a true }

def Born (a : ι) : Prop := s.life a ≠ .unborn

/-- The steps of a disciplined tree: what is aborted holds no handle, and does
not touch the pools any more. -/
inductive Step : Tree ι → Tree ι → Prop
  | begin {s : Tree ι} {a : ι} (h : s.life a = .returned) (hn : s.aborted a = false) :
      Step s (s.setLife a (.accepting none))
  | birth {s : Tree ι} {a c : ι} (h : s.life a = .accepting none) (hn : s.aborted a = false)
      (hc : s.life c = .unborn) :
      Step s { (s.setLife a (.accepting (some c))).setLife c (.accepting none) with
        parent := Function.update s.parent c (some a)
        aborted := Function.update s.aborted c false }
  | insert {s : Tree ι} {a c : ι} (h : s.life a = .accepting (some c)) (hn : s.aborted a = false) :
      Step s ((s.setLife a (.accepting none)).setPool a (s.pool a ++ [c]))
  | collect {s : Tree ι} {a c : ι} {rest : List ι} (h : s.life a = .accepting none)
      (hn : s.aborted a = false) (hc : c ∈ s.pool a) (hrest : ∀ b, b ∈ s.pool a → b = c ∨ b ∈ rest)
      (hsub : ∀ b ∈ rest, b ∈ s.pool a) :
      Step s ((s.setLife a (.accepting (some c))).setPool a rest)
  | joined {s : Tree ι} {a c : ι} (h : s.life a = .accepting (some c)) (hc : s.life c = .gone) :
      Step s (s.setLife a (.accepting none))
  | close {s : Tree ι} {a : ι} (h : s.life a = .accepting none) :
      Step s (s.setLife a (.walking (some a) []))
  | enterNone {s : Tree ι} {t e : ι} {fs : List (Frame ι)} (h : s.life t = .walking (some e) fs)
      (hn : s.aborted t = false) (hp : s.pool e = []) : Step s (s.setLife t (.walking none fs))
  | enter {s : Tree ι} {t e : ι} {fs : List (Frame ι)} (h : s.life t = .walking (some e) fs)
      (hn : s.aborted t = false) :
      Step s ((s.setLife t (.walking none (⟨e, s.pool e, none⟩ :: fs))).setPool e [])
  | pick {s : Tree ι} {t o c : ι} {rest rest' : List ι} {fs : List (Frame ι)}
      (h : s.life t = .walking none (⟨o, rest, none⟩ :: fs)) (hc : c ∈ rest)
      (hrest : ∀ b, b ∈ rest → b = c ∨ b ∈ rest') (hsub : ∀ b ∈ rest', b ∈ rest)
      (hr : (s.life c).Released) :
      Step s ((s.setLife t (.walking (some c) (⟨o, rest', some c⟩ :: fs))).abort c)
  | reap {s : Tree ι} {t o c : ι} {rest : List ι} {fs : List (Frame ι)}
      (h : s.life t = .walking none (⟨o, rest, some c⟩ :: fs)) (hc : s.life c = .gone) :
      Step s (s.setLife t (.walking none (⟨o, rest, none⟩ :: fs)))
  | pop {s : Tree ι} {t o : ι} {fs : List (Frame ι)}
      (h : s.life t = .walking none (⟨o, [], none⟩ :: fs)) : Step s (s.setLife t (.walking none fs))
  | finish {s : Tree ι} {t : ι} (h : s.life t = .walking none []) : Step s (s.setLife t .returned)
  | complete {s : Tree ι} {a : ι} (h : s.life a = .returned) : Step s (s.setLife a .gone)
  | drop {s : Tree ι} {a : ι} (h : s.aborted a = true) (hr : (s.life a).running = true) :
      Step s (s.setLife a .gone)

/-- Some place holds the handle of `b`: the pool of its parent, the parent
itself, or a walk that has taken the parent's pool. -/
def Owned (b p : ι) : Prop :=
  b ∈ s.pool p ∨ (s.life p).held = some b ∨ ∃ t, (s.life t).Carries b p

structure Sound (s : Tree ι) : Prop where
  owned : ∀ b p, (s.life b).running = true → s.parent b = some p → s.Owned b p
  kin : ∀ b p, s.Owned b p → s.parent b = some p ∧ s.Born b
  chain : ∀ t, Chain t (s.life t).frames
  entering_chain : ∀ t e, (s.life t).entering = some e →
    (e = t ∧ (s.life t).frames = []) ∨
      (∃ g ∈ (s.life t).frames, g.current = some e) ∧ (s.aborted e = true ∨ s.life e = .gone)
  pool_open : ∀ p, s.pool p ≠ [] → (s.life p).Before p ∨ s.life p = .gone
  pool_walked : ∀ p, s.pool p ≠ [] → s.aborted p = true ∨ s.life p = .gone →
    ∃ t, t ≠ p ∧ (s.life t).entering = some p
  frame_owner : ∀ t, ∀ f ∈ (s.life t).frames, f.owner ≠ t → f.handles ≠ [] →
    ((s.life f.owner).Before f.owner ∧ s.aborted f.owner = true) ∨ s.life f.owner = .gone
  aborted_released : ∀ p, s.aborted p = true → (s.life p).Released

inductive Descends : ι → ι → Prop
  | child {b a : ι} (h : s.parent b = some a) : Descends b a
  | further {b c a : ι} (h : s.parent b = some c) (hc : Descends c a) : Descends b a

structure Quiet (a : ι) : Prop where
  pool : s.pool a = []
  held : (s.life a).held = none
  frames : ∀ t, ∀ f ∈ (s.life t).frames, f.owner = a → f.handles = []

variable {s : Tree ι}

omit [DecidableEq ι] in
theorem Sound.quiet_of_returned (h : s.Sound) {a : ι} (ha : s.life a = .returned) : s.Quiet a := by
  refine ⟨?_, by rw [ha]; rfl, ?_⟩
  · by_contra hp
    rcases h.pool_open a hp with (⟨_, hb⟩ | hb) | hb <;> rw [ha] at hb <;> cases hb
  · intro t f hf hown
    by_contra hne
    have ht : f.owner ≠ t := by
      intro hot
      rw [← hot, hown, ha] at hf
      cases hf
    rw [← hown] at ha
    rcases h.frame_owner t f hf ht hne with ⟨(⟨_, hb⟩ | hb), -⟩ | hb <;> rw [ha] at hb <;> cases hb

omit [DecidableEq ι] in
/-- What is quiet has only children that are gone, and these are quiet too. -/
theorem Sound.child_of_quiet (h : s.Sound) {a b : ι} (ha : s.Quiet a) (hb : s.parent b = some a) :
    (s.life b).running = false ∧ s.Quiet b := by
  have hgone : (s.life b).running = false := by
    by_contra hrun
    rw [Bool.not_eq_false] at hrun
    rcases h.owned b a hrun hb with hp | hh | ⟨t, f, hf, hown, hmem⟩
    · rw [ha.pool] at hp
      cases hp
    · rw [ha.held] at hh
      cases hh
    · rw [ha.frames t f hf hown] at hmem
      cases hmem
  have hlife : (s.life b).held = none ∧ (s.life b).frames = [] := by
    cases hl : s.life b with
    | unborn | gone | returned => exact ⟨rfl, rfl⟩
    | accepting | walking => rw [hl] at hgone; cases hgone
  -- a walk that reaches `b` has a frame of `a` below it, with `b` in its hands
  have hnone : ∀ t, ∀ g ∈ (s.life t).frames, g.current ≠ some b := by
    intro t g hg hcur
    have hmem : b ∈ g.handles := by simp [Frame.handles, hcur]
    have hown := (h.kin b g.owner (.inr (.inr ⟨t, g, hg, rfl, hmem⟩))).1
    rw [hb] at hown
    rw [ha.frames t g hg (Option.some.inj hown).symm] at hmem
    cases hmem
  refine ⟨hgone, ?_, hlife.1, ?_⟩
  · by_contra hp
    have hwalked : s.aborted b = true ∨ s.life b = .gone := by
      rcases h.pool_open b hp with (⟨_, hl⟩ | hl) | hl
      · rw [hl] at hgone; cases hgone
      · rw [hl] at hgone; cases hgone
      · exact .inr hl
    obtain ⟨t, ht, hent⟩ := h.pool_walked b hp hwalked
    rcases h.entering_chain t b hent with ⟨heq, -⟩ | ⟨⟨g, hg, hcur⟩, -⟩
    · exact ht heq.symm
    · exact hnone t g hg hcur
  · intro t f hf hown
    rcases (h.chain t).of_mem hf with heq | ⟨g, hg, hcur⟩
    · rw [← heq, hown, hlife.2] at hf
      cases hf
    · rw [hown] at hcur
      exact absurd hcur (hnone t g hg)

omit [DecidableEq ι] in
/-- When a task has returned, its descendants are gone and no handle of theirs
is left. -/
theorem Sound.descendants_gone (h : s.Sound) {a b : ι} (ha : s.Quiet a) (hb : s.Descends b a) :
    (s.life b).running = false ∧ s.Quiet b := by
  induction hb with
  | child hp => exact h.child_of_quiet ha hp
  | further hp _ ih => exact h.child_of_quiet (ih ha).2 hp

end Tree

end Silo.Lib.TaskTree
