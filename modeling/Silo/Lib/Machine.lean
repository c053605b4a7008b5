import Mathlib.Logic.Function.Basic

namespace Silo.Lib

/-- A machine whose label resolves every choice a step can make, so that one
label has at most one successor and a run is the list of its labels. -/
structure Machine (σ ℓ : Type) where
  init : σ → Prop
  next : σ → ℓ → Option σ

namespace Machine

variable {σ ℓ : Type} {M : Machine σ ℓ} {C D : σ → ℓ → Prop} {s t u : σ} {l : ℓ}

/-- The states at the end of the runs from `s` whose steps all meet `C`. -/
inductive RunsTo (M : Machine σ ℓ) (C : σ → ℓ → Prop) (s : σ) : σ → Prop
  | refl : RunsTo M C s s
  | tail {t u : σ} {l : ℓ} : RunsTo M C s t → C t l → M.next t l = some u → RunsTo M C s u

def ReachableUnder (M : Machine σ ℓ) (C : σ → ℓ → Prop) (t : σ) : Prop :=
  ∃ s, M.init s ∧ M.RunsTo C s t

/-- Every state of every run, with no condition on the steps. -/
def Reachable (M : Machine σ ℓ) (t : σ) : Prop := M.ReachableUnder (fun _ _ => True) t

theorem RunsTo.trans (hst : M.RunsTo C s t) (htu : M.RunsTo C t u) : M.RunsTo C s u := by
  induction htu with
  | refl => exact hst
  | tail _ hc hn ih => exact .tail ih hc hn

theorem RunsTo.mono (hCD : ∀ s l, C s l → D s l) (h : M.RunsTo C s t) : M.RunsTo D s t := by
  induction h with
  | refl => exact .refl
  | tail _ hc hn ih => exact .tail ih (hCD _ _ hc) hn

theorem RunsTo.invariant {I : σ → Prop}
    (hstep : ∀ {s u l}, I s → C s l → M.next s l = some u → I u)
    (hs : I s) (h : M.RunsTo C s t) : I t := by
  induction h with
  | refl => exact hs
  | tail _ hc hn ih => exact hstep ih hc hn

theorem ReachableUnder.step (h : M.ReachableUnder C s) (hc : C s l) (hn : M.next s l = some t) :
    M.ReachableUnder C t := by
  obtain ⟨s₀, h₀, hr⟩ := h
  exact ⟨s₀, h₀, hr.tail hc hn⟩

theorem ReachableUnder.mono (hCD : ∀ s l, C s l → D s l) (h : M.ReachableUnder C t) :
    M.ReachableUnder D t := by
  obtain ⟨s, hs, hr⟩ := h
  exact ⟨s, hs, hr.mono hCD⟩

theorem ReachableUnder.reachable (h : M.ReachableUnder C t) : M.Reachable t :=
  h.mono fun _ _ _ => trivial

/-- The invariant rule: what holds initially and is kept by every step that
meets the condition holds along every such run. -/
theorem ReachableUnder.invariant {I : σ → Prop} (hinit : ∀ {s}, M.init s → I s)
    (hstep : ∀ {s u l}, I s → C s l → M.next s l = some u → I u)
    (h : M.ReachableUnder C t) : I t := by
  obtain ⟨s, hs, hr⟩ := h
  exact hr.invariant hstep (hinit hs)

def run (M : Machine σ ℓ) : σ → List ℓ → Option σ
  | s, [] => some s
  | s, l :: ls => (M.next s l).bind fun t => M.run t ls

/-- `run` that stops at the first step breaking the condition `c`. -/
def runChecked (M : Machine σ ℓ) (c : σ → ℓ → Bool) : σ → List ℓ → Option σ
  | s, [] => some s
  | s, l :: ls => if c s l then (M.next s l).bind fun t => M.runChecked c t ls else none

theorem runChecked_append (c : σ → ℓ → Bool) (ls ls' : List ℓ) :
    M.runChecked c s (ls ++ ls') = (M.runChecked c s ls).bind fun t => M.runChecked c t ls' := by
  induction ls generalizing s with
  | nil => rfl
  | cons l ls ih =>
      simp only [List.cons_append, runChecked]
      split
      · cases M.next s l with
        | none => rfl
        | some t => exact ih
      · rfl

theorem RunsTo.head (hc : C s l) (hn : M.next s l = some t) (h : M.RunsTo C t u) :
    M.RunsTo C s u :=
  RunsTo.trans (.tail .refl hc hn) h

theorem runsTo_of_runChecked {c : σ → ℓ → Bool} :
    ∀ {ls : List ℓ} {s t : σ}, M.runChecked c s ls = some t → M.RunsTo (fun s l => c s l = true) s t
  | [], s, t, h => by
      cases h
      exact .refl
  | l :: ls, s, t, h => by
      simp only [runChecked] at h
      split at h
      · obtain ⟨u, hu, ht⟩ := Option.bind_eq_some_iff.mp h
        exact .head ‹_› hu (runsTo_of_runChecked ht)
      · cases h

theorem runsTo_of_run :
    ∀ {ls : List ℓ} {s t : σ}, M.run s ls = some t → M.RunsTo (fun _ _ => True) s t
  | [], s, t, h => by
      cases h
      exact .refl
  | l :: ls, s, t, h => by
      obtain ⟨u, hu, ht⟩ := Option.bind_eq_some_iff.mp h
      exact .head trivial hu (runsTo_of_run ht)

theorem exists_of_runChecked (c : σ → ℓ → Bool) (ls : List ℓ) (p : σ → Bool) (hs : M.init s)
    (h : (M.runChecked c s ls).any p = true) :
    ∃ t, M.ReachableUnder (fun s l => c s l = true) t ∧ p t = true := by
  obtain ⟨t, ht, hp⟩ := (Option.any_eq_true ..).mp h
  exact ⟨t, ⟨s, hs, runsTo_of_runChecked ht⟩, hp⟩

theorem exists_of_run (ls : List ℓ) (p : σ → Bool) (hs : M.init s)
    (h : (M.run s ls).any p = true) : ∃ t, M.Reachable t ∧ p t = true := by
  obtain ⟨t, ht, hp⟩ := (Option.any_eq_true ..).mp h
  exact ⟨t, ⟨s, hs, runsTo_of_run ht⟩, hp⟩

end Machine

end Silo.Lib
