import Mathlib.Data.Nat.Init
import Mathlib.Tactic.ByContra
import Silo.Lib.Machine

namespace Silo.Lib.Machine

variable {σ ℓ ι : Type} {M : Machine σ ℓ} {C : σ → ℓ → Prop}

/-- An infinite run whose steps all meet `C`. -/
structure Run (M : Machine σ ℓ) (C : σ → ℓ → Prop) where
  state : Nat → σ
  label : Nat → ℓ
  allowed : ∀ n, C (state n) (label n)
  steps : ∀ n, M.next (state n) (label n) = some (state (n + 1))

/-- Every `i` is served again and again. -/
def Run.Fair (ρ : M.Run C) (serves : σ → ℓ → ι → Prop) : Prop :=
  ∀ i n, ∃ m, n ≤ m ∧ serves (ρ.state m) (ρ.label m) i

theorem Run.runsTo (ρ : M.Run C) (n : Nat) : M.RunsTo C (ρ.state 0) (ρ.state n) := by
  induction n with
  | zero => exact .refl
  | succ n ih => exact .tail ih (ρ.allowed n) (ρ.steps n)

def Run.cons {s : σ} {l : ℓ} (ρ : M.Run C) (hc : C s l) (hn : M.next s l = some (ρ.state 0)) : M.Run C where
  state n := n.casesOn s ρ.state
  label n := n.casesOn l ρ.label
  allowed
    | 0 => hc
    | n + 1 => ρ.allowed n
  steps
    | 0 => hn
    | n + 1 => ρ.steps n

/-- A finite run goes on for ever once it can take a step back to where it is. -/
theorem exists_run_of_loop {c : σ → ℓ → Bool} {t : σ} {l : ℓ} (hc : c t l = true)
    (hloop : M.next t l = some t) :
    ∀ {ls : List ℓ} {s : σ}, M.runChecked c s ls = some t →
      ∃ ρ : M.Run (fun s l => c s l = true), ρ.state 0 = s ∧ ∀ m, ls.length ≤ m → ρ.state m = t
  | [], s, h => by
      cases h
      exact ⟨⟨fun _ => t, fun _ => l, fun _ => hc, fun _ => hloop⟩, rfl, fun _ _ => rfl⟩
  | l' :: ls, s, h => by
      simp only [runChecked] at h
      split at h
      · obtain ⟨u, hu, ht⟩ := Option.bind_eq_some_iff.mp h
        obtain ⟨ρ, h0, hend⟩ := exists_run_of_loop hc hloop ht
        refine ⟨ρ.cons ‹_› (h0 ▸ hu), rfl, ?_⟩
        intro m hm
        cases m with
        | zero => cases hm
        | succ m => exact hend m (Nat.le_of_succ_le_succ hm)
      · cases h

section Progress

variable {I goal : σ → Prop} {serves : σ → ℓ → ι → Prop} (rank : σ → Nat) (helper : σ → ι)

/-- While the rank stays, so does the helper, and it has not been served. -/
theorem Run.stays {ρ : M.Run C} (hI : ∀ n, I (ρ.state n))
    (hstep : ∀ {s l t}, I s → C s l → M.next s l = some t → ¬ goal s →
      goal t ∨ rank t < rank s ∨ (rank t = rank s ∧ helper t = helper s ∧ ¬ serves s l (helper s)))
    {n : Nat} (hlate : ∀ m, n ≤ m → ¬ goal (ρ.state m) ∧ rank (ρ.state n) ≤ rank (ρ.state m)) :
    ∀ m, n ≤ m → rank (ρ.state m) = rank (ρ.state n) ∧ helper (ρ.state m) = helper (ρ.state n) ∧
      ¬ serves (ρ.state m) (ρ.label m) (helper (ρ.state n)) := by
  have hone : ∀ m, n ≤ m → rank (ρ.state m) = rank (ρ.state n) →
      rank (ρ.state (m + 1)) = rank (ρ.state m) ∧ helper (ρ.state (m + 1)) = helper (ρ.state m) ∧
        ¬ serves (ρ.state m) (ρ.label m) (helper (ρ.state m)) := by
    intro m hm hrank
    rcases hstep (hI m) (ρ.allowed m) (ρ.steps m) (hlate m hm).1 with hgoal | hlt | hsame
    · exact absurd hgoal (hlate (m + 1) (by omega)).1
    · have := (hlate (m + 1) (by omega)).2
      omega
    · exact hsame
  intro m hm
  induction m, hm using Nat.le_induction with
  | base => exact ⟨rfl, rfl, (hone n (Nat.le_refl n) rfl).2.2⟩
  | succ m hm ih =>
      obtain ⟨hr, hh, -⟩ := hone m hm ih.1
      have hrank := hr.trans ih.1
      have hhelper := hh.trans ih.2.1
      refine ⟨hrank, hhelper, ?_⟩
      rw [← hhelper]
      exact (hone (m + 1) (by omega) hrank).2.2

/-- A fair run gets to its goal if every step towards it keeps the rank from
growing, and lowers it when the helper of the moment is served. -/
theorem Run.Fair.eventually {ρ : M.Run C} (hfair : ρ.Fair serves) (hI : ∀ n, I (ρ.state n))
    (hstep : ∀ {s l t}, I s → C s l → M.next s l = some t → ¬ goal s →
      goal t ∨ rank t < rank s ∨ (rank t = rank s ∧ helper t = helper s ∧ ¬ serves s l (helper s)))
    (n : Nat) : ∃ m, n ≤ m ∧ goal (ρ.state m) := by
  induction hr : rank (ρ.state n) using Nat.strongRecOn generalizing n with
  | _ r ih =>
      by_contra hnever
      have hlate : ∀ m, n ≤ m → ¬ goal (ρ.state m) ∧ rank (ρ.state n) ≤ rank (ρ.state m) := by
        intro m hm
        refine ⟨fun hgoal => hnever ⟨m, hm, hgoal⟩, ?_⟩
        by_contra hlt
        obtain ⟨k, hk, hgoal⟩ := ih (rank (ρ.state m)) (by omega) m rfl
        exact hnever ⟨k, by omega, hgoal⟩
      obtain ⟨m, hm, hserved⟩ := hfair (helper (ρ.state n)) n
      exact (Run.stays rank helper hI hstep hlate m hm).2.2 hserved

theorem RunsTo.reaches {s : σ}
    (hstep : ∀ {s}, I s → ¬ goal s →
      ∃ l t, C s l ∧ M.next s l = some t ∧ I t ∧ (goal t ∨ rank t < rank s))
    (hs : I s) : ∃ t, M.RunsTo C s t ∧ goal t := by
  induction hr : rank s using Nat.strongRecOn generalizing s with
  | _ r ih =>
      by_cases hg : goal s
      · exact ⟨s, .refl, hg⟩
      · obtain ⟨l, t, hc, hnext, ht, hgoal | hlt⟩ := hstep hs hg
        · exact ⟨t, .tail .refl hc hnext, hgoal⟩
        · obtain ⟨u, hu, hgoal⟩ := ih (rank t) (hr ▸ hlt) ht rfl
          exact ⟨u, .head hc hnext hu, hgoal⟩

end Progress

end Silo.Lib.Machine
