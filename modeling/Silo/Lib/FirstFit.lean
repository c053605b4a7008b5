import Mathlib.Data.List.Perm.Basic
import Mathlib.Algebra.Order.BigOperators.Group.List
import Mathlib.Tactic.ByContra

namespace Silo.Lib.FirstFit

variable {α β κ : Type} (fits : β → α → Bool)

def serve : List α → List β → Option (List α × List α)
  | left, [] => some ([], left)
  | left, b :: bs =>
    (left.find? (fits b)).bind fun a =>
      (serve (left.eraseP (fits b)) bs).map fun r => (a :: r.1, r.2)

variable {fits} {key : α → κ} {want : β → κ}

theorem find?_perm {p : α → Bool} {l : List α} {a : α} (h : l.find? p = some a) :
    l.Perm (a :: l.eraseP p) := by
  induction l with
  | nil => cases h
  | cons b l ih =>
      by_cases hb : p b = true
      · rw [List.find?_cons_of_pos hb] at h
        cases h
        rw [List.eraseP_cons_of_pos hb]
      · rw [List.find?_cons_of_neg hb] at h
        rw [List.eraseP_cons_of_neg hb]
        exact ((ih h).cons b).trans (.swap a b _)

theorem serve_cons {left : List α} {b : β} {bs : List β} {r : List α × List α}
    (h : serve fits left (b :: bs) = some r) :
    ∃ a xs, left.find? (fits b) = some a ∧ serve fits (left.eraseP (fits b)) bs = some (xs, r.2) ∧
      r.1 = a :: xs := by
  obtain ⟨a, ha, h⟩ := Option.bind_eq_some_iff.mp h
  obtain ⟨⟨xs, rest⟩, hxs, rfl⟩ := Option.map_eq_some_iff.mp h
  exact ⟨a, xs, ha, hxs, rfl⟩

theorem serve_map {α' β' : Type} (fits : β' → α' → Bool) (f : α → α') (g : β → β') (left : List α)
    (bs : List β) :
    serve fits (left.map f) (bs.map g) =
      (serve (fun b a => fits (g b) (f a)) left bs).map fun r => (r.1.map f, r.2.map f) := by
  induction bs generalizing left with
  | nil => rfl
  | cons b bs ih =>
      rw [List.map_cons, serve, serve, List.find?_map]
      cases hfind : left.find? (fits (g b) ∘ f) with
      | none =>
          have hnone : left.find? (fun a => fits (g b) (f a)) = none := hfind
          simp [hnone]
      | some a =>
          have hsome : left.find? (fun a => fits (g b) (f a)) = some a := hfind
          rw [hsome, List.eraseP_map]
          simp only [Option.map_some, Option.bind_some, ih, Option.map_map]
          rfl

/-- What is served and what is left are the entries, and every request has got
one that fits. -/
theorem serve_perm {left : List α} {bs : List β} {xs rest : List α}
    (h : serve fits left bs = some (xs, rest)) :
    left.Perm (xs ++ rest) ∧ List.Forall₂ (fun b a => fits b a = true) bs xs := by
  induction bs generalizing left xs with
  | nil =>
      cases h
      exact ⟨.refl _, .nil⟩
  | cons b bs ih =>
      obtain ⟨a, ys, ha, hys, hxs⟩ := serve_cons h
      obtain ⟨hperm, hfits⟩ := ih hys
      cases hxs
      exact ⟨(find?_perm ha).trans (hperm.cons a), .cons (List.find?_some ha) hfits⟩

def Unambiguous (fits : β → α → Bool) (key : α → κ) (want : β → κ) (left : List α) : Prop :=
  left.Pairwise fun a a' => ∀ b, want b = key a' → fits b a = true → key a = key a'

theorem Unambiguous.find?_eq {left : List α} {b : β} {a : α} (h : Unambiguous fits key want left)
    (hb : want b ∈ left.map key) (hself : ∀ a, key a = want b → fits b a = true)
    (ha : left.find? (fits b) = some a) : key a = want b := by
  induction left with
  | nil => cases hb
  | cons c left ih =>
      by_cases hc : fits b c = true
      · rw [List.find?_cons_of_pos hc] at ha
        cases ha
        rcases List.mem_cons.mp hb with heq | hmem
        · exact heq.symm
        · obtain ⟨a', ha', hkey⟩ := List.mem_map.mp hmem
          rw [← hkey]
          exact (List.pairwise_cons.mp h).1 a' ha' b hkey.symm hc
      · rw [List.find?_cons_of_neg hc] at ha
        refine ih (List.pairwise_cons.mp h).2 ?_ ha
        rcases List.mem_cons.mp hb with heq | hmem
        · exact absurd (hself c heq.symm) hc
        · exact hmem

/-- Entries that stand apart serve every order of the requests they were made
from, each with an entry of its own key. -/
theorem Unambiguous.serves {left : List α} {bs : List β} (h : Unambiguous fits key want left)
    (hself : ∀ a b, key a = want b → fits b a = true) (hperm : (left.map key).Perm (bs.map want)) :
    ∃ xs, serve fits left bs = some (xs, []) ∧ xs.map key = bs.map want := by
  induction bs generalizing left with
  | nil =>
      have hnil : left = [] := List.map_eq_nil_iff.mp (List.perm_nil.mp hperm)
      exact ⟨[], by rw [hnil]; rfl, rfl⟩
  | cons b bs ih =>
      have hmem : want b ∈ left.map key := hperm.mem_iff.mpr (by simp)
      obtain ⟨a', ha', hkey'⟩ := List.mem_map.mp hmem
      obtain ⟨a, ha⟩ : ∃ a, left.find? (fits b) = some a := by
        apply Option.isSome_iff_exists.mp
        rw [List.find?_isSome]
        exact ⟨a', ha', hself a' b hkey'⟩
      have hkey := h.find?_eq hmem (fun c => hself c b) ha
      have hleft := (find?_perm ha).map key
      rw [List.map_cons, hkey] at hleft
      have hrest := h.sublist (List.eraseP_sublist (p := fits b))
      obtain ⟨xs, hxs, hkeys⟩ := ih hrest ((hleft.symm.trans hperm).cons_inv)
      refine ⟨a :: xs, ?_, by rw [List.map_cons, List.map_cons, hkey, hkeys]⟩
      simp [serve, ha, hxs]

section Necessary

variable (weight : κ → Nat)

/-- A complete service gives every request an entry of its own key, if an
entry fits no request of less weight. -/
theorem keys_of_complete {left : List α} {bs : List β} {xs : List α}
    (hle : ∀ a b, fits b a = true → weight (key a) ≤ weight (want b))
    (heq : ∀ a b, fits b a = true → weight (key a) = weight (want b) → key a = want b)
    (hperm : (left.map key).Perm (bs.map want)) (h : serve fits left bs = some (xs, [])) :
    xs.map key = bs.map want := by
  obtain ⟨hxs, hfits⟩ := serve_perm h
  rw [List.append_nil] at hxs
  have hsum : ((xs.map key).map weight).sum = ((bs.map want).map weight).sum :=
    (((hxs.map key).symm.trans hperm).map weight).sum_eq
  clear hperm h hxs
  induction hfits with
  | nil => rfl
  | @cons b a bs xs hba hrest ih =>
      have hrest' : ((xs.map key).map weight).sum ≤ ((bs.map want).map weight).sum := by
        clear ih hsum
        induction hrest with
        | nil => exact Nat.le_refl _
        | cons hfit _ ih =>
            simp only [List.map_cons, List.sum_cons]
            exact Nat.add_le_add (hle _ _ hfit) ih
      simp only [List.map_cons, List.sum_cons] at hsum
      have hfirst := hle a b hba
      rw [List.map_cons, List.map_cons, heq a b hba (by omega), ih (by omega)]

/-- Requests of one key take the entries of that key, so that no other entry
that would do stands before one of these. -/
theorem pairwise_of_served [DecidableEq κ] {b : β} {ds es : List β} {left xs rest : List α}
    (hcong : ∀ d a, want d = want b → fits d a = fits b a) (hds : ∀ d ∈ ds, want d = want b)
    (hserve : serve fits left (ds ++ es) = some (xs, rest)) (hxs : xs.map key = (ds ++ es).map want)
    (hcount : (left.map key).count (want b) = ds.length) :
    left.Pairwise fun a a' => key a' = want b → fits b a = true → key a = want b := by
  induction ds generalizing left xs with
  | nil =>
      have hnone : want b ∉ left.map key := List.count_eq_zero.mp hcount
      apply List.pairwise_of_forall_mem_list
      intro a _ a' ha' hkey
      exact absurd (List.mem_map.mpr ⟨a', ha', hkey⟩) hnone
  | cons d ds ih =>
      obtain ⟨a₀, ys, hfind, hys, hcons⟩ := serve_cons hserve
      change xs = a₀ :: ys at hcons
      rw [hcons, List.cons_append, List.map_cons, List.map_cons, List.cons.injEq] at hxs
      have hd : want d = want b := hds d (by simp)
      have hfits : fits d = fits b := funext fun a => hcong d a hd
      have hkey₀ : key a₀ = want b := hxs.1.trans hd
      rw [hfits] at hfind hys
      obtain ⟨hfit, l₁, l₂, rfl, hbefore⟩ := List.find?_eq_some_iff_append.mp hfind
      have herase : (l₁ ++ a₀ :: l₂).eraseP (fits b) = l₁ ++ l₂ := by
        rw [List.eraseP_append_right _ (by simpa using hbefore), List.eraseP_cons_of_pos hfit]
      rw [herase] at hys
      have hrest := ih (fun d hd => hds d (by simp [hd])) hys hxs.2 (by
        simp only [List.map_append, List.map_cons, List.count_append, hkey₀, List.count_cons_self,
          List.length_cons] at hcount ⊢
        omega)
      rw [List.pairwise_append] at hrest ⊢
      obtain ⟨h₁, h₂, h₁₂⟩ := hrest
      refine ⟨h₁, List.pairwise_cons.mpr ⟨fun _ _ _ _ => hkey₀, h₂⟩, ?_⟩
      intro a ha a' ha' hkey hab
      rcases List.mem_cons.mp ha' with rfl | ha'
      · have := hbefore a ha
        rw [hab] at this
        cases this
      · exact h₁₂ a ha a' ha' hkey hab

theorem Unambiguous.of_complete {left : List α} {bs : List β} (hkeys : left.map key = bs.map want)
    (hcong : ∀ b d a, want d = want b → fits d a = fits b a)
    (hle : ∀ a b, fits b a = true → weight (key a) ≤ weight (want b))
    (heq : ∀ a b, fits b a = true → weight (key a) = weight (want b) → key a = want b)
    (hall : ∀ cs, cs.Perm bs → ∃ xs, serve fits left cs = some (xs, [])) :
    Unambiguous fits key want left := by
  classical
  -- The requests for the key of the later entry come first.
  have hone : ∀ b, left.Pairwise fun a a' => key a' = want b → fits b a = true → key a = want b := by
    intro b
    have hperm := List.filter_append_perm (fun d => decide (want d = want b)) bs
    obtain ⟨xs, hserve⟩ := hall _ hperm
    have hxs := keys_of_complete weight hle heq
      (hkeys ▸ (hperm.map want).symm) hserve
    refine pairwise_of_served (fun d a => hcong b d a) ?_ hserve hxs ?_
    · intro d hd
      simpa using (List.mem_filter.mp hd).2
    · rw [hkeys, List.count, List.countP_map, List.countP_eq_length_filter]
      rfl
  rw [Unambiguous, List.pairwise_iff_getElem]
  intro i j hi hj hij b hb hfit
  rw [← hb]
  exact (List.pairwise_iff_getElem.mp (hone b)) i j hi hj hij hb.symm hfit

end Necessary

end Silo.Lib.FirstFit
