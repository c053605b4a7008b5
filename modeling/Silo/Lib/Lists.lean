import Mathlib.Algebra.GroupWithZero.Nat
import Mathlib.Data.List.Basic

namespace Silo.Lib

variable {α β : Type}

theorem getElem?_snoc_cases {l : List α} {x y : α} {i : Nat} (h : (l ++ [x])[i]? = some y) :
    l[i]? = some y ∨ i = l.length ∧ y = x := by
  rw [List.getElem?_append] at h
  split at h
  · exact .inl h
  · rw [List.getElem?_singleton] at h
    split at h
    · exact .inr ⟨by omega, (Option.some.inj h).symm⟩
    · cases h

theorem prefix_snoc {l m : List α} {x : α} (h : l <+: m) (hx : m[l.length]? = some x) : l ++ [x] <+: m := by
  obtain ⟨rest, rfl⟩ := h
  cases rest with
  | nil => simp at hx
  | cons y rest =>
      have hyx : y = x := by simpa using hx
      exact ⟨rest, by simp [hyx]⟩

section Modify

variable {a b : α} {f : α → β} {g : α → α} {p : α → Bool} {n : α → Nat}

theorem sum_map_set {l : List α} {k : Nat} (h : l[k]? = some a) :
    ((l.set k b).map n).sum + n a = (l.map n).sum + n b := by
  induction l generalizing k with
  | nil => cases h
  | cons c l ih =>
      cases k with
      | zero =>
          cases h
          simp only [List.set_cons_zero, List.map_cons, List.sum_cons]
          omega
      | succ k =>
          have ih := ih (k := k) h
          simp only [List.set_cons_succ, List.map_cons, List.sum_cons]
          omega

theorem countP_set {l : List α} {k : Nat} (h : l[k]? = some a) :
    (l.set k b).countP p + (if p a then 1 else 0) = l.countP p + if p b then 1 else 0 := by
  obtain ⟨hlt, rfl⟩ := List.getElem?_eq_some_iff.mp h
  have hle : (if p l[k] then 1 else 0) ≤ l.countP p := by
    split
    · exact List.countP_pos_iff.mpr ⟨_, List.getElem_mem hlt, ‹_›⟩
    · exact Nat.zero_le _
  rw [List.countP_set hlt]
  omega

theorem map_modify (hf : ∀ a, f (g a) = f a) (l : List α) (k : Nat) : (l.modify k g).map f = l.map f := by
  induction l generalizing k with
  | nil => simp
  | cons a l ih =>
      cases k with
      | zero => simp [hf]
      | succ k => simp [ih]

theorem countP_modify (hp : ∀ a, p (g a) = p a) (l : List α) (k : Nat) : (l.modify k g).countP p = l.countP p := by
  have hmap := congrArg (List.countP id) (map_modify hp l k)
  rwa [List.countP_map, List.countP_map] at hmap

end Modify

section MapM

variable {f : α → Option β} {a : α} {as : List α} {bs : List β}

theorem mapM_cons_some {a : α} (h : (a :: as).mapM f = some bs) :
    ∃ b cs, f a = some b ∧ as.mapM f = some cs ∧ bs = b :: cs := by
  rw [List.mapM_cons] at h
  obtain ⟨b, hb, h⟩ := Option.bind_eq_some_iff.mp h
  obtain ⟨cs, hcs, h⟩ := Option.bind_eq_some_iff.mp h
  cases h
  exact ⟨b, cs, hb, hcs, rfl⟩

theorem mem_of_mapM (h : as.mapM f = some bs) (b : β) : b ∈ bs ↔ ∃ a ∈ as, f a = some b := by
  induction as generalizing bs with
  | nil =>
      cases h
      simp
  | cons a as ih =>
      obtain ⟨c, cs, hc, hcs, rfl⟩ := mapM_cons_some h
      simp [ih hcs, hc, eq_comm]

theorem some_of_mapM (h : as.mapM f = some bs) : ∀ a ∈ as, ∃ b, f a = some b := by
  induction as generalizing bs with
  | nil => simp
  | cons a as ih =>
      obtain ⟨b, cs, hb, hcs, -⟩ := mapM_cons_some h
      intro d hd
      obtain rfl | hd := List.mem_cons.mp hd
      · exact ⟨b, hb⟩
      · exact ih hcs d hd

theorem mapM_of_some (h : ∀ a ∈ as, ∃ b, f a = some b) : ∃ bs, as.mapM f = some bs := by
  induction as with
  | nil => exact ⟨[], rfl⟩
  | cons a as ih =>
      obtain ⟨b, hb⟩ := h a (by simp)
      obtain ⟨bs, hbs⟩ := ih fun d hd => h d (by simp [hd])
      exact ⟨b :: bs, by rw [List.mapM_cons, hb, hbs]; rfl⟩

end MapM

section Rank

variable {f : α → Option β} {l : List α} {i j : Nat} {a : α} {b : β}

/-- How many of the first `i` entries `f` keeps. -/
def rank (f : α → Option β) (l : List α) (i : Nat) : Nat := ((l.take i).filterMap f).length

theorem split_at (h : l[i]? = some a) : l = l.take i ++ a :: l.drop (i + 1) := by
  obtain ⟨hlt, rfl⟩ := List.getElem?_eq_some_iff.mp h
  simp

theorem getElem?_rank (h : l[i]? = some a) (hf : f a = some b) : (l.filterMap f)[rank f l i]? = some b := by
  have hl : l.filterMap f = (l.take i).filterMap f ++ b :: (l.drop (i + 1)).filterMap f := by
    conv_lhs => rw [split_at h]
    rw [List.filterMap_append, List.filterMap_cons_some hf]
  rw [hl, rank, List.getElem?_append_right (Nat.le_refl _), Nat.sub_self]
  rfl

theorem rank_lt (h : l[i]? = some a) (hf : f a = some b) (hij : i < j) : rank f l i < rank f l j := by
  obtain ⟨hlt, -⟩ := List.getElem?_eq_some_iff.mp h
  have hget : (l.take j)[i]? = some a := by rw [List.getElem?_take_of_lt hij, h]
  have hsome := getElem?_rank hget hf
  have hrank : rank f (l.take j) i = rank f l i := by
    rw [rank, rank, List.take_take, Nat.min_eq_left (Nat.le_of_lt hij)]
  rw [hrank] at hsome
  exact (List.getElem?_eq_some_iff.mp hsome).1

theorem rank_ne {a' : α} {b' : β} (h : l[i]? = some a) (hf : f a = some b) (h' : l[j]? = some a')
    (hf' : f a' = some b') (hij : i ≠ j) : rank f l i ≠ rank f l j := by
  rcases Nat.lt_or_gt_of_ne hij with hlt | hgt
  · exact Nat.ne_of_lt (rank_lt h hf hlt)
  · exact Nat.ne_of_gt (rank_lt h' hf' hgt)

theorem rank_append (m : List α) (h : i ≤ l.length) : rank f (l ++ m) i = rank f l i := by
  rw [rank, List.take_append_of_le_length h, rank]

theorem rank_length : rank f l l.length = (l.filterMap f).length := by
  rw [rank, List.take_length]

end Rank

end Silo.Lib
