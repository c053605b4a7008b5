import Silo.Lib.Family

namespace Silo.Lib

variable {ρ : Type}

namespace Post

def loose : Post ρ → List Nat
  | .inserting c | .returning c | .joining c => [c]
  | .walking _ frames => frames.flatMap Prod.fst
  | _ => []

theorem Goes.held_eq {a : Nat} {p q : Post ρ} (h : Goes a p q) : q.held = p.held := by
  cases h <;> rfl

theorem Goes.loose_eq {a : Nat} {p q : Post ρ} (h : Goes a p q) : q.loose = p.loose := by
  cases h <;> rfl

theorem Goes.born {a : Nat} {p q : Post ρ} (h : Goes a p q) : p ≠ .unborn ∧ q ≠ .unborn := by
  cases h <;> exact ⟨nofun, nofun⟩

theorem Goes.spawning {a c : Nat} {p q : Post ρ} (h : Goes a p q) : q ≠ .spawning c := by
  cases h <;> exact nofun

theorem loose_subset_held (p : Post ρ) : p.loose ⊆ p.held := by
  intro c hc
  cases p with
  | inserting | returning | joining => exact hc
  | walking e frames =>
      obtain ⟨f, hf, hcf⟩ := List.mem_flatMap.mp hc
      exact List.mem_flatMap.mpr ⟨f, hf, List.mem_append_left _ hcf⟩
  | _ => cases hc

end Post

namespace Family

variable {limit cap a b c : Nat} {p : Post ρ} {v w : Family ρ}

@[simp] theorem setPost_post_self (v : Family ρ) (a : Nat) (p : Post ρ) :
    (v.setPost a p).post a = p := by
  simp [setPost]

theorem setPost_post_of_ne (v : Family ρ) (p : Post ρ) (h : b ≠ a) :
    (v.setPost a p).post b = v.post b := by
  simp [setPost, h]

@[simp] theorem setPool_pool_self (v : Family ρ) (a : Nat) (pool : Option Pool) :
    (v.setPool a pool).pool a = pool := by
  simp [setPool]

theorem setPool_pool_of_ne (v : Family ρ) (pool : Option Pool) (h : b ≠ a) :
    (v.setPool a pool).pool b = v.pool b := by
  simp [setPool, h]

theorem kids_congr (h : w.pool a = v.pool a) : w.kids a = v.kids a := by
  rw [kids, kids, h]

theorem kids_some {pool : Pool} (h : v.pool a = some pool) : v.kids a = pool.children := by
  simp [kids, h]

def owns (v : Family ρ) (a : Nat) : Multiset Nat := ↑(v.kids a) + ↑(v.post a).held

def handles (v : Family ρ) : Multiset Nat := ∑ a ∈ Finset.range v.counter, v.owns a

theorem handles_congr (hpost : w.post = v.post) (hpool : w.pool = v.pool)
    (hcounter : w.counter = v.counter) : w.handles = v.handles := by
  simp only [handles, owns, kids, hpost, hpool, hcounter]

/-- What one task gives and gets is what all of them together lose and win. -/
theorem sum_exchange {f g : Nat → Multiset Nat} {n : Nat} {x y : Multiset Nat} (ha : a < n)
    (hothers : ∀ b, b ≠ a → g b = f b) (hself : g a + x = f a + y) :
    ∑ b ∈ Finset.range n, g b + x = ∑ b ∈ Finset.range n, f b + y := by
  have hmem := Finset.mem_range.mpr ha
  have hrest : ∑ b ∈ (Finset.range n).erase a, g b = ∑ b ∈ (Finset.range n).erase a, f b :=
    Finset.sum_congr rfl fun b hb => hothers b (Finset.ne_of_mem_erase hb)
  rw [← Finset.add_sum_erase _ _ hmem, ← Finset.add_sum_erase _ f hmem, hrest, add_right_comm, hself,
    add_right_comm]

theorem handles_setPost (ha : a < v.counter) (p : Post ρ) :
    (v.setPost a p).handles + ↑(v.post a).held = v.handles + ↑p.held := by
  apply sum_exchange ha
  · intro b hb
    rw [owns, owns, setPost_post_of_ne v p hb]
    rfl
  · have hkids : (v.setPost a p).kids a = v.kids a := rfl
    rw [owns, owns, setPost_post_self, hkids]
    exact add_right_comm _ _ _

theorem handles_setPool (ha : a < v.counter) (pool : Option Pool) :
    (v.setPool a pool).handles + ↑(v.kids a) = v.handles + ↑((pool.map Pool.children).getD []) := by
  apply sum_exchange ha
  · intro b hb
    rw [owns, owns, kids_congr (setPool_pool_of_ne v pool hb)]
    rfl
  · have hkids : (v.setPool a pool).kids a = (pool.map Pool.children).getD [] := by
      rw [kids, setPool_pool_self]
    have hpost : (v.setPool a pool).post a = v.post a := rfl
    rw [owns, owns, hkids, hpost, add_right_comm, add_comm (_ : Multiset Nat) ↑(v.kids a), add_right_comm,
      add_right_comm]

theorem handles_same (ha : a < v.counter) (h : p.held = (v.post a).held) :
    (v.setPost a p).handles = v.handles := by
  have heq := handles_setPost ha p
  rw [h] at heq
  exact add_right_cancel heq

/-- Handles go from the pool of `e` to the hands of `a`, or the other way. -/
theorem handles_between {e : Nat} {pool : Option Pool} (he : e < v.counter) (ha : a < v.counter)
    (h : (↑((pool.map Pool.children).getD []) + ↑p.held : Multiset Nat) = ↑(v.kids e) + ↑(v.post a).held) :
    ((v.setPool e pool).setPost a p).handles = v.handles := by
  have hpool := handles_setPool he pool
  have hpost := handles_setPost (v := v.setPool e pool) (a := a) ha p
  have hsum : ((v.setPool e pool).setPost a p).handles + (↑(v.kids e) + ↑(v.post a).held) =
      v.handles + (↑(v.kids e) + ↑(v.post a).held) := by
    calc ((v.setPool e pool).setPost a p).handles + (↑(v.kids e) + ↑(v.post a).held)
        = ((v.setPool e pool).setPost a p).handles + ↑(v.post a).held + ↑(v.kids e) := by
          rw [add_comm (↑(v.kids e) : Multiset Nat), add_assoc]
      _ = (v.setPool e pool).handles + ↑p.held + ↑(v.kids e) := congrArg (· + _) hpost
      _ = (v.setPool e pool).handles + ↑(v.kids e) + ↑p.held := add_right_comm _ _ _
      _ = v.handles + ↑((pool.map Pool.children).getD []) + ↑p.held := by rw [hpool]
      _ = v.handles + (↑(v.kids e) + ↑(v.post a).held) := by rw [add_assoc, h]
  exact add_right_cancel hsum

theorem entry_cases (v : Family ρ) (a : Nat) :
    (∃ pool, v.pool a = some pool ∧ v.entry a = (v, pool)) ∨
      (v.pool a = none ∧ v.entry a =
        ({ v with nextChan := v.nextChan + 1 }.setPool a (some ⟨[], v.nextChan, some v.nextChan⟩),
          ⟨[], v.nextChan, some v.nextChan⟩)) := by
  rw [entry]
  split
  · rename_i pool hpool
    exact .inl ⟨pool, hpool, rfl⟩
  · rename_i hpool
    exact .inr ⟨hpool, rfl⟩

/-- Looking a pool up makes at most a pool, and an empty one. -/
structure Looked (v : Family ρ) (a : Nat) : Prop where
  post : (v.entry a).1.post = v.post
  aborted : (v.entry a).1.aborted = v.aborted
  counter : (v.entry a).1.counter = v.counter
  permits : (v.entry a).1.permits = v.permits
  pool : (v.entry a).1.pool = Function.update v.pool a (some (v.entry a).2)
  children : (v.entry a).2.children = v.kids a

theorem looked (v : Family ρ) (a : Nat) : Looked v a := by
  rcases entry_cases v a with ⟨pool, hpool, heq⟩ | ⟨hpool, heq⟩
  · have hsame : v.pool = Function.update v.pool a (some pool) := by
      rw [← hpool, Function.update_eq_self]
    constructor <;> simp only [heq]
    · exact hsame
    · exact (kids_some hpool).symm
  · constructor <;> simp only [heq]
    · rfl
    · rfl
    · rfl
    · rfl
    · rfl
    · simp [kids, hpool]

theorem kids_entry (v : Family ρ) (a b : Nat) : (v.entry a).1.kids b = v.kids b := by
  have h := looked v a
  by_cases hb : b = a
  · rw [hb, kids, h.pool, Function.update_self]
    exact h.children
  · rw [kids, h.pool, Function.update_of_ne hb]
    rfl

theorem handles_entry (v : Family ρ) (a : Nat) : (v.entry a).1.handles = v.handles := by
  have h := looked v a
  simp only [handles, owns, kids_entry, h.post, h.counter]

theorem kids_insert (v : Family ρ) (a b c : Nat) :
    (v.insert a c).kids b = if b = a then v.kids a ++ [c] else v.kids b := by
  have h := looked v a
  by_cases hb : b = a
  · rw [if_pos hb, hb, kids, insert, setPool_pool_self]
    simp [h.children]
  · rw [if_neg hb, kids, insert, setPool_pool_of_ne _ _ hb]
    exact kids_entry v a b

theorem handles_insert (ha : a < v.counter) (c : Nat) : (v.insert a c).handles = v.handles + {c} := by
  have h := looked v a
  have hset := handles_setPool (v := (v.entry a).1) (a := a) (by rw [h.counter]; exact ha)
    (some { (v.entry a).2 with children := (v.entry a).2.children ++ [c] })
  rw [handles_entry, kids_entry] at hset
  simp only [Option.map_some, Option.getD_some, h.children, ← Multiset.coe_add] at hset
  have hadd : v.handles + (↑(v.kids a) + ↑[c]) = v.handles + {c} + (↑(v.kids a) : Multiset Nat) := by
    rw [add_comm (↑(v.kids a) : Multiset Nat), add_assoc]
    rfl
  rw [hadd] at hset
  rw [insert, h.children]
  exact add_right_cancel hset

def Loose (v : Family ρ) (c : Nat) : Prop := ∃ b, c ∈ v.kids b ∨ c ∈ (v.post b).loose

/-- The permits are what the handles leave of `cap`, and no child has two. -/
structure Ledger (cap : Nat) (v : Family ρ) : Prop where
  root : 0 < v.counter
  fresh : ∀ a, v.counter ≤ a → v.post a = .unborn
  bare : ∀ a, v.post a = .unborn → v.pool a = none
  spawning : ∀ a c, v.post a = .spawning c → v.post c = .unborn
  nodup : v.handles.Nodup
  below : ∀ c ∈ v.handles, 0 < c ∧ c < v.counter
  permits : v.permits + v.handles.card = cap
  loose : ∀ c, v.Loose c → v.aborted c = false ∧ v.post c ≠ .unborn
  awake : ∀ c, v.aborted c = true → v.post c ≠ .unborn

theorem Ledger.lt (h : Ledger cap v) (ha : v.post a ≠ .unborn) : a < v.counter := by
  by_contra hge
  exact ha (h.fresh a (Nat.not_lt.mp hge))

theorem owns_le_handles (ha : a < v.counter) : v.owns a ≤ v.handles :=
  Finset.single_le_sum (fun b _ => Multiset.zero_le (v.owns b)) (Finset.mem_range.mpr ha)

theorem held_mem_handles (ha : a < v.counter) (hc : c ∈ (v.post a).held) : c ∈ v.handles :=
  Multiset.mem_of_le (owns_le_handles ha) (Multiset.mem_add.mpr (.inr hc))

theorem kids_mem_handles (ha : a < v.counter) (hc : c ∈ v.kids a) : c ∈ v.handles :=
  Multiset.mem_of_le (owns_le_handles ha) (Multiset.mem_add.mpr (.inl hc))

/-- How the handle of `c` is given up: its end is joined, by a wait or a walk, or
the task that has it is dropped. -/
inductive Lost (v w : Family ρ) (c : Nat) : Prop
  | joined {a : Nat} (h : v.post a = .joining c) (done : (v.post c).finished = true)
      (after : w.post a = .plain ∨ w.post a = .leaving)
  | reaped {a : Nat} {rest : List Nat} {frames : List (List Nat × Option Nat)}
      (h : v.post a = .walking none ((rest, some c) :: frames)) (done : (v.post c).finished = true)
      (after : w.post a = .walking none ((rest, none) :: frames))
  | dropped {a : Nat} (held : c ∈ (v.post a).held) (h : v.aborted a = true)
      (there : (v.post a).droppable = true)

/-- What a step does to the handles: it gives up `x` with their permits, or
takes a permit for the child it is about to have. -/
inductive Toll (v w : Family ρ) : Prop
  | freed (x : Multiset Nat) (lost : ∀ c ∈ x, Lost v w c) (handles : w.handles + x = v.handles)
      (permits : w.permits = v.permits + x.card) (counter : w.counter = v.counter)
  | charged (handles : w.handles = v.handles + {v.counter}) (permits : w.permits + 1 = v.permits)
      (counter : w.counter = v.counter + 1)

theorem toll_same (hhandles : w.handles = v.handles) (hpermits : w.permits = v.permits)
    (hcounter : w.counter = v.counter) : Toll v w :=
  .freed 0 (fun c hc => absurd hc (Multiset.notMem_zero c)) (by rw [add_zero, hhandles])
    (by rw [hpermits, Multiset.card_zero]; rfl) hcounter

theorem Ledger.toll (h : Ledger cap v) (hw : Toll v w) :
    w.handles.Nodup ∧ (∀ c ∈ w.handles, 0 < c ∧ c < w.counter) ∧ w.permits + w.handles.card = cap := by
  have hcap := h.permits
  cases hw with
  | freed x _ hhandles hpermits hcounter =>
      have hle : w.handles ≤ v.handles := hhandles ▸ Multiset.le_add_right _ _
      have hcard := congrArg Multiset.card hhandles
      rw [Multiset.card_add] at hcard
      refine ⟨Multiset.nodup_of_le hle h.nodup, ?_, by omega⟩
      intro c hc
      rw [hcounter]
      exact h.below c (Multiset.mem_of_le hle hc)
  | charged hhandles hpermits hcounter =>
      have hroot := h.root
      have hnew : v.counter ∉ v.handles := fun hmem => Nat.lt_irrefl _ (h.below _ hmem).2
      have hcard := congrArg Multiset.card hhandles
      rw [Multiset.card_add, Multiset.card_singleton] at hcard
      refine ⟨?_, ?_, by omega⟩
      · rw [hhandles, add_comm, Multiset.singleton_add]
        exact Multiset.nodup_cons.mpr ⟨hnew, h.nodup⟩
      · intro c hc
        rw [hhandles, Multiset.mem_add, Multiset.mem_singleton] at hc
        rw [hcounter]
        rcases hc with hc | rfl
        · have := h.below c hc
          omega
        · omega

/-- One handle leaves a list without duplicates when it is filtered out. -/
theorem coe_filter_ne {l : List Nat} (hl : l.Nodup) (hc : c ∈ l) :
    (↑(l.filter (· ≠ c)) : Multiset Nat) + {c} = ↑l := by
  have hfilter : l.filter (· ≠ c) = l.erase c := by
    rw [hl.erase_eq_filter]
    congr 1
    funext x
    by_cases hx : x = c <;> simp [hx]
  rw [hfilter, ← Multiset.coe_erase, add_comm, Multiset.singleton_add, Multiset.cons_erase hc]

theorem Ledger.kids_nodup (h : Ledger cap v) (ha : a < v.counter) : (v.kids a).Nodup := by
  have := Multiset.nodup_of_le (le_trans (Multiset.le_add_right _ _) (owns_le_handles ha)) h.nodup
  exact Multiset.coe_nodup.mp this

theorem Ledger.held_nodup (h : Ledger cap v) (ha : a < v.counter) : (v.post a).held.Nodup := by
  have := Multiset.nodup_of_le (le_trans (Multiset.le_add_left _ _) (owns_le_handles ha)) h.nodup
  exact Multiset.coe_nodup.mp this

theorem Ledger.toll_moved (h : Ledger cap v) (ha : v.post a ≠ .unborn) (heq : p.held = (v.post a).held) :
    Toll v (v.setPost a p) :=
  toll_same (handles_same (h.lt ha) heq) rfl rfl

theorem Ledger.toll_spawn (h : Ledger cap v) (hp : v.post a = .plain) (hfree : 0 < v.permits) :
    Toll v (v.charge.setPost a (.spawning v.counter)) := by
  have ha := h.lt (a := a) (by rw [hp]; exact nofun)
  have hnone : v.owns v.counter = 0 := by
    have hpost := h.fresh v.counter (Nat.le_refl _)
    rw [owns, hpost, kids, h.bare _ hpost]
    rfl
  have hcharge : v.charge.handles = v.handles := by
    have hsum : v.charge.handles = v.handles + v.owns v.counter := Finset.sum_range_succ ..
    rw [hsum, hnone, add_zero]
  have hset := handles_setPost (v := v.charge) (a := a) (Nat.lt_succ_of_lt ha) (.spawning v.counter)
  have hpost : v.charge.post a = .plain := hp
  rw [hpost, hcharge] at hset
  exact .charged (by simpa [Post.held] using hset) (Nat.sub_add_cancel hfree) rfl

theorem Ledger.toll_birth (h : Ledger cap v) (hp : v.post a = .spawning c) :
    Toll v ((v.bear a c).setPost a (.inserting c)) := by
  have ha := h.lt (a := a) (by rw [hp]; exact nofun)
  have hc : c < v.counter := (h.below c (held_mem_handles ha (by rw [hp]; exact List.mem_singleton_self c))).2
  have hunborn := h.spawning a c hp
  have hne : a ≠ c := by
    rintro rfl
    rw [hp] at hunborn
    cases hunborn
  have hl := looked v a
  have hbear : (v.bear a c).handles = v.handles := by
    have hset : ((v.entry a).1.setPost c .plain).handles = (v.entry a).1.handles :=
      handles_same (by rw [hl.counter]; exact hc) (by rw [hl.post, hunborn]; rfl)
    rw [handles_entry] at hset
    rw [← hset]
    exact handles_congr (by rw [setPost, hl.post]; rfl) rfl rfl
  refine toll_same ?_ hl.permits hl.counter
  rw [← hbear]
  apply handles_same (by rw [bear, hl.counter]; exact ha)
  have hpost : (v.bear a c).post a = .spawning c := by
    simp only [bear, Function.update_of_ne hne, hp]
  rw [hpost]
  rfl

theorem Ledger.toll_insert (h : Ledger cap v)
    (hp : v.post a = .inserting c ∧ p = .plain ∨ v.post a = .returning c ∧ p = .leaving) :
    Toll v ((v.insert a c).setPost a p) := by
  have ha : a < v.counter := h.lt (by rcases hp with ⟨hp, -⟩ | ⟨hp, -⟩ <;> rw [hp] <;> exact nofun)
  have hl := looked v a
  have hset := handles_setPost (v := v.insert a c) (a := a)
    (by rw [insert, setPool, hl.counter]; exact ha) p
  have hpost : (v.insert a c).post a = v.post a := by
    rw [insert, setPool, hl.post]
  rw [handles_insert ha, hpost] at hset
  refine toll_same ?_ hl.permits hl.counter
  have hnone : (↑p.held : Multiset Nat) = 0 := by rcases hp with ⟨-, rfl⟩ | ⟨-, rfl⟩ <;> rfl
  have hone : (↑(v.post a).held : Multiset Nat) = {c} := by
    rcases hp with ⟨hp, -⟩ | ⟨hp, -⟩ <;> rw [hp] <;> rfl
  rw [hnone, hone, add_zero] at hset
  exact add_right_cancel hset

theorem Ledger.toll_collect (h : Ledger cap v) {pool : Pool} (hp : v.post a = .chosen c)
    (hhas : v.pool a = some pool) (hmem : c ∈ pool.children) :
    Toll v ((v.setPool a (some { pool with children := pool.children.filter (· ≠ c) })).setPost a
      (.joining c)) := by
  have ha := h.lt (a := a) (by rw [hp]; exact nofun)
  refine toll_same (handles_between ha ha ?_) rfl rfl
  have hnodup := h.kids_nodup ha
  rw [kids_some hhas] at hnodup
  rw [hp, kids_some hhas, ← coe_filter_ne hnodup hmem]
  exact (add_zero _).symm

theorem Ledger.toll_joined (h : Ledger cap v) (hp : v.post a = .joining c)
    (hdone : (v.post c).finished = true) (hafter : p = .plain ∨ p = .leaving) :
    Toll v ({ v with permits := v.permits + 1 }.setPost a p) := by
  have ha := h.lt (a := a) (by rw [hp]; exact nofun)
  have hset := handles_setPost ha p
  have hnone : (↑p.held : Multiset Nat) = 0 := by rcases hafter with rfl | rfl <;> rfl
  rw [hp, hnone, add_zero] at hset
  refine .freed {c} ?_ hset (by rw [Multiset.card_singleton]; rfl) rfl
  intro d hd
  rw [Multiset.mem_singleton.mp hd]
  exact .joined hp hdone (by rw [setPost_post_self]; exact hafter)

theorem Ledger.toll_enter (h : Ledger cap v) {e : Nat} {frames : List (List Nat × Option Nat)} {pool : Pool}
    (hp : v.post a = .walking (some e) frames) (hhas : v.pool e = some pool) :
    Toll v ((v.setPool e none).setPost a (.walking none ((pool.children, none) :: frames))) := by
  have ha := h.lt (a := a) (by rw [hp]; exact nofun)
  have he : e < v.counter := by
    apply h.lt
    intro hunborn
    rw [h.bare e hunborn] at hhas
    cases hhas
  refine toll_same (handles_between he ha ?_) rfl rfl
  rw [hp, kids_some hhas]
  simp [Post.held]

theorem Ledger.toll_pick (h : Ledger cap v) {rest : List Nat} {frames : List (List Nat × Option Nat)}
    (hp : v.post a = .walking none ((rest, none) :: frames)) (hmem : c ∈ rest) :
    Toll v ({ v with aborted := Function.update v.aborted c true }.setPost a
      (.walking (some c) ((rest.filter (· ≠ c), some c) :: frames))) := by
  have ha := h.lt (a := a) (by rw [hp]; exact nofun)
  have hnodup := h.held_nodup ha
  rw [hp] at hnodup
  have hrest : rest.Nodup := by
    simp only [Post.held, List.flatMap_cons, Option.toList_none, List.append_nil] at hnodup
    exact hnodup.of_append_left
  have hset := handles_setPost ha (.walking (some c) ((rest.filter (· ≠ c), some c) :: frames))
  refine toll_same ?_ rfl rfl
  have hheld : (↑(Post.walking (ρ := ρ) (some c) ((rest.filter (· ≠ c), some c) :: frames)).held : Multiset Nat) =
      ↑(v.post a).held := by
    rw [hp]
    simp only [Post.held, List.flatMap_cons, Option.toList_some, Option.toList_none, List.append_nil,
      ← Multiset.coe_add]
    rw [← coe_filter_ne hrest hmem]
    rfl
  rw [hheld] at hset
  exact add_right_cancel hset

theorem Ledger.toll_reap (h : Ledger cap v) {rest : List Nat} {frames : List (List Nat × Option Nat)} {r : ρ}
    (hp : v.post a = .walking none ((rest, some c) :: frames)) (hdone : (v.post c).finished = true) :
    Toll v ({ v.announce c r with permits := v.permits + 1 }.setPost a
      (.walking none ((rest, none) :: frames))) := by
  have ha := h.lt (a := a) (by rw [hp]; exact nofun)
  have hset := handles_setPost ha (.walking none ((rest, none) :: frames))
  have hlost : ∀ d ∈ ({c} : Multiset Nat), Lost v ({ v.announce c r with permits := v.permits + 1 }.setPost a
      (.walking none ((rest, none) :: frames))) d := by
    intro d hd
    rw [Multiset.mem_singleton.mp hd]
    exact .reaped hp hdone (setPost_post_self ..)
  refine .freed {c} hlost ?_ (by rw [Multiset.card_singleton]; rfl) rfl
  rw [hp] at hset
  simp only [Post.held, List.flatMap_cons, Option.toList_some, Option.toList_none, List.append_nil,
    ← Multiset.coe_add] at hset
  have hrest : (↑rest + ↑[c] + ↑(frames.flatMap fun f => f.1 ++ f.2.toList) : Multiset Nat) =
      {c} + (↑rest + ↑(frames.flatMap fun f => f.1 ++ f.2.toList)) := by
    rw [add_right_comm, add_comm]
    rfl
  rw [hrest, ← add_assoc] at hset
  exact add_right_cancel hset

theorem Ledger.toll_drop (h : Ledger cap v) (hab : v.aborted a = true)
    (hthere : (v.post a).droppable = true) :
    Toll v ({ v with permits := v.permits + (v.post a).held.length }.setPost a .dropped) := by
  have ha : a < v.counter := by
    apply h.lt
    intro hu
    rw [hu] at hthere
    cases hthere
  have hset := handles_setPost ha .dropped
  refine .freed ↑(v.post a).held (fun c hc => .dropped hc hab hthere) ?_
    (by rw [Multiset.coe_card]; rfl) rfl
  exact hset.trans (add_zero _)

theorem Ledger.step_toll (h : Ledger cap v) (hs : Step limit v w) : Toll v w := by
  cases hs with
  | @goes a p hg => exact h.toll_moved hg.born.1 hg.held_eq
  | again hp | missing hp | nothing hp =>
      exact h.toll_moved (by rw [hp]; exact nofun) (by rw [hp]; rfl)
  | skip hp | choose hp =>
      apply h.toll_moved
      · rcases hp with hp | hp <;> rw [hp] <;> exact nofun
      · rcases hp with hp | hp <;> rw [hp] <;> rfl
  | @hear a chan c rest hp =>
      refine toll_same ?_ rfl rfl
      exact handles_same (v := { v with chans := _ }) (h.lt (by rw [hp]; exact nofun)) (by simp only [hp]; rfl)
  | spawn hp _ hfree => exact h.toll_spawn hp hfree
  | birth hp => exact h.toll_birth hp
  | insert hp => exact h.toll_insert hp
  | @take a chan pool hp hhas hrx =>
      have ha := h.lt (a := a) (by rw [hp]; exact nofun)
      exact toll_same (handles_between ha ha (by rw [hp, kids_some hhas]; rfl)) rfl rfl
  | @put a chan heard hp =>
      have ha := h.lt (a := a) (by rw [hp]; exact nofun)
      refine toll_same (handles_between ha ha ?_) rfl rfl
      rw [hp, Option.map_map]
      cases heard <;> rfl
  | collect hp hhas hmem => exact h.toll_collect hp hhas hmem
  | joined hp hdone hafter => exact h.toll_joined hp hdone hafter
  | enter hp hhas => exact h.toll_enter hp hhas
  | pick hp hmem => exact h.toll_pick hp hmem
  | reap hp hdone => exact h.toll_reap hp hdone
  | @complete a r hp hchild =>
      refine toll_same (handles_same (v := { v.announce a r with chans := _ }) (h.lt ?_) ?_) rfl rfl
      · rw [hp]
        exact nofun
      · simp only [announce, hp]
        rfl
  | drop hab hthere => exact h.toll_drop hab hthere

theorem Ledger.lost (h : Ledger cap v) (hs : Step limit v w) (hc : c ∈ v.handles) (hgone : c ∉ w.handles) :
    Lost v w c := by
  cases h.step_toll hs with
  | freed x hlost hhandles =>
      rw [← hhandles] at hc
      exact hlost c ((Multiset.mem_add.mp hc).resolve_left hgone)
  | charged hhandles =>
      rw [hhandles] at hgone
      exact absurd (Multiset.mem_add.mpr (.inl hc)) hgone

/-- What the others see of a step of `a`: a task is born at most, and no pool
made but that of `a`. -/
structure Acts (v w : Family ρ) (a : Nat) : Prop where
  was : v.post a ≠ .unborn
  still : w.post a ≠ .unborn
  others : ∀ b, b ≠ a → w.post b = v.post b ∨ (v.post a = .spawning b ∧ w.post b = .plain)
  spawns : ∀ c, w.post a = .spawning c → c = v.counter
  pools : ∀ b, b ≠ a → v.pool b = none → w.pool b = none
  counter : v.counter ≤ w.counter

theorem acts_setPost {u : Family ρ} (hu : u.post = v.post) (was : v.post a ≠ .unborn)
    (still : p ≠ .unborn) (spawns : ∀ c, p = .spawning c → c = v.counter)
    (pools : ∀ b, b ≠ a → v.pool b = none → u.pool b = none) (counter : v.counter ≤ u.counter) :
    Acts v (u.setPost a p) a := by
  refine ⟨was, ?_, ?_, ?_, pools, counter⟩
  · rw [setPost_post_self]
    exact still
  · intro b hb
    rw [setPost_post_of_ne u p hb, hu]
    exact .inl rfl
  · intro c hc
    rw [setPost_post_self] at hc
    exact spawns c hc

theorem pool_entry_of_none (v : Family ρ) (hb : b ≠ a) : (v.entry a).1.pool b = v.pool b := by
  rw [(looked v a).pool, Function.update_of_ne hb]

theorem Ledger.acts (h : Ledger cap v) (hs : Step limit v w) : ∃ a, Acts v w a := by
  cases hs with
  | @goes a p hg =>
      exact ⟨a, acts_setPost rfl hg.born.1 hg.born.2 (fun c hc => absurd hc hg.spawning)
        (fun _ _ hb => hb) (Nat.le_refl _)⟩
  | @again a hp | @missing a pool hp | @nothing a e frames hp =>
      exact ⟨a, acts_setPost rfl (by rw [hp]; exact nofun) nofun nofun (fun _ _ hb => hb) (Nat.le_refl _)⟩
  | @skip a c hp | @choose a c hp =>
      refine ⟨a, acts_setPost rfl ?_ nofun nofun (fun _ _ hb => hb) (Nat.le_refl _)⟩
      rcases hp with hp | hp <;> rw [hp] <;> exact nofun
  | @spawn a hp =>
      refine ⟨a, acts_setPost (u := v.charge) rfl (by rw [hp]; exact nofun) nofun ?_ (fun _ _ hb => hb)
        (Nat.le_succ _)⟩
      intro c hc
      cases hc
      rfl
  | @birth a c hp =>
      have hl := looked v a
      have hne : a ≠ c := by
        rintro rfl
        have := h.spawning a a hp
        rw [hp] at this
        cases this
      refine ⟨a, by rw [hp]; exact nofun, ?_, ?_, ?_, ?_, ?_⟩
      · rw [setPost_post_self]
        exact nofun
      · intro b hb
        rw [setPost_post_of_ne _ _ hb]
        by_cases hbc : b = c
        · rw [hbc]
          exact .inr ⟨hp, by simp [bear]⟩
        · exact .inl (by simp [bear, hbc])
      · intro d hd
        rw [setPost_post_self] at hd
        cases hd
      · intro b hb hnone
        exact (pool_entry_of_none v hb).trans hnone
      · exact Nat.le_of_eq hl.counter.symm
  | @insert a c p hp =>
      have hl := looked v a
      refine ⟨a, acts_setPost (by rw [insert, setPool, hl.post]) ?_ ?_ ?_ ?_ ?_⟩
      · rcases hp with ⟨hp, -⟩ | ⟨hp, -⟩ <;> rw [hp] <;> exact nofun
      · rcases hp with ⟨-, rfl⟩ | ⟨-, rfl⟩ <;> exact nofun
      · rcases hp with ⟨-, rfl⟩ | ⟨-, rfl⟩ <;> exact nofun
      · intro b hb hnone
        rw [insert, setPool_pool_of_ne _ _ hb, pool_entry_of_none v hb]
        exact hnone
      · exact Nat.le_of_eq hl.counter.symm
  | @take a chan pool hp | @collect a c pool hp =>
      refine ⟨a, acts_setPost rfl (by rw [hp]; exact nofun) nofun nofun ?_ (Nat.le_refl _)⟩
      intro b hb hnone
      rw [setPool_pool_of_ne _ _ hb]
      exact hnone
  | @put a chan heard hp =>
      refine ⟨a, acts_setPost rfl (by rw [hp]; exact nofun) ?_ ?_ ?_ (Nat.le_refl _)⟩
      · cases heard <;> exact nofun
      · cases heard <;> exact nofun
      · intro b hb hnone
        rw [setPool_pool_of_ne _ _ hb]
        exact hnone
  | @hear a chan c rest hp =>
      exact ⟨a, acts_setPost (u := { v with chans := _ }) rfl (by rw [hp]; exact nofun) nofun nofun
        (fun _ _ hb => hb) (Nat.le_refl _)⟩
  | @joined a c p hp hdone hafter =>
      refine ⟨a, acts_setPost (u := { v with permits := _ }) rfl (by rw [hp]; exact nofun) ?_ ?_
        (fun _ _ hb => hb) (Nat.le_refl _)⟩
      · rcases hafter with rfl | rfl <;> exact nofun
      · rcases hafter with rfl | rfl <;> exact nofun
  | @enter a e frames pool hp =>
      refine ⟨a, acts_setPost rfl (by rw [hp]; exact nofun) nofun nofun ?_ (Nat.le_refl _)⟩
      intro b hb hnone
      by_cases hbe : b = e
      · rw [hbe, setPool_pool_self]
      · rw [setPool_pool_of_ne _ _ hbe]
        exact hnone
  | @pick a c rest frames hp =>
      exact ⟨a, acts_setPost (u := { v with aborted := _ }) rfl (by rw [hp]; exact nofun) nofun nofun
        (fun _ _ hb => hb) (Nat.le_refl _)⟩
  | @reap a c rest frames r hp =>
      exact ⟨a, acts_setPost (u := { v.announce c r with permits := _ }) rfl (by rw [hp]; exact nofun) nofun
        nofun (fun _ _ hb => hb) (Nat.le_refl _)⟩
  | @complete a r hp =>
      exact ⟨a, acts_setPost (u := { v.announce a r with chans := _ }) rfl (by rw [hp]; exact nofun) nofun
        nofun (fun _ _ hb => hb) (Nat.le_refl _)⟩
  | @drop a hab hthere =>
      refine ⟨a, acts_setPost (u := { v with permits := _ }) rfl ?_ nofun nofun (fun _ _ hb => hb)
        (Nat.le_refl _)⟩
      intro hu
      rw [hu] at hthere
      cases hthere

theorem mem_owns_of_held (hc : c ∈ (v.post a).held) : c ∈ v.owns a := Multiset.mem_add.mpr (.inr hc)

theorem mem_owns_of_kids (hc : c ∈ v.kids a) : c ∈ v.owns a := Multiset.mem_add.mpr (.inl hc)

theorem Ledger.owner_unique (h : Ledger cap v) (ha : a < v.counter) (hb : b < v.counter)
    (hca : c ∈ v.owns a) (hcb : c ∈ v.owns b) : a = b := by
  by_contra hne
  have hmem := Finset.mem_range.mpr ha
  have hle : v.owns b ≤ ∑ d ∈ (Finset.range v.counter).erase a, v.owns d :=
    Finset.single_le_sum (fun d _ => Multiset.zero_le (v.owns d))
      (Finset.mem_erase.mpr ⟨Ne.symm hne, Finset.mem_range.mpr hb⟩)
  have hnodup := h.nodup
  rw [handles, ← Finset.add_sum_erase _ _ hmem, Multiset.nodup_add] at hnodup
  exact Multiset.disjoint_left.mp hnodup.2.2 hca (Multiset.mem_of_le hle hcb)

theorem Ledger.owner_lt (h : Ledger cap v) (hc : c ∈ v.owns a) : a < v.counter := by
  apply h.lt
  intro hu
  rw [owns, hu, kids, h.bare a hu] at hc
  cases hc

theorem Ledger.kids_disjoint (h : Ledger cap v) (hk : c ∈ v.kids a) : c ∉ (v.post a).held := by
  intro hh
  have ha := h.owner_lt (mem_owns_of_kids hk)
  have hnodup := Multiset.nodup_of_le (owns_le_handles ha) h.nodup
  rw [owns, Multiset.nodup_add] at hnodup
  exact Multiset.disjoint_left.mp hnodup.2.2 hk hh

structure Drifts (v w : Family ρ) : Prop where
  loose : ∀ c, w.Loose c → v.Loose c ∨ (w.aborted c = false ∧ w.post c ≠ .unborn)
  aborted : ∀ c, w.aborted c = true → v.aborted c = true ∨ (v.Loose c ∧ ¬ w.Loose c)

/-- A step of `a` that takes what is loose from `u`, but for its own post. -/
theorem drifts_setPost {u : Family ρ} (hpost : u.post = v.post)
    (hkids : ∀ b c, c ∈ u.kids b → v.Loose c) (hself : ∀ c ∈ p.loose, v.Loose c)
    (hab : u.aborted = v.aborted) : Drifts v (u.setPost a p) := by
  refine ⟨?_, ?_⟩
  · rintro c ⟨b, hc | hc⟩
    · exact .inl (hkids b c hc)
    · by_cases hb : b = a
      · rw [hb, setPost_post_self] at hc
        exact .inl (hself c hc)
      · rw [setPost_post_of_ne u p hb, hpost] at hc
        exact .inl ⟨b, .inr hc⟩
  · intro c hc
    rw [← hab]
    exact .inl hc

theorem drifts_bare {u : Family ρ} (hpost : u.post = v.post) (hkids : ∀ b, u.kids b = v.kids b)
    (hself : p.loose = []) (hab : u.aborted = v.aborted) : Drifts v (u.setPost a p) := by
  refine drifts_setPost hpost ?_ ?_ hab
  · intro b c hc
    rw [hkids] at hc
    exact ⟨b, .inl hc⟩
  · intro c hc
    rw [hself] at hc
    cases hc

end Family

end Silo.Lib
