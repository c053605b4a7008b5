import Silo.Lib.TaskTree

namespace Silo.Lib.TaskTree.Tree

variable {ι : Type} {s : Tree ι}

structure Settles (s : Tree ι) (a : ι) (l : Life ι) : Prop where
  born : l ≠ .unborn
  notGone : s.life a ≠ .gone
  run : l.running = true → (s.life a).running = true
  held : ∀ b, l.held = some b → (s.life a).held = some b
  heldKept : ∀ b, (s.life a).held = some b → l.held = some b ∨ (s.life b).running = false
  carries : ∀ b p, l.Carries b p → (s.life a).Carries b p
  carriesKept : ∀ b p, (s.life a).Carries b p → l.Carries b p ∨ (s.life b).running = false
  chain : Chain a l.frames
  entering : ∀ e, l.entering = some e → e = a ∧ l.frames = []
  entered : ∀ e, (s.life a).entering = some e → e ≠ a → s.pool e = []
  pool : s.pool a ≠ [] → l.Before a ∨ l = .gone
  poolWalked : s.pool a ≠ [] → l = .gone → s.aborted a = true
  before : (s.life a).Before a → l.Before a ∨ l = .gone ∨ s.aborted a = false
  released : s.aborted a = true → l.Released

theorem Sound.pool_nil (h : s.Sound) {a : ι} (hb : ¬ (s.life a).Before a) (hg : s.life a ≠ .gone) :
    s.pool a = [] := by
  by_contra hp
  rcases h.pool_open a hp with h' | h'
  · exact hb h'
  · exact hg h'

theorem carries_cons {e : Option ι} {f : Frame ι} {fs : List (Frame ι)} {b p : ι} :
    (Life.walking e (f :: fs)).Carries b p ↔
      (f.owner = p ∧ b ∈ f.handles) ∨ (Life.walking e fs).Carries b p := by
  simp [Life.Carries, Life.frames]

/-- A task that holds no frames takes a life without handles, in which its pool
may stay. A handle it held is that of a task that is gone. -/
theorem settles_idle {a : ι} {l : Life ι} (hl : l = .accepting none ∨ l = .walking (some a) [])
    (hrun : (s.life a).running = true) (hframes : (s.life a).frames = [])
    (hent : (s.life a).entering = none)
    (hheld : ∀ b, (s.life a).held = some b → (s.life b).running = false) : s.Settles a l := by
  have hl' : l.held = none ∧ l.frames = [] ∧ l ≠ .unborn ∧ l ≠ .gone ∧ l.Before a := by
    rcases hl with rfl | rfl <;> simp [Life.held, Life.frames, Life.Before]
  exact {
    born := hl'.2.2.1
    notGone := by
      intro hg
      rw [hg] at hrun
      cases hrun
    run := fun _ => hrun
    held := by simp [hl'.1]
    heldKept := fun b hb => .inr (hheld b hb)
    carries := by simp [Life.Carries, hl'.2.1]
    carriesKept := by simp [Life.Carries, hframes]
    chain := by rw [hl'.2.1]; trivial
    entering := by rcases hl with rfl | rfl <;> simp [Life.entering, Life.frames]
    entered := by simp [hent]
    pool := fun _ => .inl hl'.2.2.2.2
    poolWalked := fun _ hg => absurd hg hl'.2.2.2.1
    before := fun _ => .inl hl'.2.2.2.2
    released := fun _ => ⟨hl'.1, hl'.2.1⟩ }

/-- A walk that goes on: its frames have lost only handles of tasks that are
gone, and it is not about to enter a pool that holds anything. -/
theorem settles_walk (h : s.Sound) {t : ι} {e : Option ι} {fs fs' : List (Frame ι)}
    (ht : s.life t = .walking e fs) (hn : e = some t → s.aborted t = false)
    (hpool : ∀ c, e = some c → s.pool c = [])
    (hsub : ∀ b p, (Life.walking none fs').Carries b p → (Life.walking e fs).Carries b p)
    (hkept : ∀ b p, (Life.walking e fs).Carries b p →
      (Life.walking none fs').Carries b p ∨ (s.life b).running = false)
    (hchain : Chain t fs') (hshort : fs = [] → fs' = []) : s.Settles t (.walking none fs') where
  born := by simp
  notGone := by simp [ht]
  run := by simp [ht, Life.running]
  held := by simp [Life.held]
  heldKept := by simp [ht, Life.held]
  carries := by rw [ht]; exact hsub
  carriesKept := by rw [ht]; exact hkept
  chain := hchain
  entering := by simp [Life.entering]
  entered := by
    intro c hc _
    rw [ht] at hc
    exact hpool c hc
  pool := by
    intro hp
    rcases h.pool_open t hp with (⟨_, hb⟩ | hb) | hb
    · rw [ht] at hb; cases hb
    · rw [ht] at hb
      cases hb
      exact absurd (hpool t rfl) hp
    · rw [ht] at hb; cases hb
  poolWalked := by simp
  before := by
    rintro (⟨_, hb⟩ | hb)
    · rw [ht] at hb; cases hb
    · rw [ht] at hb
      cases hb
      exact .inr (.inr (hn rfl))
  released := by
    intro hab
    have hr := (h.aborted_released t hab).2
    rw [ht] at hr
    exact ⟨rfl, hshort hr⟩

theorem settles_end (h : s.Sound) {a : ι} {l : Life ι} (hl : l = .returned ∨ l = .gone)
    (hrun : (s.life a).running = true) (hheld : (s.life a).held = none)
    (hframes : (s.life a).frames = [])
    (hpool : l = .gone ∧ s.aborted a = true ∨ ¬ (s.life a).Before a) : s.Settles a l := by
  have hl' : l.held = none ∧ l.frames = [] ∧ l.entering = none ∧ l ≠ .unborn := by
    rcases hl with rfl | rfl <;> simp [Life.held, Life.frames, Life.entering]
  have hg : s.life a ≠ .gone := by
    intro hg
    rw [hg] at hrun
    cases hrun
  exact {
    born := hl'.2.2.2
    notGone := hg
    run := fun _ => hrun
    held := by simp [hl'.1]
    heldKept := by simp [hheld]
    carries := by simp [Life.Carries, hl'.2.1]
    carriesKept := by simp [Life.Carries, hframes]
    chain := by rw [hl'.2.1]; trivial
    entering := by simp [hl'.2.2.1]
    entered := by
      intro e he hne
      rcases h.entering_chain a e he with ⟨heq, -⟩ | ⟨⟨g, hgm, -⟩, -⟩
      · exact absurd heq hne
      · rw [hframes] at hgm
        cases hgm
    pool := by
      intro hp
      rcases hpool with ⟨hgone, -⟩ | hb
      · exact .inr hgone
      · exact absurd (h.pool_nil hb hg) hp
    poolWalked := by
      intro hp _
      rcases hpool with ⟨-, hab⟩ | hb
      · exact hab
      · exact absurd (h.pool_nil hb hg) hp
    before := by
      intro hb
      rcases hpool with ⟨hgone, -⟩ | hb'
      · exact .inr (.inl hgone)
      · exact absurd hb hb'
    released := fun _ => ⟨hl'.1, hl'.2.1⟩ }

structure Moves (s t : Tree ι) : Prop where
  parent : t.parent = s.parent
  running : ∀ b, (t.life b).running = (s.life b).running
  born : ∀ b, s.Born b → t.Born b
  owned : ∀ b p, t.Owned b p ↔ s.Owned b p
  chain : ∀ q, Chain q (t.life q).frames
  entering_chain : ∀ q e, (t.life q).entering = some e →
    (e = q ∧ (t.life q).frames = []) ∨
      (∃ g ∈ (t.life q).frames, g.current = some e) ∧ (t.aborted e = true ∨ t.life e = .gone)
  pool_open : ∀ p, t.pool p ≠ [] → (t.life p).Before p ∨ t.life p = .gone
  pool_walked : ∀ p, t.pool p ≠ [] → t.aborted p = true ∨ t.life p = .gone →
    ∃ q, q ≠ p ∧ (t.life q).entering = some p
  frame_owner : ∀ q, ∀ f ∈ (t.life q).frames, f.owner ≠ q → f.handles ≠ [] →
    ((t.life f.owner).Before f.owner ∧ t.aborted f.owner = true) ∨ t.life f.owner = .gone
  aborted_released : ∀ p, t.aborted p = true → (t.life p).Released

theorem Sound.move (h : s.Sound) {t : Tree ι} (hm : s.Moves t) : t.Sound where
  owned := by
    intro b p hb hp
    rw [hm.running] at hb
    rw [hm.parent] at hp
    exact (hm.owned b p).mpr (h.owned b p hb hp)
  kin := by
    intro b p ho
    obtain ⟨hp, hb⟩ := h.kin b p ((hm.owned b p).mp ho)
    rw [hm.parent]
    exact ⟨hp, hm.born b hb⟩
  chain := hm.chain
  entering_chain := hm.entering_chain
  pool_open := hm.pool_open
  pool_walked := hm.pool_walked
  frame_owner := hm.frame_owner
  aborted_released := hm.aborted_released

variable [DecidableEq ι]

theorem setLife_self (s : Tree ι) (a : ι) (l : Life ι) : (s.setLife a l).life a = l := by
  simp [setLife]

theorem setLife_of_ne (s : Tree ι) {a b : ι} (h : b ≠ a) (l : Life ι) :
    (s.setLife a l).life b = s.life b := by
  simp [setLife, h]

theorem Settles.owned_iff {a : ι} {l : Life ι} (hl : s.Settles a l) {b p : ι} :
    ((s.setLife a l).Owned b p → s.Owned b p) ∧
      (s.Owned b p → (s.setLife a l).Owned b p ∨ (s.life b).running = false) := by
  constructor
  · rintro (hp | hh | ⟨q, hq⟩)
    · exact .inl hp
    · by_cases hpa : p = a
      · subst hpa
        rw [setLife_self] at hh
        exact .inr (.inl (hl.held b hh))
      · rw [setLife_of_ne s hpa] at hh
        exact .inr (.inl hh)
    · by_cases hqa : q = a
      · subst hqa
        rw [setLife_self] at hq
        exact .inr (.inr ⟨q, hl.carries b p hq⟩)
      · rw [setLife_of_ne s hqa] at hq
        exact .inr (.inr ⟨q, hq⟩)
  · rintro (hp | hh | ⟨q, hq⟩)
    · exact .inl (.inl hp)
    · by_cases hpa : p = a
      · subst hpa
        refine (hl.heldKept b hh).imp (fun hh => .inr (.inl ?_)) id
        rwa [setLife_self]
      · exact .inl (.inr (.inl (by rwa [setLife_of_ne s hpa])))
    · by_cases hqa : q = a
      · subst hqa
        refine (hl.carriesKept b p hq).imp (fun hq => .inr (.inr ⟨q, ?_⟩)) id
        rwa [setLife_self]
      · exact .inl (.inr (.inr ⟨q, by rwa [setLife_of_ne s hqa]⟩))

theorem Sound.settle (h : s.Sound) {a : ι} {l : Life ι} (hl : s.Settles a l) (ha : s.Born a) :
    (s.setLife a l).Sound := by
  have hborn : ∀ b, s.Born b → (s.setLife a l).Born b := by
    intro b hb
    by_cases hba : b = a
    · subst hba
      rw [Born, setLife_self]
      exact hl.born
    · rw [Born, setLife_of_ne s hba]
      exact hb
  have hent : ∀ q e, q ≠ a ∨ s.pool e ≠ [] ∧ e ≠ a → (s.life q).entering = some e →
      ((s.setLife a l).life q).entering = some e := by
    intro q e hq he
    by_cases hqa : q = a
    · subst hqa
      rcases hq with hq | ⟨hp, hea⟩
      · exact absurd rfl hq
      · exact absurd (hl.entered e he hea) hp
    · rwa [setLife_of_ne s hqa]
  constructor
  case owned =>
    intro b p hb hp
    have hrun : (s.life b).running = true := by
      by_cases hba : b = a
      · subst hba
        rw [setLife_self] at hb
        exact hl.run hb
      · rwa [setLife_of_ne s hba] at hb
    rcases hl.owned_iff.2 (h.owned b p hrun hp) with ho | hg
    · exact ho
    · rw [hrun] at hg
      cases hg
  case kin =>
    intro b p ho
    obtain ⟨hp, hb⟩ := h.kin b p (hl.owned_iff.1 ho)
    exact ⟨hp, hborn b hb⟩
  case chain =>
    intro q
    by_cases hqa : q = a
    · subst hqa
      rw [setLife_self]
      exact hl.chain
    · rw [setLife_of_ne s hqa]
      exact h.chain q
  case entering_chain =>
    intro q e he
    by_cases hqa : q = a
    · subst hqa
      rw [setLife_self] at he ⊢
      exact .inl (hl.entering e he)
    · rw [setLife_of_ne s hqa] at he ⊢
      refine (h.entering_chain q e he).imp id fun ⟨hg, hab⟩ => ⟨hg, ?_⟩
      rcases hab with hab | hab
      · exact .inl hab
      · by_cases hea : e = a
        · subst hea
          exact absurd hab hl.notGone
        · exact .inr (by rwa [setLife_of_ne s hea])
  case pool_open =>
    intro p hp
    by_cases hpa : p = a
    · subst hpa
      rw [setLife_self]
      exact hl.pool hp
    · rw [setLife_of_ne s hpa]
      exact h.pool_open p hp
  case pool_walked =>
    intro p hp hw
    by_cases hpa : p = a
    · subst hpa
      rw [setLife_self] at hw
      have hab : s.aborted p = true := hw.elim id (hl.poolWalked hp)
      obtain ⟨q, hq, he⟩ := h.pool_walked p hp (.inl hab)
      exact ⟨q, hq, hent q p (.inl hq) he⟩
    · rw [setLife_of_ne s hpa] at hw
      obtain ⟨q, hq, he⟩ := h.pool_walked p hp hw
      exact ⟨q, hq, hent q p (.inr ⟨hp, hpa⟩) he⟩
  case frame_owner =>
    intro q f hf hne hh
    have hf' : ∃ g ∈ (s.life q).frames, g.owner = f.owner ∧ g.handles ≠ [] := by
      by_cases hqa : q = a
      · subst hqa
        rw [setLife_self] at hf
        obtain ⟨b, hb⟩ := List.exists_mem_of_ne_nil _ hh
        obtain ⟨g, hg, hown, hmem⟩ := hl.carries b f.owner ⟨f, hf, rfl, hb⟩
        exact ⟨g, hg, hown, List.ne_nil_of_mem hmem⟩
      · rw [setLife_of_ne s hqa] at hf
        exact ⟨f, hf, rfl, hh⟩
    obtain ⟨g, hg, hown, hgh⟩ := hf'
    have howner := h.frame_owner q g hg (by rwa [hown]) hgh
    rw [hown] at howner
    by_cases hfa : f.owner = a
    · rw [hfa] at howner ⊢
      rw [setLife_self]
      rcases howner with ⟨hbefore, hab⟩ | hgone
      · rcases hl.before hbefore with hb | hg | hn
        · exact .inl ⟨hb, hab⟩
        · exact .inr hg
        · rw [hab] at hn
          cases hn
      · exact absurd hgone hl.notGone
    · rw [setLife_of_ne s hfa]
      exact howner
  case aborted_released =>
    intro p hp
    by_cases hpa : p = a
    · subst hpa
      rw [setLife_self]
      exact hl.released hp
    · rw [setLife_of_ne s hpa]
      exact h.aborted_released p hp

theorem Sound.exchange (h : s.Sound) {a : ι} {held held' : Option ι} {pool' : List ι}
    (ha : s.life a = .accepting held) (hn : s.aborted a = false)
    (hsame : ∀ b, (b ∈ pool' ∨ held' = some b) ↔ (b ∈ s.pool a ∨ held = some b)) :
    ((s.setLife a (.accepting held')).setPool a pool').Sound := by
  have hother : ∀ {q}, q ≠ a → (s.setLife a (.accepting held')).life q = s.life q :=
    fun hq => setLife_of_ne s hq _
  have hself := setLife_self s a (.accepting held')
  have hframes : ∀ q, ((s.setLife a (.accepting held')).life q).frames = (s.life q).frames := by
    intro q
    by_cases hq : q = a
    · subst hq; rw [hself, ha]; rfl
    · rw [hother hq]
  have hent : ∀ q, ((s.setLife a (.accepting held')).life q).entering = (s.life q).entering := by
    intro q
    by_cases hq : q = a
    · subst hq; rw [hself, ha]; rfl
    · rw [hother hq]
  have hgone : ∀ q, (s.setLife a (.accepting held')).life q = .gone ↔ s.life q = .gone := by
    intro q
    by_cases hq : q = a
    · subst hq; rw [hself, ha]; simp
    · rw [hother hq]
  exact h.move {
    parent := rfl
    running := by
      intro b
      by_cases hb : b = a
      · subst hb; simp [setPool, hself, ha, Life.running]
      · simp [setPool, hother hb]
    born := by
      intro b hb
      by_cases hba : b = a
      · subst hba; simp [Born, setPool, hself]
      · simpa [Born, setPool, hother hba] using hb
    owned := by
      intro b p
      simp only [Owned, setPool, Life.Carries, hframes]
      by_cases hp : p = a
      · subst hp
        simp only [Function.update_self, hself, ha, Life.held]
        rw [← or_assoc, hsame b, or_assoc]
      · simp only [Function.update_of_ne hp, hother hp]
        exact Iff.rfl
    chain := by
      intro q
      simp only [setPool, hframes]
      exact h.chain q
    entering_chain := by
      intro q e he
      simp only [setPool, hframes, hgone, hent] at he ⊢
      exact h.entering_chain q e he
    pool_open := by
      intro p hp
      by_cases hpa : p = a
      · subst hpa; exact .inl (.inl ⟨held', hself⟩)
      · simp only [setPool, Function.update_of_ne hpa, hother hpa] at hp ⊢
        exact h.pool_open p hp
    pool_walked := by
      intro p hp hw
      by_cases hpa : p = a
      · subst hpa
        simp only [setPool, setLife, hn] at hw
        simp at hw
      · simp only [setPool, Function.update_of_ne hpa, hgone, hent] at hp hw ⊢
        exact h.pool_walked p hp hw
    frame_owner := by
      intro q f hf hne hh
      simp only [setPool, hframes] at hf
      rcases h.frame_owner q f hf hne hh with ⟨hb, hab⟩ | hg
      · have hfa : f.owner ≠ a := by
          intro hfa
          rw [hfa, hn] at hab
          cases hab
        simp only [setPool, hother hfa]
        exact .inl ⟨hb, hab⟩
      · exact .inr ((hgone _).mpr hg)
    aborted_released := by
      intro p hp
      have hpa : p ≠ a := by
        rintro rfl
        simp only [setPool, setLife, hn] at hp
        cases hp
      simp only [setPool, hother hpa]
      exact h.aborted_released p hp }

section Enter

variable {t e : ι} {fs : List (Frame ι)}

/-- The walk of `t` has taken the pool of `e`. -/
def taken (s : Tree ι) (t e : ι) (fs : List (Frame ι)) : Tree ι :=
  (s.setLife t (.walking none (⟨e, s.pool e, none⟩ :: fs))).setPool e []

theorem taken_self : (s.taken t e fs).life t = .walking none (⟨e, s.pool e, none⟩ :: fs) := setLife_self ..

theorem taken_other {q : ι} (hq : q ≠ t) : (s.taken t e fs).life q = s.life q := setLife_of_ne s hq _

@[simp] theorem taken_pool : (s.taken t e fs).pool = Function.update s.pool e [] := rfl

@[simp] theorem taken_aborted : (s.taken t e fs).aborted = s.aborted := rfl

theorem running_taken (ht : s.life t = .walking (some e) fs) (b : ι) :
    ((s.taken t e fs).life b).running = (s.life b).running := by
  by_cases hb : b = t
  · subst hb
    rw [taken_self, ht]
    rfl
  · rw [taken_other hb]

theorem born_taken {b : ι} (hb : s.Born b) : (s.taken t e fs).Born b := by
  by_cases hbt : b = t
  · subst hbt
    simp [Born, taken_self]
  · rw [Born, taken_other hbt]
    exact hb

theorem held_taken (ht : s.life t = .walking (some e) fs) (p : ι) :
    ((s.taken t e fs).life p).held = (s.life p).held := by
  by_cases hp : p = t
  · subst hp
    rw [taken_self, ht]
    rfl
  · rw [taken_other hp]

theorem carries_taken (ht : s.life t = .walking (some e) fs) (b p : ι) :
    (∃ q, ((s.taken t e fs).life q).Carries b p) ↔ (e = p ∧ b ∈ s.pool e) ∨ ∃ q, (s.life q).Carries b p := by
  constructor
  · rintro ⟨q, hq⟩
    by_cases hqt : q = t
    · rw [hqt, taken_self, carries_cons] at hq
      refine hq.imp (And.imp_right fun hb => by simpa [Frame.handles] using hb) fun hc => ⟨t, ?_⟩
      rw [ht]
      exact hc
    · exact .inr ⟨q, by rwa [taken_other hqt] at hq⟩
  · rintro (⟨rfl, hb⟩ | ⟨q, hq⟩)
    · refine ⟨t, ?_⟩
      rw [taken_self, carries_cons]
      exact .inl ⟨rfl, by simpa [Frame.handles] using hb⟩
    · by_cases hqt : q = t
      · refine ⟨t, ?_⟩
        rw [taken_self, carries_cons]
        rw [hqt, ht] at hq
        exact .inr hq
      · exact ⟨q, by rwa [taken_other hqt]⟩

theorem owned_taken (ht : s.life t = .walking (some e) fs) (b p : ι) :
    (s.taken t e fs).Owned b p ↔ s.Owned b p := by
  simp only [Owned, held_taken ht, carries_taken ht, taken_pool]
  by_cases hp : p = e
  · subst hp
    simp only [Function.update_self, List.not_mem_nil, false_or, true_and]
    exact or_left_comm
  · have hep : e ≠ p := fun he => hp he.symm
    simp only [Function.update_of_ne hp, hep, false_and, false_or]

theorem Sound.chain_taken (h : s.Sound) (ht : s.life t = .walking (some e) fs) (q : ι) :
    Chain q ((s.taken t e fs).life q).frames := by
  by_cases hq : q = t
  · subst hq
    have hent := h.entering_chain q e (by rw [ht]; rfl)
    have hc := h.chain q
    rw [ht] at hc hent
    rw [taken_self]
    exact ⟨hent.imp And.left fun hg => hg.1, hc⟩
  · rw [taken_other hq]
    exact h.chain q

theorem Sound.entering_taken (h : s.Sound) (ht : s.life t = .walking (some e) fs) {q c : ι}
    (hc : ((s.taken t e fs).life q).entering = some c) :
    (c = q ∧ ((s.taken t e fs).life q).frames = []) ∨
      (∃ g ∈ ((s.taken t e fs).life q).frames, g.current = some c) ∧
        (s.aborted c = true ∨ (s.taken t e fs).life c = .gone) := by
  have hq : q ≠ t := by
    rintro rfl
    rw [taken_self] at hc
    cases hc
  rw [taken_other hq] at hc ⊢
  refine (h.entering_chain q c hc).imp id (And.imp_right (Or.imp_right fun hgone => ?_))
  rw [taken_other (by rintro rfl; rw [ht] at hgone; cases hgone)]
  exact hgone

/-- A pool that is not empty then is neither the one that was taken nor that of the walk. -/
theorem Sound.pool_taken (h : s.Sound) (ht : s.life t = .walking (some e) fs) {p : ι}
    (hp : (s.taken t e fs).pool p ≠ []) : p ≠ e ∧ p ≠ t ∧ s.pool p ≠ [] := by
  have hpe : p ≠ e := by
    rintro rfl
    simp at hp
  rw [taken_pool, Function.update_of_ne hpe] at hp
  refine ⟨hpe, ?_, hp⟩
  rintro rfl
  refine hp (h.pool_nil ?_ (by simp [ht]))
  rintro (⟨_, hb⟩ | hb) <;> rw [ht] at hb <;> cases hb
  exact hpe rfl

theorem Sound.pool_open_taken (h : s.Sound) (ht : s.life t = .walking (some e) fs) {p : ι}
    (hp : (s.taken t e fs).pool p ≠ []) :
    ((s.taken t e fs).life p).Before p ∨ (s.taken t e fs).life p = .gone := by
  obtain ⟨-, hpt, hp⟩ := h.pool_taken ht hp
  rw [taken_other hpt]
  exact h.pool_open p hp

theorem Sound.pool_walked_taken (h : s.Sound) (ht : s.life t = .walking (some e) fs) {p : ι}
    (hp : (s.taken t e fs).pool p ≠ []) (hw : s.aborted p = true ∨ (s.taken t e fs).life p = .gone) :
    ∃ q, q ≠ p ∧ ((s.taken t e fs).life q).entering = some p := by
  obtain ⟨hpe, hpt, hp⟩ := h.pool_taken ht hp
  rw [taken_other hpt] at hw
  obtain ⟨q, hq, hc⟩ := h.pool_walked p hp hw
  have hqt : q ≠ t := by
    rintro rfl
    rw [ht] at hc
    exact hpe (Option.some.inj hc).symm
  exact ⟨q, hq, by rwa [taken_other hqt]⟩

theorem Sound.frame_owner_taken (h : s.Sound) (ht : s.life t = .walking (some e) fs) (hn : s.aborted t = false)
    {q : ι} {f : Frame ι} (hf : f ∈ ((s.taken t e fs).life q).frames) (hne : f.owner ≠ q) (hh : f.handles ≠ []) :
    (((s.taken t e fs).life f.owner).Before f.owner ∧ s.aborted f.owner = true) ∨
      (s.taken t e fs).life f.owner = .gone := by
  have hold : ((s.life f.owner).Before f.owner ∧ s.aborted f.owner = true) ∨ s.life f.owner = .gone := by
    by_cases hq : q = t
    · subst hq
      rw [taken_self] at hf
      rcases List.mem_cons.mp hf with rfl | hf
      · rcases h.entering_chain q e (by rw [ht]; rfl) with ⟨heq, -⟩ | ⟨-, hab⟩
        · exact absurd heq hne
        · have hpe : s.pool e ≠ [] := by simpa [Frame.handles] using hh
          rcases h.pool_open e hpe with hb | hg
          · exact hab.imp (fun hab => ⟨hb, hab⟩) id
          · exact .inr hg
      · exact h.frame_owner q f (by rw [ht]; exact hf) hne hh
    · rw [taken_other hq] at hf
      exact h.frame_owner q f hf hne hh
  have hft : f.owner ≠ t := by
    intro hft
    rcases hold with ⟨-, hab⟩ | hg
    · rw [hft, hn] at hab
      cases hab
    · rw [hft, ht] at hg
      cases hg
  rw [taken_other hft]
  exact hold

theorem Sound.released_taken (h : s.Sound) (hn : s.aborted t = false) {p : ι} (hp : s.aborted p = true) :
    ((s.taken t e fs).life p).Released := by
  have hpt : p ≠ t := by
    rintro rfl
    rw [hn] at hp
    cases hp
  rw [taken_other hpt]
  exact h.aborted_released p hp

theorem Sound.enter (h : s.Sound) (ht : s.life t = .walking (some e) fs) (hn : s.aborted t = false) :
    (s.taken t e fs).Sound :=
  h.move {
    parent := rfl
    running := running_taken ht
    born := fun _ => born_taken
    owned := owned_taken ht
    chain := h.chain_taken ht
    entering_chain := fun _ _ => h.entering_taken ht
    pool_open := fun _ => h.pool_open_taken ht
    pool_walked := fun _ => h.pool_walked_taken ht
    frame_owner := fun _ _ hf => h.frame_owner_taken ht hn hf
    aborted_released := fun _ => h.released_taken hn }

end Enter

section Pick

variable {t o c : ι} {rest rest' : List ι} {fs : List (Frame ι)}

/-- The walk of `t` has aborted the child `c` and goes on to its pool. -/
def picked (s : Tree ι) (t o c : ι) (rest' : List ι) (fs : List (Frame ι)) : Tree ι :=
  (s.setLife t (.walking (some c) (⟨o, rest', some c⟩ :: fs))).abort c

theorem picked_self : (s.picked t o c rest' fs).life t = .walking (some c) (⟨o, rest', some c⟩ :: fs) :=
  setLife_self ..

theorem picked_other {q : ι} (hq : q ≠ t) : (s.picked t o c rest' fs).life q = s.life q := setLife_of_ne s hq _

@[simp] theorem picked_pool : (s.picked t o c rest' fs).pool = s.pool := rfl

@[simp] theorem picked_aborted : (s.picked t o c rest' fs).aborted = Function.update s.aborted c true := rfl

omit [DecidableEq ι] in
theorem handles_pick (hc : c ∈ rest) (hrest : ∀ b, b ∈ rest → b = c ∨ b ∈ rest') (hsub : ∀ b ∈ rest', b ∈ rest) (b : ι) :
    b ∈ (⟨o, rest', some c⟩ : Frame ι).handles ↔ b ∈ (⟨o, rest, none⟩ : Frame ι).handles := by
  simp only [Frame.handles, Option.toList_some, Option.toList_none, List.append_nil, List.mem_append,
    List.mem_singleton]
  constructor
  · rintro (hb | rfl)
    · exact hsub b hb
    · exact hc
  · intro hb
    exact (hrest b hb).symm

theorem aborted_picked {p : ι} (hp : s.aborted p = true) : (s.picked t o c rest' fs).aborted p = true := by
  by_cases hpc : p = c
  · simp [hpc]
  · simp [hpc, hp]

theorem running_picked (ht : s.life t = .walking none (⟨o, rest, none⟩ :: fs)) (b : ι) :
    ((s.picked t o c rest' fs).life b).running = (s.life b).running := by
  by_cases hb : b = t
  · subst hb
    rw [picked_self, ht]
    rfl
  · rw [picked_other hb]

theorem born_picked {b : ι} (hb : s.Born b) : (s.picked t o c rest' fs).Born b := by
  by_cases hbt : b = t
  · subst hbt
    simp [Born, picked_self]
  · rw [Born, picked_other hbt]
    exact hb

theorem owned_picked (ht : s.life t = .walking none (⟨o, rest, none⟩ :: fs))
    (hmem : ∀ b, b ∈ (⟨o, rest', some c⟩ : Frame ι).handles ↔ b ∈ (⟨o, rest, none⟩ : Frame ι).handles) (b p : ι) :
    (s.picked t o c rest' fs).Owned b p ↔ s.Owned b p := by
  have hcarries (q : ι) : ((s.picked t o c rest' fs).life q).Carries b p ↔ (s.life q).Carries b p := by
    by_cases hq : q = t
    · subst hq
      rw [picked_self, ht, carries_cons, carries_cons, hmem]
      exact Iff.rfl
    · rw [picked_other hq]
  have hheld : ((s.picked t o c rest' fs).life p).held = (s.life p).held := by
    by_cases hp : p = t
    · subst hp
      rw [picked_self, ht]
      rfl
    · rw [picked_other hp]
  simp only [Owned, picked_pool, hcarries, hheld]

theorem Sound.chain_picked (h : s.Sound) (ht : s.life t = .walking none (⟨o, rest, none⟩ :: fs)) (q : ι) :
    Chain q ((s.picked t o c rest' fs).life q).frames := by
  have hch := h.chain q
  by_cases hq : q = t
  · subst hq
    rw [ht] at hch
    rw [picked_self]
    exact hch
  · rw [picked_other hq]
    exact hch

theorem Sound.entering_picked (h : s.Sound) (ht : s.life t = .walking none (⟨o, rest, none⟩ :: fs)) {q e : ι}
    (he : ((s.picked t o c rest' fs).life q).entering = some e) :
    (e = q ∧ ((s.picked t o c rest' fs).life q).frames = []) ∨
      (∃ g ∈ ((s.picked t o c rest' fs).life q).frames, g.current = some e) ∧
        ((s.picked t o c rest' fs).aborted e = true ∨ (s.picked t o c rest' fs).life e = .gone) := by
  by_cases hq : q = t
  · subst hq
    rw [picked_self] at he ⊢
    cases he
    exact .inr ⟨⟨_, List.mem_cons_self, rfl⟩, .inl (by simp)⟩
  · rw [picked_other hq] at he ⊢
    refine (h.entering_chain q e he).imp id (And.imp_right (Or.imp aborted_picked fun hgone => ?_))
    rw [picked_other (by rintro rfl; rw [ht] at hgone; cases hgone)]
    exact hgone

omit [DecidableEq ι] in
theorem Sound.pool_picked (h : s.Sound) (ht : s.life t = .walking none (⟨o, rest, none⟩ :: fs)) {p : ι}
    (hp : s.pool p ≠ []) : p ≠ t := by
  rintro rfl
  refine hp (h.pool_nil ?_ (by simp [ht]))
  rintro (⟨_, hb⟩ | hb) <;> rw [ht] at hb <;> cases hb

theorem Sound.pool_walked_picked (h : s.Sound) (ht : s.life t = .walking none (⟨o, rest, none⟩ :: fs))
    (htc : c ≠ t) {p : ι} (hp : s.pool p ≠ [])
    (hw : (s.picked t o c rest' fs).aborted p = true ∨ (s.picked t o c rest' fs).life p = .gone) :
    ∃ q, q ≠ p ∧ ((s.picked t o c rest' fs).life q).entering = some p := by
  by_cases hpc : p = c
  · subst hpc
    exact ⟨t, htc.symm, by rw [picked_self]; rfl⟩
  · rw [picked_aborted, Function.update_of_ne hpc, picked_other (h.pool_picked ht hp)] at hw
    obtain ⟨q, hq, hent⟩ := h.pool_walked p hp hw
    have hqt : q ≠ t := by
      rintro rfl
      rw [ht] at hent
      cases hent
    exact ⟨q, hq, by rwa [picked_other hqt]⟩

theorem Sound.frame_owner_picked (h : s.Sound) (ht : s.life t = .walking none (⟨o, rest, none⟩ :: fs)) (hc : c ∈ rest)
    {q : ι} {f : Frame ι} (hf : f ∈ ((s.picked t o c rest' fs).life q).frames) (hne : f.owner ≠ q)
    (hh : f.handles ≠ []) :
    (((s.picked t o c rest' fs).life f.owner).Before f.owner ∧ (s.picked t o c rest' fs).aborted f.owner = true) ∨
      (s.picked t o c rest' fs).life f.owner = .gone := by
  have hold : ((s.life f.owner).Before f.owner ∧ s.aborted f.owner = true) ∨ s.life f.owner = .gone := by
    by_cases hq : q = t
    · subst hq
      rw [picked_self] at hf
      rcases List.mem_cons.mp hf with rfl | hf
      · refine h.frame_owner q ⟨o, rest, none⟩ (by rw [ht]; exact List.mem_cons_self) hne ?_
        exact List.ne_nil_of_mem (by simpa [Frame.handles] using hc)
      · exact h.frame_owner q f (by rw [ht]; exact List.mem_cons_of_mem _ hf) hne hh
    · rw [picked_other hq] at hf
      exact h.frame_owner q f hf hne hh
  have hft : f.owner ≠ t := by
    intro hft
    rw [hft, ht] at hold
    rcases hold with ⟨⟨_, hb⟩ | hb, -⟩ | hg
    · cases hb
    · cases hb
    · cases hg
  rw [picked_other hft]
  exact hold.imp (And.imp_right aborted_picked) id

theorem Sound.released_picked (h : s.Sound) (ht : s.life t = .walking none (⟨o, rest, none⟩ :: fs)) (htc : c ≠ t)
    (hr : (s.life c).Released) {p : ι} (hp : (s.picked t o c rest' fs).aborted p = true) :
    ((s.picked t o c rest' fs).life p).Released := by
  by_cases hpc : p = c
  · subst hpc
    rw [picked_other htc]
    exact hr
  · rw [picked_aborted, Function.update_of_ne hpc] at hp
    have hrel := h.aborted_released p hp
    have hpt : p ≠ t := by
      rintro rfl
      rw [ht] at hrel
      cases hrel.2
    rw [picked_other hpt]
    exact hrel

theorem Sound.pick (h : s.Sound) (ht : s.life t = .walking none (⟨o, rest, none⟩ :: fs)) (hc : c ∈ rest)
    (hrest : ∀ b, b ∈ rest → b = c ∨ b ∈ rest') (hsub : ∀ b ∈ rest', b ∈ rest)
    (hr : (s.life c).Released) : (s.picked t o c rest' fs).Sound := by
  have htc : c ≠ t := by
    rintro rfl
    rw [ht] at hr
    cases hr.2
  exact h.move {
    parent := rfl
    running := running_picked ht
    born := fun _ => born_picked
    owned := owned_picked ht (handles_pick hc hrest hsub)
    chain := h.chain_picked ht
    entering_chain := fun _ _ => h.entering_picked ht
    pool_open := by
      intro p hp
      rw [picked_other (h.pool_picked ht hp)]
      exact h.pool_open p hp
    pool_walked := fun _ => h.pool_walked_picked ht htc
    frame_owner := fun _ _ hf => h.frame_owner_picked ht hc hf
    aborted_released := fun _ => h.released_picked ht htc hr }

end Pick

section Birth

variable {t : Tree ι} {a c : ι}

/-- `t` is `s` with a new child `c`, which is in the hands of its parent `a`. -/
structure Births (s t : Tree ι) (a c : ι) : Prop where
  ready : s.life a = .accepting none
  heeded : s.aborted a = false
  unborn : s.life c = .unborn
  holds : t.life a = .accepting (some c)
  child : t.life c = .accepting none
  other : ∀ {q}, q ≠ a → q ≠ c → t.life q = s.life q
  pool : t.pool = s.pool
  parent : t.parent = Function.update s.parent c (some a)
  aborted : t.aborted = Function.update s.aborted c false

theorem Births.same {p : Life ι → Life ι → Prop} (hb : s.Births t a c) (hrefl : ∀ l, p l l)
    (hparent : p (.accepting (some c)) (.accepting none)) (hchild : p (.accepting none) .unborn) (q : ι) :
    p (t.life q) (s.life q) := by
  by_cases hqa : q = a
  · rw [hqa, hb.holds, hb.ready]
    exact hparent
  · by_cases hqc : q = c
    · rw [hqc, hb.child, hb.unborn]
      exact hchild
    · rw [hb.other hqa hqc]
      exact hrefl _

theorem Births.frames (hb : s.Births t a c) (q : ι) : (t.life q).frames = (s.life q).frames :=
  hb.same (p := fun l l' => l.frames = l'.frames) (fun _ => rfl) rfl rfl q

theorem Births.entering (hb : s.Births t a c) (q : ι) : (t.life q).entering = (s.life q).entering :=
  hb.same (p := fun l l' => l.entering = l'.entering) (fun _ => rfl) rfl rfl q

theorem Births.gone (hb : s.Births t a c) (q : ι) : t.life q = .gone ↔ s.life q = .gone :=
  hb.same (p := fun l l' => l = .gone ↔ l' = .gone) (fun _ => Iff.rfl) (by simp) (by simp) q

theorem Births.carries (hb : s.Births t a c) (q b p : ι) : (t.life q).Carries b p ↔ (s.life q).Carries b p := by
  rw [Life.Carries, hb.frames]
  exact Iff.rfl

theorem Births.held_iff (hb : s.Births t a c) (p b : ι) :
    (t.life p).held = some b ↔ (p = a ∧ b = c) ∨ (s.life p).held = some b := by
  by_cases hpa : p = a
  · subst hpa
    simp [hb.holds, hb.ready, Life.held, eq_comm]
  · by_cases hpc : p = c
    · subst hpc
      simp [hb.child, hb.unborn, Life.held, hpa]
    · simp [hb.other hpa hpc, hpa]

theorem Births.owned_iff (hb : s.Births t a c) (b p : ι) : t.Owned b p ↔ (p = a ∧ b = c) ∨ s.Owned b p := by
  simp only [Owned, hb.pool, hb.held_iff, hb.carries]
  tauto

omit [DecidableEq ι] in
theorem Sound.not_owned_unborn (h : s.Sound) (hc : s.life c = .unborn) (p : ι) : ¬ s.Owned c p :=
  fun ho => (h.kin c p ho).2 hc

theorem Sound.births_ne (h : s.Sound) (hb : s.Births t a c) {p : ι} (hp : s.pool p ≠ []) : p ≠ c := by
  rintro rfl
  refine hp (h.pool_nil ?_ (by simp [hb.unborn]))
  rintro (⟨_, hl⟩ | hl) <;> rw [hb.unborn] at hl <;> cases hl

theorem Sound.owned_births (h : s.Sound) (hb : s.Births t a c) {b p : ι} (hrun : (t.life b).running = true)
    (hp : t.parent b = some p) : t.Owned b p := by
  rw [hb.owned_iff]
  rw [hb.parent] at hp
  by_cases hbc : b = c
  · subst hbc
    rw [Function.update_self] at hp
    cases hp
    exact .inl ⟨rfl, rfl⟩
  · rw [Function.update_of_ne hbc] at hp
    have hold : (s.life b).running = true := by
      by_cases hba : b = a
      · rw [hba, hb.ready]
        rfl
      · rwa [hb.other hba hbc] at hrun
    exact .inr (h.owned b p hold hp)

theorem Sound.kin_births (h : s.Sound) (hb : s.Births t a c) {b p : ι} (ho : t.Owned b p) :
    t.parent b = some p ∧ t.Born b := by
  rw [hb.parent]
  rcases (hb.owned_iff b p).mp ho with ⟨rfl, rfl⟩ | hold
  · exact ⟨by simp, by simp [Born, hb.child]⟩
  · obtain ⟨hp, hborn⟩ := h.kin b p hold
    have hbc : b ≠ c := by
      rintro rfl
      exact h.not_owned_unborn hb.unborn p hold
    refine ⟨by rwa [Function.update_of_ne hbc], ?_⟩
    by_cases hba : b = a
    · rw [Born, hba, hb.holds]
      nofun
    · rw [Born, hb.other hba hbc]
      exact hborn

theorem Sound.entering_births (h : s.Sound) (hb : s.Births t a c) {q e : ι} (he : (t.life q).entering = some e) :
    (e = q ∧ (t.life q).frames = []) ∨
      (∃ g ∈ (t.life q).frames, g.current = some e) ∧ (t.aborted e = true ∨ t.life e = .gone) := by
  rw [hb.entering] at he
  rw [hb.frames, hb.gone, hb.aborted]
  refine (h.entering_chain q e he).imp id ?_
  rintro ⟨⟨g, hg, hcur⟩, hab⟩
  have hec : e ≠ c := by
    rintro rfl
    exact h.not_owned_unborn hb.unborn g.owner (.inr (.inr ⟨q, g, hg, rfl, by simp [Frame.handles, hcur]⟩))
  exact ⟨⟨g, hg, hcur⟩, by rwa [Function.update_of_ne hec]⟩

theorem Sound.pool_open_births (h : s.Sound) (hb : s.Births t a c) {p : ι} (hp : s.pool p ≠ []) :
    (t.life p).Before p ∨ t.life p = .gone := by
  by_cases hpa : p = a
  · rw [hpa]
    exact .inl (.inl ⟨_, hb.holds⟩)
  · rw [hb.other hpa (h.births_ne hb hp)]
    exact h.pool_open p hp

theorem Sound.frame_owner_births (h : s.Sound) (hb : s.Births t a c) {q : ι} {f : Frame ι} (hf : f ∈ (t.life q).frames)
    (hne : f.owner ≠ q) (hh : f.handles ≠ []) :
    ((t.life f.owner).Before f.owner ∧ t.aborted f.owner = true) ∨ t.life f.owner = .gone := by
  rw [hb.frames] at hf
  have hold := h.frame_owner q f hf hne hh
  have hfc : f.owner ≠ c := by
    intro hfc
    rw [hfc, hb.unborn] at hold
    rcases hold with ⟨⟨_, hl⟩ | hl, -⟩ | hg
    · cases hl
    · cases hl
    · cases hg
  have hfa : f.owner ≠ a := by
    intro hfa
    rw [hfa, hb.heeded, hb.ready] at hold
    rcases hold with ⟨-, hab⟩ | hg
    · cases hab
    · cases hg
  rw [hb.other hfa hfc, hb.aborted, Function.update_of_ne hfc]
  exact hold

theorem Sound.released_births (h : s.Sound) (hb : s.Births t a c) {p : ι} (hp : t.aborted p = true) :
    (t.life p).Released := by
  rw [hb.aborted] at hp
  have hpc : p ≠ c := by
    rintro rfl
    simp at hp
  rw [Function.update_of_ne hpc] at hp
  have hpa : p ≠ a := by
    rintro rfl
    rw [hb.heeded] at hp
    cases hp
  rw [hb.other hpa hpc]
  exact h.aborted_released p hp

theorem Sound.births (h : s.Sound) (hb : s.Births t a c) : t.Sound where
  owned _ _ := h.owned_births hb
  kin _ _ := h.kin_births hb
  chain q := by
    rw [hb.frames]
    exact h.chain q
  entering_chain _ _ := h.entering_births hb
  pool_open p hp := h.pool_open_births hb (hb.pool ▸ hp)
  pool_walked := by
    intro p hp hw
    rw [hb.pool] at hp
    rw [hb.aborted, Function.update_of_ne (h.births_ne hb hp), hb.gone] at hw
    obtain ⟨q, hq, he⟩ := h.pool_walked p hp hw
    exact ⟨q, hq, by rwa [hb.entering]⟩
  frame_owner _ _ hf := h.frame_owner_births hb hf
  aborted_released _ := h.released_births hb

theorem Sound.birth (h : s.Sound) (ha : s.life a = .accepting none) (hn : s.aborted a = false)
    (hc : s.life c = .unborn) :
    Sound { (s.setLife a (.accepting (some c))).setLife c (.accepting none) with
      parent := Function.update s.parent c (some a)
      aborted := Function.update s.aborted c false } := by
  have hca : a ≠ c := by
    rintro rfl
    rw [ha] at hc
    cases hc
  apply h.births
  exact {
    ready := ha
    heeded := hn
    unborn := hc
    holds := by
      change ((s.setLife a (.accepting (some c))).setLife c (.accepting none)).life a = _
      rw [setLife_of_ne _ hca, setLife_self]
    child := setLife_self (s.setLife a (.accepting (some c))) c _
    other := by
      intro q hqa hqc
      change ((s.setLife a (.accepting (some c))).setLife c (.accepting none)).life q = _
      rw [setLife_of_ne _ hqc, setLife_of_ne s hqa]
    pool := rfl
    parent := rfl
    aborted := rfl }

end Birth

omit [DecidableEq ι] in
theorem born_of_running (s : Tree ι) {a : ι} (h : (s.life a).running = true) : s.Born a := by
  intro hu
  rw [hu] at h
  cases h

theorem Sound.step {t : Tree ι} (h : s.Sound) (hs : Step s t) : t.Sound := by
  cases hs with
  | begin ha hn =>
      refine h.settle (settles_idle (.inl rfl) ?_ ?_ ?_ ?_) (by simp [Born, ha])
      all_goals simp [ha, Life.running, Life.frames, Life.entering, Life.held]
  | birth ha hn hc => exact h.birth ha hn hc
  | insert ha hn =>
      apply h.exchange ha hn
      intro b
      simp [eq_comm]
  | collect ha hn hc hrest hsub =>
      apply h.exchange ha hn
      intro b
      constructor
      · rintro (hb | hb)
        · exact .inl (hsub b hb)
        · cases hb
          exact .inl hc
      · rintro (hb | hb)
        · exact (hrest b hb).symm.imp id fun hbc => by rw [hbc]
        · cases hb
  | joined ha hc =>
      refine h.settle (settles_idle (.inl rfl) ?_ ?_ ?_ ?_) (by simp [Born, ha])
      all_goals simp [ha, Life.running, Life.frames, Life.entering, Life.held]
      simp [hc]
  | close ha =>
      refine h.settle (settles_idle (.inr rfl) ?_ ?_ ?_ ?_) (by simp [Born, ha])
      all_goals simp [ha, Life.running, Life.frames, Life.entering, Life.held]
  | @enterNone t e fs ht hn hp =>
      refine h.settle (settles_walk h ht (fun _ => hn) ?_ (fun _ _ hc => hc) (fun _ _ hc => .inl hc) ?_
        (fun hfs => hfs)) (by simp [Born, ht])
      · intro c hc
        cases hc
        exact hp
      · have hch := h.chain t
        rwa [ht] at hch
  | enter ht hn => exact h.enter ht hn
  | pick ht hc hrest hsub hr => exact h.pick ht hc hrest hsub hr
  | @reap t o c rest fs ht hc =>
      refine h.settle (settles_walk h ht (fun he => by cases he) (fun _ he => by cases he) ?_ ?_ ?_
        (fun hfs => by cases hfs)) (by simp [Born, ht])
      · intro b p hb
        rw [carries_cons] at hb ⊢
        exact hb.imp (fun ⟨ho, hm⟩ => ⟨ho, List.mem_append_left _ (by simpa [Frame.handles] using hm)⟩) id
      · intro b p hb
        rw [carries_cons] at hb ⊢
        rcases hb with ⟨ho, hm⟩ | hb
        · simp only [Frame.handles, Option.toList_some, List.mem_append, List.mem_singleton] at hm
          rcases hm with hm | rfl
          · exact .inl (.inl ⟨ho, by simpa [Frame.handles] using hm⟩)
          · exact .inr (by rw [hc]; rfl)
        · exact .inl (.inr hb)
      · have hch := h.chain t
        rwa [ht] at hch
  | @pop t o fs ht =>
      refine h.settle (settles_walk h ht (fun he => by cases he) (fun _ he => by cases he) ?_ ?_ ?_
        (fun hfs => by cases hfs)) (by simp [Born, ht])
      · intro b p hb
        rw [carries_cons]
        exact .inr hb
      · intro b p hb
        rw [carries_cons] at hb
        rcases hb with ⟨-, hm⟩ | hb
        · simp [Frame.handles] at hm
        · exact .inl hb
      · have hch := h.chain t
        rw [ht] at hch
        exact hch.2
  | finish ht =>
      refine h.settle (settles_end h (.inl rfl) ?_ ?_ ?_ (.inr ?_)) (by simp [Born, ht])
      · simp [ht, Life.running]
      · simp [ht, Life.held]
      · simp [ht, Life.frames]
      · rintro (⟨_, hb⟩ | hb) <;> rw [ht] at hb <;> cases hb
  | complete ha =>
      refine h.settle (settles_end h (.inr rfl) ?_ ?_ ?_ (.inr ?_)) (by simp [Born, ha])
      · simp [ha, Life.running]
      · simp [ha, Life.held]
      · simp [ha, Life.frames]
      · rintro (⟨_, hb⟩ | hb) <;> rw [ha] at hb <;> cases hb
  | drop hab hrun =>
      obtain ⟨hheld, hframes⟩ := h.aborted_released _ hab
      exact h.settle (settles_end h (.inr rfl) hrun hheld hframes (.inl ⟨rfl, hab⟩))
        (born_of_running s hrun)

end Silo.Lib.TaskTree.Tree
