import Silo.Lib.FamilyLedger

namespace Silo.Lib

variable {ρ : Type}

namespace Family

variable {limit cap a b c : Nat} {p : Post ρ} {v w : Family ρ}

theorem loose_of_kids (h : c ∈ v.kids b) : v.Loose c :=
  ⟨b, .inl h⟩

theorem Ledger.drifts_birth (h : Ledger cap v) {d : Nat} (hp : v.post a = .spawning d) :
    Drifts v ((v.bear a d).setPost a (.inserting d)) := by
  have hda : d ≠ a := by
    rintro rfl
    have := h.spawning d d hp
    rw [hp] at this
    cases this
  refine ⟨?_, ?_⟩
  · rintro c ⟨b, hk | hk⟩
    · exact .inl ⟨b, .inl (by rw [← kids_entry v a]; exact hk)⟩
    · by_cases hb : b = a
      · rw [hb, setPost_post_self] at hk
        cases List.mem_singleton.mp hk
        exact .inr ⟨by simp [setPost, bear], by rw [setPost_post_of_ne _ _ hda]; simp [bear]⟩
      · rw [setPost_post_of_ne _ _ hb] at hk
        by_cases hbd : b = d
        · rw [hbd] at hk
          simp [bear, Post.loose] at hk
        · exact .inl ⟨b, .inr (by simpa [bear, hbd] using hk)⟩
  · intro c hab
    by_cases hcd : c = d
    · rw [hcd] at hab
      simp [setPost, bear] at hab
    · exact .inl (by simpa [setPost, bear, hcd] using hab)

theorem drifts_insert {d : Nat} (hp : v.post a = .inserting d ∧ p = .plain ∨ v.post a = .returning d ∧ p = .leaving) :
    Drifts v ((v.insert a d).setPost a p) := by
  have hl := looked v a
  have hloose : d ∈ (v.post a).loose := by
    rcases hp with ⟨hp, -⟩ | ⟨hp, -⟩ <;> rw [hp] <;> exact List.mem_singleton_self d
  refine drifts_setPost (by rw [insert, setPool, hl.post]) ?_ ?_ (by rw [insert, setPool, hl.aborted])
  · intro b c hk
    rw [kids_insert] at hk
    split at hk
    · rcases List.mem_append.mp hk with hk | hk
      · exact ⟨a, .inl hk⟩
      · cases List.mem_singleton.mp hk
        exact ⟨a, .inr hloose⟩
    · exact ⟨b, .inl hk⟩
  · intro e he
    rcases hp with ⟨-, rfl⟩ | ⟨-, rfl⟩ <;> cases he

theorem drifts_collect {d : Nat} {pool : Pool} (hhas : v.pool a = some pool) (hmem : d ∈ pool.children) :
    Drifts v ((v.setPool a (some { pool with children := pool.children.filter (· ≠ d) })).setPost a
      (.joining d)) := by
  refine drifts_setPost rfl ?_ ?_ rfl
  · intro b c hk
    apply loose_of_kids (b := b)
    by_cases hb : b = a
    · rw [hb, kids, setPool_pool_self] at hk
      rw [hb, kids_some hhas]
      exact List.mem_of_mem_filter hk
    · rwa [kids_congr (setPool_pool_of_ne v _ hb)] at hk
  · intro c hcd
    cases List.mem_singleton.mp hcd
    exact ⟨a, .inl (by rw [kids_some hhas]; exact hmem)⟩

theorem drifts_enter {e : Nat} {frames : List (List Nat × Option Nat)} {pool : Pool}
    (hp : v.post a = .walking (some e) frames) (hhas : v.pool e = some pool) :
    Drifts v ((v.setPool e none).setPost a (.walking none ((pool.children, none) :: frames))) := by
  refine drifts_setPost rfl ?_ ?_ rfl
  · intro b c hk
    by_cases hb : b = e
    · rw [hb, kids, setPool_pool_self] at hk
      cases hk
    · rw [kids_congr (setPool_pool_of_ne v _ hb)] at hk
      exact loose_of_kids hk
  · intro d hd
    rcases List.mem_append.mp (show d ∈ pool.children ++ frames.flatMap Prod.fst from hd) with hd | hd
    · exact ⟨e, .inl (by rw [kids_some hhas]; exact hd)⟩
    · exact ⟨a, .inr (by rw [hp]; exact hd)⟩

/-- What is loose after a pick was loose before it, and it is not the child just aborted. -/
theorem Ledger.loose_pick (h : Ledger cap v) {d : Nat} {rest : List Nat} {frames : List (List Nat × Option Nat)}
    (hp : v.post a = .walking none ((rest, none) :: frames)) (hmem : d ∈ rest)
    (hc : Loose ({ v with aborted := Function.update v.aborted d true }.setPost a
      (.walking (some d) ((rest.filter (· ≠ d), some d) :: frames))) c) : v.Loose c ∧ c ≠ d := by
  have ha := h.lt (a := a) (by rw [hp]; rintro ⟨⟩)
  have hdh : d ∈ (v.post a).held := by
    rw [hp]
    simp [Post.held, hmem]
  have hnodup := h.held_nodup ha
  rw [hp] at hnodup
  have hframes : ∀ f ∈ frames, d ∉ f.1 := by
    intro f hf hdf
    simp only [Post.held, List.flatMap_cons, Option.toList_none, List.append_nil] at hnodup
    exact (List.disjoint_of_nodup_append hnodup) hmem
      (List.mem_flatMap.mpr ⟨f, hf, List.mem_append_left _ hdf⟩)
  obtain ⟨b, hc | hc⟩ := hc
  · refine ⟨⟨b, .inl hc⟩, ?_⟩
    rintro rfl
    have hba : b = a := h.owner_unique (h.owner_lt (mem_owns_of_kids hc)) ha (mem_owns_of_kids hc)
      (mem_owns_of_held hdh)
    rw [hba] at hc
    exact h.kids_disjoint hc hdh
  · by_cases hb : b = a
    · rw [hb, setPost_post_self] at hc
      simp only [Post.loose, List.flatMap_cons, List.mem_append, List.mem_filter, decide_eq_true_eq] at hc
      rcases hc with ⟨hc, hne⟩ | hc
      · exact ⟨⟨a, .inr (by rw [hp]; simp [Post.loose, hc])⟩, hne⟩
      · obtain ⟨f, hf, hcf⟩ := List.mem_flatMap.mp hc
        refine ⟨⟨a, .inr (by rw [hp]; exact List.mem_append_right _ hc)⟩, ?_⟩
        rintro rfl
        exact hframes f hf hcf
    · rw [setPost_post_of_ne _ _ hb] at hc
      refine ⟨⟨b, .inr hc⟩, ?_⟩
      rintro rfl
      have hcb : c ∈ (v.post b).held := Post.loose_subset_held _ hc
      exact hb (h.owner_unique (h.owner_lt (mem_owns_of_held hcb)) ha (mem_owns_of_held hcb)
        (mem_owns_of_held hdh))

theorem Ledger.drifts_pick (h : Ledger cap v) {d : Nat} {rest : List Nat} {frames : List (List Nat × Option Nat)}
    (hp : v.post a = .walking none ((rest, none) :: frames)) (hmem : d ∈ rest) :
    Drifts v ({ v with aborted := Function.update v.aborted d true }.setPost a
      (.walking (some d) ((rest.filter (· ≠ d), some d) :: frames))) := by
  refine ⟨fun c hc => .inl (h.loose_pick hp hmem hc).1, ?_⟩
  intro c hab
  by_cases hcd : c = d
  · subst hcd
    refine .inr ⟨⟨a, .inr ?_⟩, fun hl => (h.loose_pick hp hmem hl).2 rfl⟩
    rw [hp]
    simp [Post.loose, hmem]
  · exact .inl (by simpa [setPost, hcd] using hab)

theorem Ledger.drifts (h : Ledger cap v) (hs : Step limit v w) : Drifts v w := by
  cases hs with
  | @goes a p hg =>
      refine drifts_setPost rfl (fun _ _ => loose_of_kids) ?_ rfl
      intro d hd
      rw [hg.loose_eq] at hd
      exact ⟨a, .inr hd⟩
  | again | skip | choose | missing | spawn | hear | drop | complete =>
      exact drifts_bare rfl (fun _ => rfl) rfl rfl
  | @joined a d p hp hdone hafter =>
      refine drifts_bare rfl (fun _ => rfl) ?_ rfl
      rcases hafter with rfl | rfl <;> rfl
  | birth hp => exact h.drifts_birth hp
  | insert hp => exact drifts_insert hp
  | @take a chan pool hp hhas =>
      refine drifts_bare rfl ?_ rfl rfl
      intro b
      by_cases hb : b = a
      · rw [hb, kids, setPool_pool_self, kids_some hhas]
        rfl
      · exact kids_congr (setPool_pool_of_ne v _ hb)
  | @put a chan heard hp =>
      refine drifts_bare rfl ?_ ?_ rfl
      · intro b
        by_cases hb : b = a
        · rw [hb, kids, setPool_pool_self, Option.map_map]
          rfl
        · exact kids_congr (setPool_pool_of_ne v _ hb)
      · cases heard <;> rfl
  | collect hp hhas hmem => exact drifts_collect hhas hmem
  | @nothing a e frames hp hempty =>
      refine drifts_setPost rfl (fun _ _ => loose_of_kids) ?_ rfl
      intro d hd
      exact ⟨a, .inr (by rw [hp]; exact hd)⟩
  | enter hp hhas => exact drifts_enter hp hhas
  | @reap a d rest frames r hp =>
      refine drifts_setPost rfl (fun _ _ => loose_of_kids) ?_ rfl
      intro d hd
      exact ⟨a, .inr (by rw [hp]; exact hd)⟩
  | pick hp hmem => exact h.drifts_pick hp hmem

theorem Acts.born (h : Acts v w a) (hb : v.post b ≠ .unborn) : w.post b ≠ .unborn := by
  by_cases hba : b = a
  · rw [hba]
    exact h.still
  · rcases h.others b hba with heq | ⟨-, hplain⟩
    · rw [heq]
      exact hb
    · rw [hplain]
      exact nofun

theorem Ledger.step (h : Ledger cap v) (hs : Step limit v w) : Ledger cap w := by
  obtain ⟨hnodup, hbelow, hpermits⟩ := h.toll (h.step_toll hs)
  obtain ⟨a, ha⟩ := h.acts hs
  have hlt := h.lt ha.was
  have hspawned : ∀ {b c}, v.post b = .spawning c → b < v.counter ∧ c ∈ v.owns b := by
    intro b c hb
    have hmem : c ∈ v.owns b := mem_owns_of_held (by rw [hb]; exact List.mem_singleton_self c)
    exact ⟨h.owner_lt hmem, hmem⟩
  have hunborn : ∀ {b}, v.post b = .unborn → v.post a ≠ .spawning b → w.post b = .unborn := by
    intro b hb hns
    have hne : b ≠ a := by
      rintro rfl
      exact ha.was hb
    rcases ha.others b hne with heq | ⟨hsp, -⟩
    · rw [heq, hb]
    · exact absurd hsp hns
  have hd := h.drifts hs
  refine ⟨Nat.lt_of_lt_of_le h.root ha.counter, ?_, ?_, ?_, hnodup, hbelow, hpermits, ?_, ?_⟩
  · intro b hb
    have hvb := Nat.le_trans ha.counter hb
    apply hunborn (h.fresh b hvb)
    intro hsp
    have := (h.below b (Multiset.mem_of_le (owns_le_handles hlt) (hspawned hsp).2)).2
    omega
  · intro b hb
    have hne : b ≠ a := by
      rintro rfl
      exact ha.still hb
    rcases ha.others b hne with heq | ⟨-, hplain⟩
    · exact ha.pools b hne (h.bare b (heq.symm.trans hb))
    · rw [hplain] at hb
      cases hb
  · intro b c hb
    by_cases hba : b = a
    · rw [hba] at hb
      have hc := ha.spawns c hb
      refine hunborn (h.fresh c (Nat.le_of_eq hc.symm)) ?_
      intro hsp
      have := (h.below c (Multiset.mem_of_le (owns_le_handles hlt) (hspawned hsp).2)).2
      omega
    · rcases ha.others b hba with heq | ⟨-, hplain⟩
      · rw [heq] at hb
        apply hunborn (h.spawning b c hb)
        intro hsp
        exact hba (h.owner_unique (hspawned hb).1 hlt (hspawned hb).2 (hspawned hsp).2)
      · rw [hplain] at hb
        cases hb
  · intro c hc
    rcases hd.loose c hc with hold | hnew
    · obtain ⟨hfree, hborn⟩ := h.loose c hold
      refine ⟨?_, ha.born hborn⟩
      by_contra hab
      rcases hd.aborted c (by simpa using hab) with hab | ⟨-, hnot⟩
      · rw [hfree] at hab
        cases hab
      · exact hnot hc
    · exact hnew
  · intro c hab
    rcases hd.aborted c hab with hold | ⟨hloose, -⟩
    · exact ha.born (h.awake c hold)
    · exact ha.born (h.loose c hloose).2

theorem post_setPost_cases {q : Post ρ} (hpost : w.post = v.post) (hb : (w.setPost a p).post b = q) :
    b = a ∧ p = q ∨ v.post b = q := by
  by_cases hba : b = a
  · subst hba
    rw [setPost_post_self] at hb
    exact .inl ⟨rfl, hb⟩
  · rw [setPost_post_of_ne _ _ hba, hpost] at hb
    exact .inr hb

/-- No task is deeper than `limit`, and none at the limit is about to have a
child. -/
structure Shallow (limit : Nat) (v : Family ρ) : Prop where
  depth : ∀ a, v.depth a ≤ limit
  spawning : ∀ a c, v.post a = .spawning c → v.depth a < limit

theorem Shallow.moved (h : Shallow limit v) (hpost : w.post = v.post) (hdepth : w.depth = v.depth)
    (hp : ∀ c, p = .spawning c → v.depth a < limit) : Shallow limit (w.setPost a p) := by
  have hd : (w.setPost a p).depth = v.depth := hdepth
  refine ⟨fun b => by rw [hd]; exact h.depth b, ?_⟩
  intro b c hb
  rw [hd]
  rcases post_setPost_cases hpost hb with ⟨rfl, rfl⟩ | hb
  · exact hp c rfl
  · exact h.spawning b c hb

theorem Shallow.step (h : Shallow limit v) (hs : Step limit v w) : Shallow limit w := by
  cases hs with
  | goes hg => exact h.moved rfl rfl fun c hc => absurd hc hg.spawning
  | spawn _ hshallow => exact h.moved rfl rfl fun _ _ => hshallow
  | again | skip | choose | take | missing | hear | collect | nothing | enter | pick | reap | complete
  | drop => exact h.moved rfl rfl nofun
  | @put a chan heard => exact h.moved rfl rfl (by cases heard <;> exact nofun)
  | joined _ _ hafter => exact h.moved rfl rfl (by rcases hafter with rfl | rfl <;> exact nofun)
  | @insert a c p hp =>
      have hdepth : (v.insert a c).depth = v.depth := by
        rcases entry_cases v a with ⟨pool, -, heq⟩ | ⟨-, heq⟩ <;> rw [insert, heq] <;> rfl
      refine h.moved (by rw [insert, setPool, (looked v a).post]) hdepth ?_
      rcases hp with ⟨-, rfl⟩ | ⟨-, rfl⟩ <;> exact nofun
  | @birth a c hp =>
      refine ⟨?_, ?_⟩
      · intro b
        by_cases hb : b = c
        · subst hb
          have := h.spawning a b hp
          simp only [setPost, bear, Function.update_self]
          omega
        · simpa [setPost, bear, hb] using h.depth b
      · intro b d hb
        by_cases hba : b = a
        · rw [hba, setPost_post_self] at hb
          cases hb
        · rw [setPost_post_of_ne _ _ hba] at hb
          by_cases hbc : b = c
          · rw [hbc] at hb
            simp [bear] at hb
          · simpa [setPost, bear, hbc] using h.spawning b d (by simpa [bear, hbc] using hb)

structure Rooted (v : Family ρ) : Prop where
  parent : ∀ a, v.post a ≠ .unborn → a ≠ 0 → ∃ p, v.parent a = some p ∧ p < a ∧ v.post p ≠ .unborn
  spawning : ∀ a c, v.post a = .spawning c → a < c

theorem Rooted.moved (h : Rooted v) (hpost : w.post = v.post) (hparent : w.parent = v.parent)
    (was : v.post a ≠ .unborn) (still : p ≠ .unborn) (hp : ∀ c, p = .spawning c → a < c) :
    Rooted (w.setPost a p) := by
  have hborn : ∀ b, (w.setPost a p).post b ≠ .unborn ↔ v.post b ≠ .unborn := by
    intro b
    by_cases hba : b = a
    · subst hba
      rw [setPost_post_self]
      exact iff_of_true still was
    · rw [setPost_post_of_ne _ _ hba, hpost]
  have hpar : (w.setPost a p).parent = v.parent := hparent
  refine ⟨?_, ?_⟩
  · intro b hb hne
    obtain ⟨q, hq, hlt, hqb⟩ := h.parent b ((hborn b).mp hb) hne
    exact ⟨q, by rw [hpar]; exact hq, hlt, (hborn q).mpr hqb⟩
  · intro b c hb
    rcases post_setPost_cases hpost hb with ⟨rfl, rfl⟩ | hb
    · exact hp c rfl
    · exact h.spawning b c hb

theorem Rooted.step (h : Rooted v) (hl : Ledger cap v) (hs : Step limit v w) : Rooted w := by
  cases hs with
  | goes hg => exact h.moved rfl rfl hg.born.1 hg.born.2 fun c hc => absurd hc hg.spawning
  | @spawn a hp =>
      have was : v.post a ≠ .unborn := by rw [hp]; rintro ⟨⟩
      refine h.moved rfl rfl was (by rintro ⟨⟩) ?_
      intro c hc
      cases hc
      exact hl.lt was
  | again hp | take hp | missing hp | hear hp | collect hp | nothing hp | enter hp | pick hp | reap hp
  | complete hp => exact h.moved rfl rfl (by rw [hp]; rintro ⟨⟩) (by rintro ⟨⟩) (by rintro _ ⟨⟩)
  | skip hp | choose hp =>
      exact h.moved rfl rfl (by rcases hp with hp | hp <;> rw [hp] <;> rintro ⟨⟩) (by rintro ⟨⟩) (by rintro _ ⟨⟩)
  | @put a chan heard hp =>
      exact h.moved rfl rfl (by rw [hp]; rintro ⟨⟩) (by cases heard <;> rintro ⟨⟩)
        (by cases heard <;> rintro _ ⟨⟩)
  | joined hp _ hafter =>
      exact h.moved rfl rfl (by rw [hp]; rintro ⟨⟩) (by rcases hafter with rfl | rfl <;> rintro ⟨⟩)
        (by rcases hafter with rfl | rfl <;> rintro _ ⟨⟩)
  | @drop a _ hthere =>
      refine h.moved rfl rfl ?_ (by rintro ⟨⟩) (by rintro _ ⟨⟩)
      intro hu
      rw [hu] at hthere
      cases hthere
  | @insert a c p hp =>
      have hparent : (v.insert a c).parent = v.parent := by
        rcases entry_cases v a with ⟨pool, -, heq⟩ | ⟨-, heq⟩ <;> rw [insert, heq] <;> rfl
      have hpost : (v.insert a c).post = v.post := by rw [insert, setPool, (looked v a).post]
      rcases hp with ⟨hp, rfl⟩ | ⟨hp, rfl⟩
      · exact h.moved hpost hparent (by rw [hp]; rintro ⟨⟩) (by rintro ⟨⟩) (by rintro _ ⟨⟩)
      · exact h.moved hpost hparent (by rw [hp]; rintro ⟨⟩) (by rintro ⟨⟩) (by rintro _ ⟨⟩)
  | @birth a c hp =>
      have hac := h.spawning a c hp
      have was : v.post a ≠ .unborn := by rw [hp]; rintro ⟨⟩
      have hborn : ∀ b, v.post b ≠ .unborn → ((v.bear a c).setPost a (.inserting c)).post b ≠ .unborn := by
        intro b hb
        by_cases hba : b = a
        · rw [hba, setPost_post_self]
          rintro ⟨⟩
        · rw [setPost_post_of_ne _ _ hba]
          by_cases hbc : b = c
          · rw [hbc]
            simp [bear]
          · simpa [bear, hbc] using hb
      refine ⟨?_, ?_⟩
      · intro b hb hne
        by_cases hbc : b = c
        · subst hbc
          exact ⟨a, by simp [setPost, bear], hac, hborn a was⟩
        · have hold : v.post b ≠ .unborn := by
            by_cases hba : b = a
            · rw [hba]
              exact was
            · rw [setPost_post_of_ne _ _ hba] at hb
              simpa [bear, hbc] using hb
          obtain ⟨q, hq, hlt, hqb⟩ := h.parent b hold hne
          exact ⟨q, by simpa [setPost, bear, hbc] using hq, hlt, hborn q hqb⟩
      · intro b d hb
        by_cases hba : b = a
        · rw [hba, setPost_post_self] at hb
          cases hb
        · rw [setPost_post_of_ne _ _ hba] at hb
          by_cases hbc : b = c
          · rw [hbc] at hb
            simp [bear] at hb
          · exact h.spawning b d (by simpa [bear, hbc] using hb)

theorem Ledger.gone_step (h : Ledger cap v) (hs : Step limit v w) (hlt : c < v.counter)
    (hgone : c ∉ v.handles) : c < w.counter ∧ c ∉ w.handles := by
  cases h.step_toll hs with
  | freed x _ hhandles _ hcounter =>
      rw [hcounter]
      refine ⟨hlt, fun hc => hgone ?_⟩
      rw [← hhandles]
      exact Multiset.mem_add.mpr (.inl hc)
  | charged hhandles _ hcounter =>
      rw [hcounter, hhandles]
      refine ⟨Nat.lt_succ_of_lt hlt, ?_⟩
      intro hc
      rcases Multiset.mem_add.mp hc with hc | hc
      · exact hgone hc
      · have := Multiset.mem_singleton.mp hc
        omega

end Family

end Silo.Lib
