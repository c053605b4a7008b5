import Silo.Lib.FamilySignals

namespace Silo.Lib

variable {ρ : Type}

namespace Family

variable {limit cap a b c : Nat} {p : Post ρ} {v w u : Family ρ}

theorem hushed_refl (v : Family ρ) : Hushed v v := ⟨rfl, rfl, rfl, rfl, Nat.le_refl _⟩

theorem placed_goes (h : v.Wired a) (hg : Post.Goes a (v.post a) p) : Placed v a p := by
  have hkept : (v.post a).rx = none → v.post a ≠ .dropped → ∀ pool, v.pool a = some pool → pool.rx = none →
      p = .dropped := fun hrx hdropped pool hpool hnone => h.parked hrx hdropped hpool hnone
  generalize hq : v.post a = q at hg hkept
  cases hg with
  | leave | quit | left =>
      refine ⟨by rw [hq]; rfl, rfl, hkept rfl nofun, ?_, ?_, nofun, nofun, ?_, nofun, nofun⟩
      · intro e frames he
        cases he
        try rfl
      · intro hc
        simp [Post.closed] at hc
      · intro _ c _ _
        simp [Post.minds]
  | giveUp =>
      refine ⟨by rw [hq]; rfl, rfl, hkept rfl nofun, nofun, nofun, nofun, ?_, ?_, nofun, nofun⟩
      · intro c hc
        rw [hq]
        exact hc
      · intro _ c _ hm
        rw [hq] at hm
        cases hm
  | pop | back | finish =>
      refine ⟨by rw [hq]; rfl, rfl, hkept rfl nofun, nofun, ?_, nofun, nofun, ?_, nofun, nofun⟩
      · intro _
        exact h.closed (by rw [hq]; rfl)
      · intro _ c _ hm
        rw [hq] at hm
        cases hm

theorem placed_plain (h : v.Wired a) (hrx : (v.post a).rx = none) (hdropped : v.post a ≠ .dropped)
    (hsig : (v.post a).signalled = false) (hp : p = .plain ∨ p = .leaving)
    (hminds : ∀ c ∈ v.kids a, (v.post a).minds a c = false) : Placed v a p := by
  refine ⟨?_, ?_, fun pool hpool hnone => h.parked hrx hdropped hpool hnone, ?_, ?_, ?_, ?_, ?_, ?_,
    ?_⟩
  · rw [hsig]
    rcases hp with rfl | rfl <;> rfl
  · rcases hp with rfl | rfl <;> rfl
  · rcases hp with rfl | rfl <;> exact nofun
  · rcases hp with rfl | rfl <;> exact nofun
  · rcases hp with rfl | rfl <;> exact nofun
  · rcases hp with rfl | rfl <;> exact nofun
  · intro _ c hc hm
    rw [hminds c hc] at hm
    cases hm
  · rcases hp with rfl | rfl <;> exact nofun
  · rcases hp with rfl | rfl <;> exact nofun

theorem hushed_setPool (v : Family ρ) (e : Nat) (pool : Option Pool) : Hushed v (v.setPool e pool) :=
  ⟨rfl, rfl, rfl, rfl, Nat.le_refl _⟩

theorem hushed_entry (v : Family ρ) (a : Nat) : Hushed v (v.entry a).1 := by
  rcases entry_cases v a with ⟨pool, -, heq⟩ | ⟨-, heq⟩
  · rw [heq]
    exact hushed_refl v
  · rw [heq]
    exact ⟨rfl, rfl, rfl, rfl, Nat.le_succ _⟩

section Pools

variable (h : Signals v)

include h

theorem signals_take {chan : Nat} {pool : Pool} (hp : v.post a = .plain) (hhas : v.pool a = some pool)
    (hrx : pool.rx = some chan) :
    Signals ((v.setPool a (some { pool with rx := none })).setPost a (.receiving chan none)) := by
  have hself := h.wired a
  have huses : v.Uses a pool.chan := uses_chan hhas
  refine h.pooled (hushed_setPool v a _) (setPool_pool_self v a _) (fun b hb => setPool_pool_of_ne v _ hb)
    ⟨by rw [hp]; rfl, hself.below _ huses, .inl huses, ?_, fun _ => rfl, nofun, rfl, nofun,
      ?_, ?_, nofun, nofun⟩
  · rintro n (hn | hn)
    · cases hn
    · cases hn
      exact hself.chan pool chan hhas (.inl ⟨pool, hhas, .inr hrx⟩)
  · rintro hab c (hc | hc)
    · cases hc
    · exact hself.kids hab pool hhas c hc
  · intro hab c hc hsig
    refine .inr ((hself.unread hab pool hhas c hc hsig).resolve_left ?_)
    rw [hp]
    exact nofun

theorem signals_put {chan : Nat} {heard : Option Nat} (hp : v.post a = .receiving chan heard) :
    Signals ((v.setPool a ((v.pool a).map fun pool => { pool with rx := some chan })).setPost a
      (heard.elim .leaving .hearing)) := by
  have hself := h.wired a
  have hsig : ∀ q : Post ρ, q = heard.elim .leaving .hearing →
      q.signalled = false ∧ q.rx = none ∧ q.hand = [] ∧ (∀ e frames, q ≠ .walking e frames) ∧
        q.closed a = false ∧ (∀ c, q ≠ .inserting c) ∧ q.heard = heard ∧ q ≠ .dropped := by
    rintro q rfl
    cases heard <;> exact ⟨rfl, rfl, rfl, by rintro _ _ ⟨⟩, rfl, by rintro _ ⟨⟩, rfl, by rintro ⟨⟩⟩
  obtain ⟨hsignalled, hrx, hhand, hwalking, hclosed, hinserting, hheard, hdropped⟩ := hsig _ rfl
  have hminds : ∀ c, (v.post a).minds a c = true → (heard.elim .leaving .hearing : Post ρ).minds a c = true := by
    intro c hm
    rw [hp] at hm
    cases heard with
    | none => rfl
    | some d => exact hm
  cases hpool : v.pool a with
  | none =>
      have hsame : v.setPool a none = v := by
        rw [← hpool, setPool, Function.update_eq_self]
      rw [Option.map_none, hsame]
      refine h.placed (hushed_refl v) rfl ⟨by rw [hp, hsignalled]; rfl, hrx, ?_, ?_, fun _ => hpool, ?_, ?_,
        fun _ c _ => hminds c, hinserting, fun hd => absurd hd hdropped⟩
      · intro pool hsome
        rw [hpool] at hsome
        cases hsome
      · intro e frames hw
        exact absurd hw (hwalking _ _)
      · intro c hc
        rw [hheard] at hc
        exact hself.heard c (by rw [hp]; exact hc)
      · intro c hc
        rw [hhand] at hc
        cases hc
  | some pool =>
      have hchan : chan = pool.chan := hself.chan pool chan hpool (.inr (by rw [hp]; rfl))
      have huses : v.Uses a pool.chan := uses_chan hpool
      refine h.pooled (hushed_setPool v a _) (setPool_pool_self v a _) (fun b hb => setPool_pool_of_ne v _ hb)
        ⟨by rw [hp, hsignalled]; rfl, hself.below _ huses, .inl huses, ?_, by rintro ⟨⟩, hwalking,
          hclosed, ?_, ?_, ?_, hinserting, hdropped⟩
      · rintro n (hn | hn)
        · cases hn
          exact hchan
        · rw [hrx] at hn
          cases hn
      · intro c hc
        rw [hheard] at hc
        exact hself.heard c (by rw [hp]; exact hc)
      · rintro hab c (hc | hc)
        · rw [hhand] at hc
          cases hc
        · exact hself.kids hab pool hpool c hc
      · intro hab c hc hs
        exact (hself.unread hab pool hpool c hc hs).imp_left (hminds c)

theorem signals_collect {pool : Pool} (hp : v.post a = .chosen c) (hhas : v.pool a = some pool)
    (hmem : c ∈ pool.children) :
    Signals ((v.setPool a (some { pool with children := pool.children.filter (· ≠ c) })).setPost a
      (.joining c)) := by
  have hself := h.wired a
  have huses : v.Uses a pool.chan := uses_chan hhas
  refine h.pooled (hushed_setPool v a _) (setPool_pool_self v a _) (fun b hb => setPool_pool_of_ne v _ hb)
    ⟨by rw [hp]; rfl, hself.below _ huses, .inl huses, ?_, ?_, nofun, rfl, nofun,
      ?_, ?_, nofun, nofun⟩
  · rintro n (hn | hn)
    · exact hself.chan pool n hhas (.inl ⟨pool, hhas, .inr hn⟩)
    · cases hn
  · intro hnone
    exact hself.parked (by rw [hp]; rfl) (by rw [hp]; exact nofun) hhas hnone
  · rintro hab d (hd | hd)
    · cases List.mem_singleton.mp hd
      exact hself.kids hab pool hhas c hmem
    · exact hself.kids hab pool hhas d (List.mem_of_mem_filter hd)
  · intro hab d hd hsig
    obtain ⟨hd, hne⟩ := List.mem_filter.mp hd
    refine .inr ((hself.unread hab pool hhas d hd hsig).resolve_left ?_)
    rw [hp, Post.minds, decide_eq_true_eq]
    rintro rfl
    simp at hne

structure Found (v : Family ρ) (a : Nat) : Prop where
  below : (v.entry a).2.chan < (v.entry a).1.nextChan
  uses : v.Uses a (v.entry a).2.chan ∨ v.nextChan ≤ (v.entry a).2.chan
  rx : (v.post a).rx = none → v.post a ≠ .dropped → (v.entry a).2.rx = some (v.entry a).2.chan
  old : ∀ pool, v.pool a = some pool → (v.entry a).2 = pool
  new : v.pool a = none → (v.entry a).2.children = []

theorem found : Found v a := by
  have hself := h.wired a
  rcases entry_cases v a with ⟨pool, hpool, heq⟩ | ⟨hpool, heq⟩
  · constructor <;> simp only [heq]
    · exact hself.below _ (uses_chan hpool)
    · exact .inl (uses_chan hpool)
    · intro hrx hdropped
      cases hr : pool.rx with
      | none => exact hself.parked hrx hdropped hpool hr
      | some n => rw [hself.chan pool n hpool (.inl ⟨pool, hpool, .inr hr⟩)]
    · intro q hq
      exact Option.some.inj (hpool.symm.trans hq)
    · intro hnone
      rw [hpool] at hnone
      cases hnone
  · constructor <;> simp only [heq]
    · exact Nat.lt_succ_self _
    · exact .inr (Nat.le_refl _)
    · exact fun _ _ => trivial
    · intro q hq
      rw [hpool] at hq
      cases hq
    · exact fun _ => trivial

theorem signals_insert
    (hp : v.post a = .inserting c ∧ p = .plain ∨ v.post a = .returning c ∧ p = .leaving) :
    Signals ((v.insert a c).setPost a p) := by
  have hself := h.wired a
  have hf := found (a := a) h
  have hl := looked v a
  have hhand : c ∈ (v.post a).hand := by
    rcases hp with ⟨hp, -⟩ | ⟨hp, -⟩ <;> rw [hp] <;> exact List.mem_singleton_self c
  obtain ⟨hrx, hdropped, hsig, hnone⟩ : (v.post a).rx = none ∧ v.post a ≠ .dropped ∧
      (v.post a).signalled = false ∧ ∀ d, (v.post a).minds a d = false := by
    rcases hp with ⟨hp, -⟩ | ⟨hp, -⟩ <;> rw [hp] <;> exact ⟨rfl, by rintro ⟨⟩, rfl, fun _ => rfl⟩
  obtain ⟨hsig', hrx', hhand', hwalking, hclosed, hheard, hinserting, hthere⟩ : p.signalled = false ∧
      p.rx = none ∧ p.hand = [] ∧ (∀ e frames, p ≠ .walking e frames) ∧ p.closed a = false ∧
      p.heard = none ∧ (∀ d, p ≠ .inserting d) ∧ p ≠ .dropped := by
    rcases hp with ⟨-, rfl⟩ | ⟨-, rfl⟩ <;>
      exact ⟨rfl, rfl, rfl, by rintro _ _ ⟨⟩, rfl, rfl, by rintro _ ⟨⟩, by rintro ⟨⟩⟩
  have hu : Hushed v (v.insert a c) := by
    have := hushed_entry v a
    exact ⟨this.post, this.aborted, this.signal, this.chans, this.nextChan⟩
  refine h.pooled hu (setPool_pool_self _ a _) ?_
    ⟨by rw [hsig, hsig'], hf.below, hf.uses, ?_, ?_, hwalking, hclosed, ?_, ?_, ?_, hinserting,
      hthere⟩
  · intro b hb
    rw [insert, setPool_pool_of_ne _ _ hb, pool_entry_of_none v hb]
  · rintro n (hn | hn)
    · exact Option.some.inj (hn.symm.trans (hf.rx hrx hdropped))
    · rw [hrx'] at hn
      cases hn
  · intro hr
    cases (hf.rx hrx hdropped).symm.trans hr
  · intro d hd
    rw [hheard] at hd
    cases hd
  · -- an unaborted task still has the pool that its child was told of
    intro hab d hd
    obtain ⟨pool, hpool, hsignal⟩ := hself.hand hab c hhand
    rw [hhand', hf.old pool hpool] at hd
    rw [hf.old pool hpool]
    rcases hd with hd | hd
    · cases hd
    · rcases List.mem_append.mp hd with hd | hd
      · exact hself.kids hab pool hpool d hd
      · cases List.mem_singleton.mp hd
        exact hsignal
  · intro hab d hd hs
    obtain ⟨pool, hpool, hsignal⟩ := hself.hand hab c hhand
    rw [hf.old pool hpool] at hd ⊢
    rcases List.mem_append.mp hd with hd | hd
    · refine .inr ((hself.unread hab pool hpool d hd hs).resolve_left ?_)
      rw [hnone]
      rintro ⟨⟩
    · cases List.mem_singleton.mp hd
      rcases hp with ⟨hp, -⟩ | ⟨-, rfl⟩
      · exact .inr (hself.newborn hab pool c hp hpool hs)
      · exact .inl rfl

theorem signals_enter {e : Nat} {frames : List (List Nat × Option Nat)} {pool : Pool}
    (hp : v.post a = .walking (some e) frames) :
    Signals ((v.setPool e none).setPost a (.walking none ((pool.children, none) :: frames))) := by
  have hself := h.wired a
  have hgone : (v.setPool e none).pool a = none := by
    by_cases hea : e = a
    · rw [hea, setPool_pool_self]
    · rw [setPool_pool_of_ne v _ (Ne.symm hea)]
      apply hself.closed
      rw [hp]
      simpa [Post.closed] using hea
  apply h.hushed (hushed_setPool v e none) (by rw [hp]; rfl)
  · intro b hb
    by_cases hbe : b = e
    · rw [hbe, setPool_pool_self]
      rcases hself.entering e frames hp with heq | hab
      · exact absurd (hbe.trans heq) hb
      · exact .inr ⟨rfl, hab⟩
    · exact .inl (setPool_pool_of_ne v _ hbe)
  · intro n hn
    rcases hn with ⟨q, hq, -⟩ | hrx
    · cases hq.symm.trans hgone
    · rw [setPost_post_self] at hrx
      cases hrx
  · refine wired_of_none hgone (by rw [setPost_post_self]; rfl) ?_ (by rw [setPost_post_self]; rfl)
      (by rw [setPost_post_self]; rfl) (by rw [setPost_post_self]; exact nofun)
    intro d fs hw
    rw [setPost_post_self] at hw
    cases hw

/-- What a receive changes: the task has heard of `c`, whose message is the one
that is read. -/
structure Receives (v w : Family ρ) (a chan c : Nat) : Prop where
  self : w.post a = .receiving chan (some c)
  posts : ∀ d, d ≠ a → w.post d = v.post d
  signalled : ∀ d, (w.post d).signalled = (v.post d).signalled
  uses : ∀ n, w.Uses a n → v.Uses a n
  back : ∀ n d, d ∈ w.chans n → d ∈ v.chans n
  kept : ∀ n d, n ≠ chan ∨ d ≠ c → d ∈ v.chans n → d ∈ w.chans n

omit h in
theorem receives {chan : Nat} {rest : List Nat} (hp : v.post a = .receiving chan none)
    (hunread : v.chans chan = c :: rest) :
    Receives v ({ v with chans := Function.update v.chans chan rest }.setPost a
      (.receiving chan (some c))) a chan c := by
  set w := { v with chans := Function.update v.chans chan rest }.setPost a (.receiving chan (some c)) with hw
  have hself : w.post a = .receiving chan (some c) := setPost_post_self _ _ _
  have hposts : ∀ d, d ≠ a → w.post d = v.post d := fun d hd => setPost_post_of_ne _ _ hd
  have hchans : w.chans = Function.update v.chans chan rest := rfl
  exact {
    self := hself
    posts := hposts
    signalled := by
      intro d
      by_cases hd : d = a
      · rw [hd, hself, hp]
        rfl
      · rw [hposts d hd]
    uses := by
      rintro n (hn | hn)
      · exact .inl hn
      · rw [hself] at hn
        exact .inr (by rw [hp]; exact hn)
    back := by
      intro n d hd
      rw [hchans] at hd
      by_cases hn : n = chan
      · subst hn
        rw [Function.update_self] at hd
        rw [hunread]
        exact List.mem_cons_of_mem c hd
      · rw [Function.update_of_ne hn] at hd
        exact hd
    kept := by
      intro n d hne hd
      rw [hchans]
      by_cases hn : n = chan
      · subst hn
        rw [hunread] at hd
        rw [Function.update_self]
        exact (List.mem_cons.mp hd).resolve_left (hne.resolve_left fun hnn => hnn rfl)
      · rw [Function.update_of_ne hn]
        exact hd }

theorem signals_hear {chan : Nat} {rest : List Nat} (hp : v.post a = .receiving chan none)
    (hunread : v.chans chan = c :: rest) :
    Signals ({ v with chans := Function.update v.chans chan rest }.setPost a
      (.receiving chan (some c))) := by
  have hself := h.wired a
  have huses : v.Uses a chan := .inr (by rw [hp]; rfl)
  have hr := receives hp hunread
  refine h.step_of ⟨fun _ hd => hd, fun d hd => by rw [hr.signalled]; exact hd, ?_, Nat.le_refl _⟩ ?_ ?_
    (fun n hn => .inl (hr.uses n hn)) ?_
  · intro d hd
    rw [hr.signalled] at hd
    exact .inl hd
  · intro b hb
    refine .inl ⟨hr.posts b hb, .inl rfl, fun _ _ => rfl, ?_⟩
    intro n d hn hd
    refine hr.kept n d (.inl ?_) hd
    rintro rfl
    exact hb (h.unique b a _ hn huses)
  · exact {
      below := fun n hn => hself.below n (hr.uses n hn)
      chan := fun pool n hpool hn => hself.chan pool n hpool (hr.uses n hn)
      rx := fun _ _ _ => .inl (by rw [hr.self]; rfl)
      entering := by
        intro e frames hw
        rw [hr.self] at hw
        cases hw
      closed := by
        intro hc
        rw [hr.self] at hc
        cases hc
      heard := by
        intro d hd
        rw [hr.self] at hd
        cases hd
        rw [hr.signalled]
        exact h.wrote chan c (by rw [hunread]; exact List.mem_cons_self ..)
      hand := by
        intro _ d hd
        rw [hr.self] at hd
        cases hd
      kids := hself.kids
      unread := by
        intro hab pool hpool d hd hs
        rw [hr.signalled] at hs
        rw [hr.self]
        by_cases hdc : d = c
        · exact .inl (by simp [Post.minds, hdc])
        · refine .inr (hr.kept _ d (.inr hdc) ((hself.unread hab pool hpool d hd hs).resolve_left ?_))
          rw [hp]
          exact nofun
      newborn := by
        intro _ pool d hi
        rw [hr.self] at hi
        cases hi
      felled := by
        intro hd
        rw [hr.self] at hd
        cases hd }
  · intro n d hd
    rw [hr.signalled]
    exact h.wrote n d (hr.back n d hd)

theorem signals_complete {r : ρ} (hp : v.post a = .returned) :
    Signals ({ v.announce a r with
      chans := Function.update v.chans (v.signal a) (v.chans (v.signal a) ++ [a]) }.setPost a
      (.finishing r)) := by
  have hself := h.wired a
  have hnone : v.pool a = none := hself.closed (by rw [hp]; rfl)
  set w := { v.announce a r with
    chans := Function.update v.chans (v.signal a) (v.chans (v.signal a) ++ [a]) }.setPost a
    (.finishing r) with hw
  have hpost : w.post a = .finishing r := setPost_post_self _ _ _
  have hsignalled : ∀ d, d ≠ a → w.post d = v.post d := fun d hd => setPost_post_of_ne _ _ hd
  have hgrows : ∀ n d, d ∈ v.chans n → d ∈ w.chans n := by
    intro n d hd
    by_cases hn : n = v.signal a
    · subst hn
      simp only [hw, setPost, Function.update_self]
      exact List.mem_append_left _ hd
    · simpa [hw, setPost, hn] using hd
  refine h.step_of (a := a) ⟨fun _ hd => hd, ?_, ?_, Nat.le_refl _⟩ ?_ ?_ ?_ ?_
  · intro d hd
    by_cases hda : d = a
    · rw [hda, hpost]
      rfl
    · rw [hsignalled d hda]
      exact hd
  · intro d hd
    by_cases hda : d = a
    · subst hda
      exact .inr (by simp [hw, setPost, announce])
    · rw [hsignalled d hda] at hd
      exact .inl hd
  · intro b hb
    exact .inl ⟨hsignalled b hb, .inl rfl, fun _ _ => rfl, fun n d _ hd => hgrows n d hd⟩
  · refine wired_of_none hnone (by rw [hpost]; rfl) ?_ (by rw [hpost]; rfl) (by rw [hpost]; rfl)
      (by rw [hpost]; rintro ⟨⟩)
    intro e frames he
    rw [hpost] at he
    cases he
  · intro n hn
    exact absurd hn (uses_of_none (w := w) hnone (by rw [hpost]; rfl))
  · intro n d hd
    by_cases hda : d = a
    · rw [hda, hpost]
      rfl
    · rw [hsignalled d hda]
      apply h.wrote n d
      by_cases hn : n = v.signal a
      · subst hn
        simp only [hw, setPost, Function.update_self, List.mem_append, List.mem_singleton] at hd
        exact hd.resolve_right hda
      · simpa [hw, setPost, hn] using hd

theorem signals_pick {rest : List Nat} {frames : List (List Nat × Option Nat)}
    (hp : v.post a = .walking none ((rest, none) :: frames)) :
    Signals ({ v with aborted := Function.update v.aborted c true }.setPost a
      (.walking (some c) ((rest.filter (· ≠ c), some c) :: frames))) := by
  have hnone : v.pool a = none := (h.wired a).closed (by rw [hp]; rfl)
  set w := { v with aborted := Function.update v.aborted c true }.setPost a
    (.walking (some c) ((rest.filter (· ≠ c), some c) :: frames)) with hw
  have hpost : w.post a = .walking (some c) ((rest.filter (· ≠ c), some c) :: frames) :=
    setPost_post_self _ _ _
  have hothers : ∀ d, d ≠ a → w.post d = v.post d := fun d hd => setPost_post_of_ne _ _ hd
  have hsignalled : ∀ d, (w.post d).signalled = (v.post d).signalled := by
    intro d
    by_cases hd : d = a
    · rw [hd, hpost, hp]
      rfl
    · rw [hothers d hd]
  have haborted : ∀ d, v.aborted d = true → w.aborted d = true := by
    intro d hd
    by_cases hdc : d = c
    · simp [hw, setPost, hdc]
    · simpa [hw, setPost, hdc] using hd
  refine h.step_of (a := a) ⟨haborted, ?_, ?_, Nat.le_refl _⟩ ?_ ?_ ?_ ?_
  · intro d hd
    rw [hsignalled]
    exact hd
  · intro d hd
    rw [hsignalled] at hd
    exact .inl hd
  · intro b hb
    exact .inl ⟨hothers b hb, .inl rfl, fun _ _ => rfl, fun _ _ _ hd => hd⟩
  · refine wired_of_none hnone (by rw [hpost]; rfl) ?_ (by rw [hpost]; rfl) (by rw [hpost]; rfl)
      (by rw [hpost]; rintro ⟨⟩)
    intro e fs he
    rw [hpost] at he
    cases he
    exact .inr (by simp [hw, setPost])
  · intro n hn
    exact absurd hn (uses_of_none (w := w) hnone (by rw [hpost]; rfl))
  · intro n d hd
    rw [hsignalled]
    exact h.wrote n d hd

/-- What a birth changes: the parent holds the handle of the child, whose
channel is that of the pool found or made. -/
structure Born (v w : Family ρ) (a c : Nat) : Prop where
  parent : w.post a = .inserting c
  child : w.post c = .plain
  posts : ∀ d, d ≠ a → d ≠ c → w.post d = v.post d
  signalled : ∀ d, (w.post d).signalled = (v.post d).signalled
  told : w.signal c = (v.entry a).2.chan
  signal : ∀ d, d ≠ c → w.signal d = v.signal d
  aborted : w.aborted = v.aborted
  chans : w.chans = v.chans
  nextChan : w.nextChan = (v.entry a).1.nextChan
  pool : w.pool a = some (v.entry a).2
  pools : ∀ b, b ≠ a → w.pool b = v.pool b

omit h in
theorem born (hp : v.post a = .spawning c) (hunborn : v.post c = .unborn) (hfree : v.aborted c = false) :
    Born v ((v.bear a c).setPost a (.inserting c)) a c := by
  have hca : c ≠ a := by
    rintro rfl
    rw [hp] at hunborn
    cases hunborn
  set w := (v.bear a c).setPost a (.inserting c) with hw
  have hparent : w.post a = .inserting c := setPost_post_self _ _ _
  have hchild : w.post c = .plain := by
    rw [hw, setPost_post_of_ne _ _ hca]
    simp [bear]
  have hposts : ∀ d, d ≠ a → d ≠ c → w.post d = v.post d := by
    intro d hda hdc
    rw [hw, setPost_post_of_ne _ _ hda]
    simp [bear, hdc]
  exact {
    parent := hparent
    child := hchild
    posts := hposts
    signalled := by
      intro d
      by_cases hda : d = a
      · rw [hda, hparent, hp]
        rfl
      · by_cases hdc : d = c
        · rw [hdc, hchild, hunborn]
          rfl
        · rw [hposts d hda hdc]
    told := by simp [hw, setPost, bear]
    signal := by
      intro d hd
      simp [hw, setPost, bear, hd]
    aborted := by
      simp only [hw, setPost, bear, ← hfree]
      exact Function.update_eq_self ..
    chans := (hushed_entry v a).chans
    nextChan := rfl
    pool := by
      simp only [hw, setPost, bear]
      rw [(looked v a).pool, Function.update_self]
    pools := fun b hb => pool_entry_of_none v hb }

omit h in
theorem Ledger.others_child (hl : Ledger cap v) (hp : v.post a = .spawning c) {d : Nat}
    (hd : d ∈ v.kids b ∨ d ∈ (v.post b).hand) : d ≠ c := by
  rintro rfl
  have ha : a < v.counter := hl.lt (by rw [hp]; rintro ⟨⟩)
  have howned : d ∈ v.owns a := mem_owns_of_held (by rw [hp]; exact List.mem_singleton_self d)
  have hb : d ∈ v.owns b := hd.elim mem_owns_of_kids fun hd =>
    mem_owns_of_held (Post.loose_subset_held _ (Post.hand_subset_loose _ hd))
  have hba := hl.owner_unique (hl.owner_lt hb) ha hb howned
  subst hba
  rcases hd with hd | hd
  · exact hl.kids_disjoint hd (by rw [hp]; exact List.mem_singleton_self d)
  · rw [hp] at hd
    cases hd

theorem Born.uses (hb : Born v w a c) (hp : v.post a = .spawning c) {n : Nat} (hn : w.Uses a n) :
    n = (v.entry a).2.chan := by
  rcases hn with ⟨q, hq, hn⟩ | hn
  · cases hq.symm.trans hb.pool
    rcases hn with hn | hn
    · exact hn.symm
    · exact Option.some.inj (hn.symm.trans ((found h).rx (by rw [hp]; rfl) (by rw [hp]; rintro ⟨⟩)))
  · rw [hb.parent] at hn
    cases hn

/-- A child in the pool after a birth was in it before, so the pool is not new. -/
theorem Born.kid (hb : Born v w a c) {q : Pool} (hq : w.pool a = some q) {d : Nat} (hd : d ∈ q.children) :
    v.pool a = some q := by
  cases hq.symm.trans hb.pool
  cases hv : v.pool a with
  | none =>
      rw [(found h).new hv] at hd
      cases hd
  | some pool => rw [(found h).old pool hv]

theorem Born.wired (hb : Born v w a c) (hl : Ledger cap v) (hp : v.post a = .spawning c) : w.Wired a where
  below := by
    intro n hn
    rw [hb.uses h hp hn, hb.nextChan]
    exact (found h).below
  chan := by
    intro q n hq hn
    cases hq.symm.trans hb.pool
    exact hb.uses h hp hn
  rx := by
    intro q hq hnone
    cases hq.symm.trans hb.pool
    cases ((found h).rx (by rw [hp]; rfl) (by rw [hp]; rintro ⟨⟩)).symm.trans hnone
  entering := by
    intro e frames he
    rw [hb.parent] at he
    cases he
  closed := by
    intro hc
    rw [hb.parent] at hc
    cases hc
  heard := by
    intro d hd
    rw [hb.parent] at hd
    cases hd
  hand := by
    intro _ d hd
    rw [hb.parent] at hd
    cases List.mem_singleton.mp hd
    exact ⟨_, hb.pool, hb.told⟩
  kids := by
    intro hab q hq d hd
    have hpool := hb.kid h hq hd
    rw [hb.aborted] at hab
    rw [hb.signal d (hl.others_child (b := a) hp (.inl (by rw [kids_some hpool]; exact hd)))]
    exact (h.wired a).kids hab q hpool d hd
  unread := by
    intro hab q hq d hd hs
    have hpool := hb.kid h hq hd
    rw [hb.aborted] at hab
    rw [hb.signalled] at hs
    rw [hb.chans]
    refine .inr (((h.wired a).unread hab q hpool d hd hs).resolve_left ?_)
    rw [hp]
    rintro ⟨⟩
  newborn := by
    intro _ q d hi _ hs
    rw [hb.parent] at hi
    cases hi
    rw [hb.child] at hs
    cases hs
  felled := by
    intro hd
    rw [hb.parent] at hd
    cases hd

theorem signals_birth (hl : Ledger cap v) (hp : v.post a = .spawning c) :
    Signals ((v.bear a c).setPost a (.inserting c)) := by
  have hunborn := hl.spawning a c hp
  have hfree : v.aborted c = false := by
    by_contra hab
    exact hl.awake c (by simpa using hab) hunborn
  have hb := born hp hunborn hfree
  set w := (v.bear a c).setPost a (.inserting c)
  have hr : Ripple v w := {
    aborted := fun d hd => by rw [hb.aborted]; exact hd
    old := fun d hd => by rw [hb.signalled]; exact hd
    new := fun d hd => .inl (by rw [← hb.signalled]; exact hd)
    nextChan := by rw [hb.nextChan]; exact (hushed_entry v a).nextChan }
  refine h.step_of (a := a) hr ?_ (hb.wired h hl hp) ?_ ?_
  · intro b hba
    by_cases hbc : b = c
    · refine .inr ⟨by rw [hbc]; exact hb.child, ?_⟩
      rw [hb.pools b hba, hbc]
      exact hl.bare c hunborn
    · exact .inl {
        post := hb.posts b hba hbc
        pool := .inl (hb.pools b hba)
        signal := fun d hd => hb.signal d (hl.others_child hp hd)
        chans := fun n d _ hd => by rw [hb.chans]; exact hd }
  · intro n hn
    rw [hb.uses h hp hn]
    exact (found h).uses
  · intro n d hd
    rw [hb.chans] at hd
    rw [hb.signalled]
    exact h.wrote n d hd

end Pools

section Placing

variable {frames : List (List Nat × Option Nat)}

theorem placed_again (h : v.Wired a) (hp : v.post a = .returned) : Placed v a .plain := by
  refine placed_plain h (by rw [hp]; rfl) (by rw [hp]; rintro ⟨⟩) (by rw [hp]; rfl) (.inl rfl) ?_
  intro d _
  rw [hp]
  rfl

theorem placed_skip (h : v.Wired a) (hp : v.post a = .hearing c ∨ v.post a = .chosen c) (hout : c ∉ v.kids a) :
    Placed v a .plain := by
  refine placed_plain h ?_ ?_ ?_ (.inl rfl) ?_
  · rcases hp with hp | hp <;> rw [hp] <;> rfl
  · rcases hp with hp | hp <;> rw [hp] <;> rintro ⟨⟩
  · rcases hp with hp | hp <;> rw [hp] <;> rfl
  · intro d hd
    have hne : c ≠ d := by
      rintro rfl
      exact hout hd
    rcases hp with hp | hp <;> rw [hp] <;> simp [Post.minds, hne]

theorem placed_choose (h : v.Wired a) (hp : v.post a = .plain ∨ v.post a = .hearing c) : Placed v a (.chosen c) where
  signalled := by rcases hp with hp | hp <;> rw [hp] <;> rfl
  rx := rfl
  kept := by
    intro pool hpool hnone
    refine h.parked ?_ ?_ hpool hnone
    · rcases hp with hp | hp <;> rw [hp] <;> rfl
    · rcases hp with hp | hp <;> rw [hp] <;> rintro ⟨⟩
  entering := by rintro _ _ ⟨⟩
  closed := by rintro ⟨⟩
  heard := by rintro _ ⟨⟩
  hand := by rintro _ ⟨⟩
  minds := by
    intro _ d _ hm
    rcases hp with hp | hp <;> rw [hp] at hm
    · cases hm
    · exact hm
  inserting := by rintro _ ⟨⟩
  felled := by rintro ⟨⟩

theorem placed_spawn (h : v.Wired a) (hp : v.post a = .plain) : Placed v a (.spawning c) where
  signalled := by
    rw [hp]
    rfl
  rx := rfl
  kept := by
    intro pool hpool hnone
    exact h.parked (by rw [hp]; rfl) (by rw [hp]; rintro ⟨⟩) hpool hnone
  entering := by rintro _ _ ⟨⟩
  closed := by rintro ⟨⟩
  heard := by rintro _ ⟨⟩
  hand := by rintro _ ⟨⟩
  minds := by
    intro _ d _ hm
    rw [hp] at hm
    cases hm
  inserting := by rintro _ ⟨⟩
  felled := by rintro ⟨⟩

/-- A walk goes on over pools that are closed, its own among them. -/
theorem placed_walking (hnone : v.pool a = none) (hsignalled : (v.post a).signalled = false) :
    Placed v a (.walking none frames) where
  signalled := hsignalled.symm
  rx := rfl
  kept := by
    intro pool hpool
    rw [hnone] at hpool
    cases hpool
  entering := by rintro _ _ ⟨⟩
  closed := fun _ => hnone
  heard := by rintro _ ⟨⟩
  hand := by rintro _ ⟨⟩
  minds := by
    intro _ d hd
    rw [kids, hnone] at hd
    cases hd
  inserting := by rintro _ ⟨⟩
  felled := by rintro ⟨⟩

theorem Wired.empty_own {e : Nat} (h : v.Wired a) (hp : v.post a = .walking (some e) frames) (hempty : v.pool e = none) :
    v.pool a = none := by
  by_cases hea : e = a
  · rw [← hea]
    exact hempty
  · apply h.closed
    rw [hp]
    simpa [Post.closed] using hea

theorem placed_drop (hab : v.aborted a = true) (hthere : (v.post a).droppable = true) : Placed v a .dropped where
  signalled := by cases hq : v.post a <;> rw [hq] at hthere <;> first | rfl | cases hthere
  rx := rfl
  kept := fun _ _ _ => rfl
  entering := by rintro _ _ ⟨⟩
  closed := by rintro ⟨⟩
  heard := by rintro _ ⟨⟩
  hand := by rintro _ ⟨⟩
  minds := by
    intro hfree
    rw [hab] at hfree
    cases hfree
  inserting := by rintro _ ⟨⟩
  felled := fun _ => hab

end Placing

theorem Signals.step (h : Signals v) (hl : Ledger cap v) (hs : Step limit v w) : Signals w := by
  cases hs with
  | @goes a p hg => exact h.placed (hushed_refl v) rfl (placed_goes (h.wired a) hg)
  | @again a hp => exact h.placed (hushed_refl v) rfl (placed_again (h.wired a) hp)
  | @skip a c hp hout => exact h.placed (hushed_refl v) rfl (placed_skip (h.wired a) hp hout)
  | @choose a c hp => exact h.placed (hushed_refl v) rfl (placed_choose (h.wired a) hp)
  | @spawn a hp =>
      exact h.placed (u := v.charge) ⟨rfl, rfl, rfl, rfl, Nat.le_refl _⟩ rfl (placed_spawn (h.wired a) hp)
  | birth hp => exact signals_birth h hl hp
  | insert hp => exact signals_insert h hp
  | take hp hhas hrx => exact signals_take h hp hhas hrx
  | @missing a pool hp hhas hnone =>
      exact (h.wired a).parked (by rw [hp]; rfl) (by rw [hp]; rintro ⟨⟩) hhas hnone
  | hear hp hunread => exact signals_hear h hp hunread
  | put hp => exact signals_put h hp
  | collect hp hhas hmem => exact signals_collect h hp hhas hmem
  | @joined a c p hp hdone hafter =>
      refine h.placed (u := { v with permits := v.permits + 1 }) ⟨rfl, rfl, rfl, rfl, Nat.le_refl _⟩ rfl
        (placed_plain (h.wired a) (by rw [hp]; rfl) (by rw [hp]; rintro ⟨⟩) (by rw [hp]; rfl) hafter ?_)
      intro d _
      rw [hp]
      rfl
  | @nothing a e frames hp hempty =>
      have hnone := (h.wired a).empty_own hp hempty
      exact h.placed (hushed_refl v) rfl (placed_walking hnone (by rw [hp]; rfl))
  | enter hp => exact signals_enter h hp
  | pick hp => exact signals_pick h hp
  | @reap a c rest frames r hp =>
      have hnone : v.pool a = none := (h.wired a).closed (by rw [hp]; rfl)
      exact h.placed (u := { v.announce c r with permits := v.permits + 1 }) ⟨rfl, rfl, rfl, rfl, Nat.le_refl _⟩ rfl
        (placed_walking hnone (by rw [hp]; rfl))
  | complete hp => exact signals_complete h hp
  | @drop a hab hthere =>
      exact h.placed (u := { v with permits := v.permits + (v.post a).held.length })
        ⟨rfl, rfl, rfl, rfl, Nat.le_refl _⟩ rfl (placed_drop hab hthere)

end Family

end Silo.Lib
