import Silo.Lib.FamilySteps

namespace Silo.Lib

variable {ρ : Type}

def Mark.spawnedId : Mark ρ → Option Nat
  | .spawned c => some c
  | .completed _ _ => none

def Mark.reportOf (c : Nat) : Mark ρ → Option ρ
  | .completed d r => if d = c then some r else none
  | .spawned _ => none

def Post.Told : Post ρ → Bool → List ρ → Prop
  | .finishing r, emitted, reports | .completed r, emitted, reports => emitted = true ∧ reports = [r]
  | .dropped, true, reports => ∃ r, reports = [r]
  | .dropped, false, reports => reports = []
  | _, emitted, reports => emitted = false ∧ reports = []

namespace Family

variable {limit cap a b c : Nat} {p : Post ρ} {v w : Family ρ}

def spawnedIds (v : Family ρ) : List Nat := v.marks.filterMap Mark.spawnedId

def reports (v : Family ρ) (c : Nat) : List ρ := v.marks.filterMap (Mark.reportOf c)

/-- Every child is announced when it gets its id, and its end at most once,
later than that. -/
structure Reported (v : Family ρ) : Prop where
  spawned : v.spawnedIds = List.range' 1 (v.counter - 1)
  told : ∀ c, (v.post c).Told (v.emitted c) (v.reports c)
  ordered : ∀ before after c r, v.marks = before ++ .completed c r :: after → .spawned c ∈ before
  child : ∀ c, v.parent c ≠ none → 0 < c

theorem mem_spawnedIds : c ∈ v.spawnedIds ↔ .spawned c ∈ v.marks := by
  constructor
  · intro h
    obtain ⟨m, hm, hc⟩ := List.mem_filterMap.mp h
    cases m with
    | spawned d =>
        cases hc
        exact hm
    | completed d r => cases hc
  · intro h
    exact List.mem_filterMap.mpr ⟨_, h, rfl⟩

theorem Reported.spawned_mem (h : Reported v) (hpos : 0 < c) (hlt : c < v.counter) :
    .spawned c ∈ v.marks := by
  rw [← mem_spawnedIds, h.spawned, List.mem_range'_1]
  omega

/-- The last mark of the list is one more, and the others stay in order. -/
theorem ordered_concat {marks : List (Mark ρ)} {m : Mark ρ}
    (h : ∀ before after c r, marks = before ++ Mark.completed c r :: after → .spawned c ∈ before)
    (hm : ∀ c r, m = .completed c r → .spawned c ∈ marks) :
    ∀ before after c r, marks ++ [m] = before ++ Mark.completed c r :: after → .spawned c ∈ before := by
  intro before after c r heq
  rcases List.eq_nil_or_concat after with rfl | ⟨rest, last, rfl⟩
  · obtain ⟨rfl, hlast⟩ := List.append_inj' heq rfl
    cases hlast
    exact hm c r rfl
  · have heq' : marks ++ [m] = (before ++ .completed c r :: rest) ++ [last] := by
      rw [heq]
      simp
    exact h before rest c r (List.append_inj_left' heq' rfl)

theorem Reported.silent (h : Reported v) (hmarks : w.marks = v.marks) (hcounter : w.counter = v.counter)
    (hchild : ∀ c, w.parent c ≠ none → 0 < c)
    (htold : ∀ c, (v.post c).Told (v.emitted c) (v.reports c) → (w.post c).Told (w.emitted c) (v.reports c)) :
    Reported w := by
  have hreports : ∀ c, w.reports c = v.reports c := fun c => by rw [reports, reports, hmarks]
  refine ⟨?_, ?_, ?_, hchild⟩
  · rw [spawnedIds, hmarks, hcounter]
    exact h.spawned
  · intro c
    rw [hreports]
    exact htold c (h.told c)
  · rw [hmarks]
    exact h.ordered

/-- A step of `a` that leaves everything announced, and every other task, alone. -/
theorem Reported.moved {u : Family ρ} (h : Reported v) (hpost : u.post = v.post)
    (hmarks : u.marks = v.marks) (hcounter : u.counter = v.counter) (hparent : u.parent = v.parent)
    (hemitted : u.emitted = v.emitted)
    (hself : ∀ e l, (v.post a).Told e l → p.Told e l) : Reported (u.setPost a p) := by
  refine h.silent hmarks hcounter ?_ ?_
  · intro c hc
    exact h.child c (by rw [← hparent]; exact hc)
  · intro c hc
    have he : (u.setPost a p).emitted c = v.emitted c := congrFun hemitted c
    rw [he]
    by_cases hca : c = a
    · subst hca
      rw [setPost_post_self]
      exact hself _ _ hc
    · rw [setPost_post_of_ne u p hca, hpost]
      exact hc

theorem Post.Goes.told {p q : Post ρ} (h : Post.Goes a p q) (e : Bool) (l : List ρ) (ht : p.Told e l) :
    q.Told e l := by
  cases h <;> exact ht

theorem reports_announce (hne : v.emitted c = false) {r : ρ} (b : Nat) :
    (v.announce c r).reports b = if b = c then v.reports c ++ [r] else v.reports b := by
  rw [reports, announce, hne, if_neg (by simp), List.filterMap_append]
  by_cases hb : b = c
  · rw [if_pos hb, hb]
    simp [Mark.reportOf, reports]
  · rw [if_neg hb]
    simp [Mark.reportOf, reports, Ne.symm hb]

theorem Reported.announced {u : Family ρ} {r : ρ} (h : Reported v) (hpos : 0 < c) (hlt : c < v.counter)
    (hfree : v.emitted c = false) (hmarks : u.marks = (v.announce c r).marks)
    (hemitted : u.emitted = (v.announce c r).emitted) (hcounter : u.counter = v.counter)
    (hparent : u.parent = v.parent) (hself : (u.post c).Told true (v.reports c ++ [r]))
    (hothers : ∀ b, b ≠ c → (v.post b).Told (v.emitted b) (v.reports b) →
      (u.post b).Told (v.emitted b) (v.reports b)) : Reported u := by
  have hconcat : u.marks = v.marks ++ [.completed c r] := by
    rw [hmarks, announce, hfree]
    rfl
  refine ⟨?_, ?_, ?_, ?_⟩
  · rw [spawnedIds, hconcat, List.filterMap_append, hcounter]
    exact (List.append_nil _).trans h.spawned
  · intro b
    have hreports : u.reports b = (v.announce c r).reports b := by rw [reports, hmarks, reports]
    rw [hreports, reports_announce hfree, hemitted, announce]
    by_cases hb : b = c
    · rw [if_pos hb, hb]
      simpa using hself
    · rw [if_neg hb]
      simpa [hb] using hothers b hb (h.told b)
  · rw [hconcat]
    apply ordered_concat h.ordered
    intro d s hd
    cases hd
    exact h.spawned_mem hpos hlt
  · rw [hparent]
    exact h.child

theorem reported_insert (h : Reported v)
    (hp : v.post a = .inserting c ∧ p = .plain ∨ v.post a = .returning c ∧ p = .leaving) :
    Reported ((v.insert a c).setPost a p) := by
  have heq : (v.insert a c).marks = v.marks ∧ (v.insert a c).counter = v.counter ∧
      (v.insert a c).parent = v.parent ∧ (v.insert a c).emitted = v.emitted ∧
      (v.insert a c).post = v.post := by
    rcases entry_cases v a with ⟨pool, -, heq⟩ | ⟨-, heq⟩ <;> rw [insert, heq] <;>
      exact ⟨rfl, rfl, rfl, rfl, rfl⟩
  apply h.moved heq.2.2.2.2 heq.1 heq.2.1 heq.2.2.1 heq.2.2.2.1
  intro e l ht
  rcases hp with ⟨hp, rfl⟩ | ⟨hp, rfl⟩ <;> rw [hp] at ht <;> exact ht

theorem reported_birth (h : Reported v) (hl : Ledger cap v) (hp : v.post a = .spawning c) :
    Reported ((v.bear a c).setPost a (.inserting c)) := by
  have heq : (v.entry a).1.marks = v.marks ∧ (v.entry a).1.counter = v.counter := by
    rcases entry_cases v a with ⟨pool, -, heq⟩ | ⟨-, heq⟩ <;> rw [heq] <;> exact ⟨rfl, rfl⟩
  have hunborn := hl.spawning a c hp
  have ha : a < v.counter := hl.lt (by rw [hp]; rintro ⟨⟩)
  have hpos := (hl.below c (held_mem_handles ha (by rw [hp]; exact List.mem_singleton_self c))).1
  have hne : c ≠ a := by
    rintro rfl
    rw [hp] at hunborn
    cases hunborn
  refine h.silent heq.1 heq.2 ?_ ?_
  · intro d hd
    by_cases hdc : d = c
    · rw [hdc]
      exact hpos
    · apply h.child d
      simpa [setPost, bear, hdc] using hd
  · intro d ht
    by_cases hda : d = a
    · rw [hda] at ht ⊢
      rw [hp] at ht
      rw [setPost_post_self]
      have he : ((v.bear a c).setPost a (.inserting c)).emitted a = v.emitted a := by
        simp [setPost, bear, hne.symm]
      rw [he]
      exact ht
    · rw [setPost_post_of_ne _ _ hda]
      by_cases hdc : d = c
      · rw [hdc] at ht ⊢
        rw [hunborn] at ht
        have hplain : (v.bear a c).post c = .plain := by simp [bear]
        rw [hplain]
        exact ⟨by simp [setPost, bear], ht.2⟩
      · simpa [setPost, bear, hdc] using ht

theorem reported_spawn (h : Reported v) (hl : Ledger cap v) (hp : v.post a = .plain) :
    Reported (v.charge.setPost a (.spawning v.counter)) := by
  have hspawned : (v.charge.setPost a (.spawning v.counter)).spawnedIds = v.spawnedIds ++ [v.counter] := by
    simp [spawnedIds, setPost, charge, Mark.spawnedId]
  have hreports : ∀ c, (v.charge.setPost a (.spawning v.counter)).reports c = v.reports c := by
    intro c
    rw [reports, setPost, charge]
    simp [Mark.reportOf, reports]
  refine ⟨?_, ?_, ?_, h.child⟩
  · have hcount : v.counter + 1 - 1 = v.counter - 1 + 1 := by
      have := hl.root
      omega
    rw [hspawned, h.spawned]
    simp only [setPost, charge]
    rw [hcount, List.range'_concat]
    have := hl.root
    simp only [one_mul, List.append_cancel_left_eq, List.cons.injEq, and_true]
    omega
  · intro c
    rw [hreports]
    by_cases hca : c = a
    · have ht := h.told c
      rw [hca] at ht ⊢
      rw [hp] at ht
      rw [setPost_post_self]
      exact ht
    · rw [setPost_post_of_ne _ _ hca]
      exact h.told c
  · exact ordered_concat h.ordered (by rintro _ _ ⟨⟩)

/-- The end of a child is announced here unless the child has done so itself. -/
theorem reported_reap (h : Reported v) (hl : Ledger cap v) {rest : List Nat}
    {frames : List (List Nat × Option Nat)} {r : ρ}
    (hp : v.post a = .walking none ((rest, some c) :: frames)) (hdone : (v.post c).finished = true) :
    Reported ({ v.announce c r with permits := v.permits + 1 }.setPost a
      (.walking none ((rest, none) :: frames))) := by
  have ha : a < v.counter := hl.lt (by rw [hp]; rintro ⟨⟩)
  obtain ⟨hpos, hlt⟩ := hl.below c (held_mem_handles ha (by rw [hp]; simp [Post.held]))
  have hca : c ≠ a := by
    rintro rfl
    rw [hp] at hdone
    cases hdone
  have hmoves : ∀ b, (v.post b).Told (v.emitted b) (v.reports b) →
      (({ v.announce c r with permits := v.permits + 1 }.setPost a
        (.walking none ((rest, none) :: frames))).post b).Told (v.emitted b) (v.reports b) := by
    intro b ht
    by_cases hb : b = a
    · rw [hb, hp] at ht
      rw [hb, setPost_post_self]
      exact ht
    · rw [setPost_post_of_ne _ _ hb]
      exact ht
  have hself : ({ v.announce c r with permits := v.permits + 1 }.setPost a
      (.walking none ((rest, none) :: frames))).post c = v.post c := setPost_post_of_ne _ _ hca
  cases hem : v.emitted c with
  | true =>
      have hann : (v.announce c r).emitted = v.emitted := by
        rw [announce, ← hem, Function.update_eq_self]
      refine h.silent (by simp [setPost, announce, hem]) rfl h.child ?_
      intro b ht
      have he : ({ v.announce c r with permits := v.permits + 1 }.setPost a
        (.walking none ((rest, none) :: frames))).emitted b = v.emitted b := congrFun hann b
      rw [he]
      exact hmoves b ht
  | false =>
      have ht := h.told c
      rw [hem] at ht
      refine h.announced hpos hlt hem rfl rfl rfl rfl ?_ fun b _ => hmoves b
      rw [hself]
      cases hpost : v.post c with
      | dropped =>
          rw [hpost] at ht
          exact ⟨r, by rw [ht]; rfl⟩
      | completed => rw [hpost] at ht; cases ht.1
      | _ => rw [hpost] at hdone; cases hdone

theorem reported_complete (h : Reported v) (hl : Ledger cap v) {r : ρ} (hp : v.post a = .returned)
    (hchild : v.parent a ≠ none) :
    Reported ({ v.announce a r with
      chans := Function.update v.chans (v.signal a) (v.chans (v.signal a) ++ [a]) }.setPost a
      (.finishing r)) := by
  have ha : a < v.counter := hl.lt (by rw [hp]; rintro ⟨⟩)
  have ht := h.told a
  rw [hp] at ht
  refine h.announced (h.child a hchild) ha ht.1 rfl rfl rfl rfl ?_ ?_
  · rw [setPost_post_self, ht.2]
    exact ⟨rfl, rfl⟩
  · intro b hb htb
    rw [setPost_post_of_ne _ _ hb]
    exact htb

theorem reported_drop (h : Reported v) (hthere : (v.post a).droppable = true) :
    Reported ({ v with permits := v.permits + (v.post a).held.length }.setPost a .dropped) := by
  refine h.moved rfl rfl rfl rfl rfl ?_
  intro e l ht
  have hquiet : e = false ∧ l = [] := by
    cases hpost : v.post a <;> rw [hpost] at ht hthere <;> first | exact ht | cases hthere
  obtain ⟨rfl, rfl⟩ := hquiet
  rfl

theorem Reported.step (h : Reported v) (hl : Ledger cap v) (hs : Step limit v w) : Reported w := by
  cases hs with
  | goes hg => exact h.moved rfl rfl rfl rfl rfl (Post.Goes.told hg)
  | again hp => exact h.moved rfl rfl rfl rfl rfl (fun e l ht => by rw [hp] at ht; exact ht)
  | skip hp | choose hp =>
      apply h.moved rfl rfl rfl rfl rfl
      intro e l ht
      rcases hp with hp | hp <;> rw [hp] at ht <;> exact ht
  | missing hp =>
      apply h.moved rfl rfl rfl rfl rfl
      intro e l ht
      rw [hp] at ht
      obtain ⟨rfl, rfl⟩ := ht
      rfl
  | hear hp | take hp | collect hp | nothing hp | enter hp | pick hp => exact h.moved rfl rfl rfl rfl rfl (fun e l ht => by rw [hp] at ht; exact ht)
  | @put a chan heard hp =>
      refine h.moved rfl rfl rfl rfl rfl ?_
      intro e l ht
      rw [hp] at ht
      cases heard <;> exact ht
  | joined hp _ hafter =>
      refine h.moved rfl rfl rfl rfl rfl ?_
      intro e l ht
      rw [hp] at ht
      rcases hafter with rfl | rfl <;> exact ht
  | insert hp => exact reported_insert h hp
  | birth hp => exact reported_birth h hl hp
  | spawn hp => exact reported_spawn h hl hp
  | reap hp hdone => exact reported_reap h hl hp hdone
  | complete hp hchild => exact reported_complete h hl hp hchild
  | drop _ hthere => exact reported_drop h hthere

theorem reports_step (hs : Step limit v w) (c : Nat) : v.reports c <+: w.reports c := by
  have hmarks : v.marks <+: w.marks := by
    cases hs with
    | spawn => exact List.prefix_append _ _
    | @birth a | @insert a =>
        rcases entry_cases v a with ⟨pool, -, heq⟩ | ⟨-, heq⟩
        · simp [bear, Family.insert, heq, setPost, setPool]
        · simp [bear, Family.insert, heq, setPost, setPool]
    | reap | complete =>
        simp only [announce, setPost]
        split
        · exact List.prefix_rfl
        · exact List.prefix_append _ _
    | _ => exact List.prefix_rfl
  exact hmarks.filterMap _

/-- A walk keeps the handles it has taken until their tasks have ended and are
announced. -/
def Walks (v : Family ρ) (a c : Nat) : Prop :=
  (∃ e frames, v.post a = .walking e frames ∧ c ∈ (v.post a).held) ∨
    ((v.post c).finished = true ∧ v.emitted c = true) ∨ v.post a = .dropped

/-- A task that stands elsewhere than the one that moves stays where it is. -/
theorem post_still {u : Family ρ} (hu : u.post = v.post) (hne : v.post b ≠ v.post a) :
    (u.setPost b p).post a = v.post a := by
  have hab : a ≠ b := by
    rintro rfl
    exact hne rfl
  rw [setPost_post_of_ne u p hab, hu]

theorem Ledger.finished_stays (h : Ledger cap v) (hs : Step limit v w) (hfin : (v.post a).finished = true) :
    w.post a = v.post a := by
  have helse : ∀ {b q}, v.post b = q → q.finished = false → v.post b ≠ v.post a := by
    rintro b q rfl hq heq
    rw [heq, hfin] at hq
    cases hq
  cases hs with
  | @goes b p hg =>
      refine post_still rfl (helse rfl ?_)
      generalize v.post b = q at hg
      cases hg <;> rfl
  | again hp | spawn hp | take hp | missing hp | hear hp | put hp | collect hp | joined hp | complete hp
  | nothing hp | enter hp | pick hp | reap hp => exact post_still (v := v) rfl (helse hp rfl)
  | skip hp | choose hp =>
      rcases hp with hp | hp
      · exact post_still rfl (helse hp rfl)
      · exact post_still rfl (helse hp rfl)
  | @insert b d p hp =>
      rcases hp with ⟨hp, -⟩ | ⟨hp, -⟩
      · exact post_still (looked v b).post (helse hp rfl)
      · exact post_still (looked v b).post (helse hp rfl)
  | @birth b d hp =>
      have hbd : (v.bear b d).post a = v.post a := by
        refine Function.update_of_ne ?_ _ _
        rintro rfl
        exact helse (h.spawning b a hp) rfl rfl
      rw [setPost_post_of_ne, hbd]
      rintro rfl
      exact helse hp rfl rfl
  | @drop b _ hthere =>
      refine post_still (v := v) rfl (helse rfl ?_)
      generalize v.post b = q at hthere
      cases q with
      | completed | dropped => cases hthere
      | _ => rfl

theorem walks_still {u : Family ρ} {e : Option Nat} {frames : List (List Nat × Option Nat)}
    (hu : u.post = v.post) (hw : v.post a = .walking e frames) (hc : c ∈ (v.post a).held)
    (hb : ∀ e frames, v.post b ≠ .walking e frames) : Walks (u.setPost b p) a c := by
  have hpost : (u.setPost b p).post a = v.post a := post_still hu (by rw [hw]; exact hb e frames)
  exact .inl ⟨e, frames, hpost.trans hw, by rw [hpost]; exact hc⟩

theorem walks_moved {u : Family ρ} {e e' : Option Nat} {frames frames' : List (List Nat × Option Nat)}
    (hu : u.post = v.post) (hw : v.post a = .walking e frames) (hc : c ∈ (v.post a).held) {d : Option Nat}
    {old : List (List Nat × Option Nat)} (hb : v.post b = .walking d old)
    (hheld : ∀ x ∈ (Post.walking d old : Post ρ).held, x ∈ (Post.walking e' frames' : Post ρ).held) :
    Walks (u.setPost b (.walking e' frames')) a c := by
  by_cases hab : a = b
  · subst hab
    rw [hb] at hc
    refine .inl ⟨e', frames', setPost_post_self u a _, ?_⟩
    rw [setPost_post_self]
    exact hheld c hc
  · have hpost : (u.setPost b (.walking e' frames')).post a = v.post a := by
      rw [setPost_post_of_ne u _ hab, hu]
    exact .inl ⟨e, frames, hpost.trans hw, by rw [hpost]; exact hc⟩

theorem Ledger.walks (h : Ledger cap v) (hs : Step limit v w) {e : Option Nat}
    {frames : List (List Nat × Option Nat)} (hw : v.post a = .walking e frames)
    (hc : c ∈ (v.post a).held) : Walks w a c := by
  cases hs with
  | @goes b p hg =>
      generalize hb : v.post b = q at hg
      cases hg with
      | pop =>
          apply walks_moved (v := v) rfl hw hc hb
          intro x hx
          simpa [Post.held] using hx
      | back =>
          by_cases hab : a = b
          · subst hab
            rw [hb] at hc
            cases hc
          · have hpost : (v.setPost b .returned).post a = v.post a := setPost_post_of_ne v _ hab
            exact .inl ⟨e, frames, hpost.trans hw, by rw [hpost]; exact hc⟩
      | _ => exact walks_still rfl hw hc (by rw [hb]; rintro _ _ ⟨⟩)
  | again hp | spawn hp | take hp | missing hp | hear hp | put hp | collect hp | joined hp | complete hp =>
      exact walks_still (v := v) rfl hw hc (by rw [hp]; rintro _ _ ⟨⟩)
  | skip hp | choose hp =>
      apply walks_still rfl hw hc
      rcases hp with hp | hp <;> rw [hp] <;> rintro _ _ ⟨⟩
  | @insert b d p hp =>
      refine walks_still (looked v b).post hw hc ?_
      rcases hp with ⟨hp, -⟩ | ⟨hp, -⟩ <;> rw [hp] <;> rintro _ _ ⟨⟩
  | @birth b d hp =>
      have hunborn := h.spawning b d hp
      have hab : a ≠ b := by
        rintro rfl
        rw [hp] at hw
        cases hw
      have had : a ≠ d := by
        rintro rfl
        rw [hunborn] at hw
        cases hw
      have hpost : ((v.bear b d).setPost b (.inserting d)).post a = v.post a := by
        rw [setPost_post_of_ne _ _ hab]
        exact Function.update_of_ne had _ _
      exact .inl ⟨e, frames, hpost.trans hw, by rw [hpost]; exact hc⟩
  | nothing hp => exact walks_moved (v := v) rfl hw hc hp fun x hx => hx
  | enter hp =>
      apply walks_moved (v := v) rfl hw hc hp
      intro x hx
      exact List.mem_append_right _ hx
  | @pick b d rest old hp hmem =>
      apply walks_moved (v := v) rfl hw hc hp
      intro x hx
      by_cases hxd : x = d
      · simp [Post.held, hxd]
      · simpa [Post.held, hxd] using hx
  | @reap b d rest old r hp hdone =>
      by_cases hab : a = b
      · subst hab
        by_cases hcd : c = d
        · subst hcd
          have hne : c ≠ a := by
            rintro rfl
            rw [hp] at hdone
            cases hdone
          refine .inr (.inl ⟨?_, ?_⟩)
          · rw [setPost_post_of_ne _ _ hne]
            exact hdone
          · simp [setPost, announce]
        · refine .inl ⟨_, _, setPost_post_self _ a _, ?_⟩
          rw [setPost_post_self]
          rw [hp] at hc
          simpa [Post.held, hcd] using hc
      · have hpost : ({ v.announce d r with permits := v.permits + 1 }.setPost b
            (.walking none ((rest, none) :: old))).post a = v.post a := setPost_post_of_ne _ _ hab
        exact .inl ⟨e, frames, hpost.trans hw, by rw [hpost]; exact hc⟩
  | @drop b =>
      by_cases hab : a = b
      · subst hab
        exact .inr (.inr (setPost_post_self _ a _))
      · have hpost : ({ v with permits := v.permits + (v.post b).held.length }.setPost b .dropped).post a =
            v.post a := setPost_post_of_ne _ _ hab
        exact .inl ⟨e, frames, hpost.trans hw, by rw [hpost]; exact hc⟩

end Family

end Silo.Lib
