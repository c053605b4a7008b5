import Silo.Lib.FamilySteps

namespace Silo.Lib

variable {ρ : Type}

namespace Post

def hand : Post ρ → List Nat
  | .inserting c | .returning c | .joining c => [c]
  | _ => []

def rx : Post ρ → Option Nat
  | .receiving chan _ => some chan
  | _ => none

def heard : Post ρ → Option Nat
  | .receiving _ heard => heard
  | .hearing c => some c
  | _ => none

def closed (a : Nat) : Post ρ → Bool
  | .walking e _ => decide (e ≠ some a)
  | .returned | .finishing _ | .completed _ | .unborn => true
  | _ => false

/-- The task is about to collect `c`, or all of its children. -/
def minds (a c : Nat) : Post ρ → Bool
  | .receiving _ (some d) | .hearing d | .chosen d => decide (d = c)
  | .leaving => true
  | .walking e _ => decide (e = some a)
  | _ => false

theorem hand_subset_loose (p : Post ρ) : p.hand ⊆ p.loose := by
  intro c hc
  cases p with
  | inserting | returning | joining => exact hc
  | _ => cases hc

end Post

namespace Family

variable {limit cap a b c : Nat} {p : Post ρ} {v w u : Family ρ}

/-- The channel is that of the task's pool, or its receiver is in the hands of
the task. -/
def Uses (v : Family ρ) (a n : Nat) : Prop :=
  (∃ pool, v.pool a = some pool ∧ (pool.chan = n ∨ pool.rx = some n)) ∨ (v.post a).rx = some n

structure Wired (v : Family ρ) (a : Nat) : Prop where
  below : ∀ n, v.Uses a n → n < v.nextChan
  chan : ∀ pool n, v.pool a = some pool → v.Uses a n → n = pool.chan
  rx : ∀ pool, v.pool a = some pool → pool.rx = none →
    (v.post a).rx.isSome = true ∨ v.post a = .dropped
  entering : ∀ e frames, v.post a = .walking (some e) frames → e = a ∨ v.aborted e = true
  closed : (v.post a).closed a = true → v.pool a = none
  heard : ∀ c, (v.post a).heard = some c → (v.post c).signalled = true
  hand : v.aborted a = false → ∀ c ∈ (v.post a).hand, ∃ pool, v.pool a = some pool ∧ v.signal c = pool.chan
  kids : v.aborted a = false → ∀ pool, v.pool a = some pool → ∀ c ∈ pool.children, v.signal c = pool.chan
  unread : v.aborted a = false → ∀ pool, v.pool a = some pool → ∀ c ∈ pool.children,
    (v.post c).signalled = true → (v.post a).minds a c = true ∨ c ∈ v.chans pool.chan
  newborn : v.aborted a = false → ∀ pool c, v.post a = .inserting c → v.pool a = some pool →
    (v.post c).signalled = true → c ∈ v.chans pool.chan
  felled : v.post a = .dropped → v.aborted a = true

structure Signals (v : Family ρ) : Prop where
  wired : ∀ a, v.Wired a
  unique : ∀ a b n, v.Uses a n → v.Uses b n → a = b
  wrote : ∀ n c, c ∈ v.chans n → (v.post c).signalled = true

/-- What every step does to the signals: none is taken back, and a new one is
in the channel it was sent to. -/
structure Ripple (v w : Family ρ) : Prop where
  aborted : ∀ c, v.aborted c = true → w.aborted c = true
  old : ∀ c, (v.post c).signalled = true → (w.post c).signalled = true
  new : ∀ c, (w.post c).signalled = true → (v.post c).signalled = true ∨ c ∈ w.chans (w.signal c)
  nextChan : v.nextChan ≤ w.nextChan

structure SeesStep (v w : Family ρ) (b : Nat) : Prop where
  post : w.post b = v.post b
  pool : w.pool b = v.pool b ∨ (w.pool b = none ∧ w.aborted b = true)
  signal : ∀ c, c ∈ v.kids b ∨ c ∈ (v.post b).hand → w.signal c = v.signal c
  chans : ∀ n c, v.Uses b n → c ∈ v.chans n → c ∈ w.chans n

theorem SeesStep.uses (h : SeesStep v w b) {n : Nat} (hu : w.Uses b n) : v.Uses b n := by
  rcases hu with ⟨pool, hpool, hn⟩ | hrx
  · rcases h.pool with heq | ⟨hnone, -⟩
    · exact .inl ⟨pool, heq ▸ hpool, hn⟩
    · rw [hnone] at hpool
      cases hpool
  · rw [h.post] at hrx
    exact .inr hrx

theorem uses_chan {pool : Pool} (h : v.pool a = some pool) : v.Uses a pool.chan := .inl ⟨pool, h, .inl rfl⟩

theorem Wired.seesStep (h : v.Wired b) (hr : Ripple v w) (hb : SeesStep v w b) : w.Wired b := by
  have hfree : w.aborted b = false → v.aborted b = false := by
    intro hw
    by_contra hv
    rw [hr.aborted b (by simpa using hv)] at hw
    cases hw
  have hsome : ∀ {pool}, w.pool b = some pool → v.pool b = some pool := by
    intro pool hpool
    rcases hb.pool with heq | ⟨hnone, -⟩
    · rw [← heq]
      exact hpool
    · rw [hnone] at hpool
      cases hpool
  have hmem : ∀ {pool c}, v.pool b = some pool → c ∈ pool.children → c ∈ v.kids b :=
    fun hpool hc => by rw [kids_some hpool]; exact hc
  -- a child has signalled before, or has just done so in the channel its parent reads
  have hnew : ∀ {pool c}, v.pool b = some pool → (c ∈ v.kids b ∨ c ∈ (v.post b).hand) →
      v.signal c = pool.chan → (w.post c).signalled = true →
      (v.post c).signalled = true ∨ c ∈ w.chans pool.chan := by
    intro pool c hpool hc hsignal hsig
    refine (hr.new c hsig).imp_right ?_
    rw [hb.signal c hc, hsignal]
    exact id
  constructor
  case below =>
    intro n hn
    exact Nat.lt_of_lt_of_le (h.below n (hb.uses hn)) hr.nextChan
  case chan =>
    intro pool n hpool hn
    exact h.chan pool n (hsome hpool) (hb.uses hn)
  case rx =>
    intro pool hpool hrx
    rw [hb.post]
    exact h.rx pool (hsome hpool) hrx
  case entering =>
    intro e frames hp
    rw [hb.post] at hp
    exact (h.entering e frames hp).imp_right (hr.aborted e)
  case closed =>
    intro hc
    rw [hb.post] at hc
    rcases hb.pool with heq | ⟨hnone, -⟩
    · rw [heq]
      exact h.closed hc
    · exact hnone
  case heard =>
    intro c hc
    rw [hb.post] at hc
    exact hr.old c (h.heard c hc)
  case hand =>
    intro hab c hc
    rw [hb.post] at hc
    obtain ⟨pool, hpool, hsignal⟩ := h.hand (hfree hab) c hc
    refine ⟨pool, ?_, (hb.signal c (.inr hc)).trans hsignal⟩
    rcases hb.pool with heq | ⟨-, hnow⟩
    · rw [heq]
      exact hpool
    · rw [hab] at hnow
      cases hnow
  case kids =>
    intro hab pool hpool c hc
    exact (hb.signal c (.inl (hmem (hsome hpool) hc))).trans (h.kids (hfree hab) pool (hsome hpool) c hc)
  case unread =>
    intro hab pool hpool c hc hsig
    have hpool' := hsome hpool
    rw [hb.post]
    rcases hnew hpool' (.inl (hmem hpool' hc)) (h.kids (hfree hab) pool hpool' c hc) hsig with hold | hin
    · exact (h.unread (hfree hab) pool hpool' c hc hold).imp_right (hb.chans _ c (uses_chan hpool'))
    · exact .inr hin
  case newborn =>
    intro hab pool c hp hpool hsig
    have hpool' := hsome hpool
    rw [hb.post] at hp
    have hhand : c ∈ (v.post b).hand := by
      rw [hp]
      exact List.mem_singleton_self c
    obtain ⟨pool', hpool'', hsignal⟩ := h.hand (hfree hab) c hhand
    rw [hpool'] at hpool''
    cases hpool''
    rcases hnew hpool' (.inr hhand) hsignal hsig with hold | hin
    · exact hb.chans _ c (uses_chan hpool') (h.newborn (hfree hab) pool c hp hpool' hold)
    · exact hin
  case felled =>
    intro hd
    rw [hb.post] at hd
    exact hr.aborted b (h.felled hd)

/-- A task of which nothing is known but that it stands somewhere plain, with
no pool. -/
structure Unwired (w : Family ρ) (b : Nat) : Prop where
  post : w.post b = .plain
  pool : w.pool b = none

theorem uses_of_none (hpool : w.pool b = none) (hrx : (w.post b).rx = none) {n : Nat} : ¬ w.Uses b n := by
  rintro (⟨pool, hsome, -⟩ | hn)
  · rw [hpool] at hsome
    cases hsome
  · rw [hrx] at hn
    cases hn

theorem wired_of_none (hpool : w.pool b = none) (hrx : (w.post b).rx = none)
    (hentering : ∀ e frames, w.post b = .walking (some e) frames → e = b ∨ w.aborted e = true)
    (hheard : (w.post b).heard = none) (hhand : (w.post b).hand = []) (hthere : w.post b ≠ .dropped) :
    w.Wired b := by
  have hnone : ∀ pool, w.pool b ≠ some pool := fun pool => by rw [hpool]; exact nofun
  refine ⟨fun n hn => absurd hn (uses_of_none hpool hrx), fun pool n hp => absurd hp (hnone pool),
    fun pool hp => absurd hp (hnone pool), hentering, fun _ => hpool, ?_, ?_,
    fun _ pool hp => absurd hp (hnone pool), fun _ pool hp => absurd hp (hnone pool),
    fun _ pool c _ hp => absurd hp (hnone pool), fun hd => absurd hd hthere⟩
  · intro c hc
    rw [hheard] at hc
    cases hc
  · intro _ c hc
    rw [hhand] at hc
    cases hc

theorem Unwired.uses (h : Unwired w b) {n : Nat} : ¬ w.Uses b n :=
  uses_of_none h.pool (by rw [h.post]; rfl)

theorem Unwired.wired (h : Unwired w b) : w.Wired b := by
  refine wired_of_none h.pool (by rw [h.post]; rfl) ?_ (by rw [h.post]; rfl) (by rw [h.post]; rfl)
    (by rw [h.post]; exact nofun)
  intro e frames hp
  rw [h.post] at hp
  cases hp

theorem Signals.step_of (h : Signals v) (hr : Ripple v w)
    (hothers : ∀ b, b ≠ a → SeesStep v w b ∨ Unwired w b) (hself : w.Wired a)
    (huses : ∀ n, w.Uses a n → v.Uses a n ∨ v.nextChan ≤ n)
    (hwrote : ∀ n c, c ∈ w.chans n → (w.post c).signalled = true) : Signals w := by
  have hcross : ∀ b n, b ≠ a → w.Uses a n → w.Uses b n → False := by
    intro b n hb ha hbn
    rcases hothers b hb with hseesStep | hunwired
    · have hv := hseesStep.uses hbn
      rcases huses n ha with hva | hnew
      · exact hb (h.unique b a n hv hva)
      · exact absurd ((h.wired b).below n hv) (Nat.not_lt.mpr hnew)
    · exact hunwired.uses hbn
  refine ⟨?_, ?_, hwrote⟩
  · intro b
    by_cases hb : b = a
    · rw [hb]
      exact hself
    · rcases hothers b hb with hseesStep | hunwired
      · exact (h.wired b).seesStep hr hseesStep
      · exact hunwired.wired
  · intro b b' n hb hb'
    by_cases hba : b = a
    · by_cases hba' : b' = a
      · rw [hba, hba']
      · subst hba
        exact (hcross b' n hba' hb hb').elim
    · by_cases hba' : b' = a
      · subst hba'
        exact (hcross b n hba hb' hb).elim
      · rcases hothers b hba with hseesStep | hunwired
        · rcases hothers b' hba' with hseesStep' | hunwired'
          · exact h.unique b b' n (hseesStep.uses hb) (hseesStep'.uses hb')
          · exact (hunwired'.uses hb').elim
        · exact (hunwired.uses hb).elim

structure Hushed (v u : Family ρ) : Prop where
  post : u.post = v.post
  aborted : u.aborted = v.aborted
  signal : u.signal = v.signal
  chans : u.chans = v.chans
  nextChan : v.nextChan ≤ u.nextChan

theorem Hushed.signalled (h : Hushed v u) (hp : p.signalled = (v.post a).signalled) (c : Nat) :
    ((u.setPost a p).post c).signalled = (v.post c).signalled := by
  by_cases hc : c = a
  · rw [hc, setPost_post_self, hp]
  · rw [setPost_post_of_ne _ _ hc, h.post]

theorem Hushed.ripple (h : Hushed v u) (hp : p.signalled = (v.post a).signalled) :
    Ripple v (u.setPost a p) := by
  refine ⟨?_, ?_, ?_, h.nextChan⟩
  · intro c hc
    rw [← h.aborted] at hc
    exact hc
  · intro c hc
    rw [h.signalled hp]
    exact hc
  · intro c hc
    rw [h.signalled hp] at hc
    exact .inl hc

theorem Hushed.seesStep (h : Hushed v u) (hb : b ≠ a)
    (hpool : u.pool b = v.pool b ∨ (u.pool b = none ∧ v.aborted b = true)) :
    SeesStep v (u.setPost a p) b := by
  refine ⟨?_, ?_, ?_, ?_⟩
  · rw [setPost_post_of_ne _ _ hb, h.post]
  · rw [← h.aborted] at hpool
    exact hpool
  · intro c _
    exact congrFun h.signal c
  · intro n c _ hc
    rw [← h.chans] at hc
    exact hc

theorem Signals.hushed (h : Signals v) (hu : Hushed v u) (hp : p.signalled = (v.post a).signalled)
    (hpools : ∀ b, b ≠ a → u.pool b = v.pool b ∨ (u.pool b = none ∧ v.aborted b = true))
    (huses : ∀ n, (u.setPost a p).Uses a n → v.Uses a n ∨ v.nextChan ≤ n)
    (hself : (u.setPost a p).Wired a) : Signals (u.setPost a p) := by
  refine h.step_of (hu.ripple hp) (fun b hb => .inl (hu.seesStep hb (hpools b hb))) hself huses ?_
  intro n c hc
  rw [hu.signalled hp]
  apply h.wrote n c
  rw [← hu.chans]
  exact hc

structure Placed (v : Family ρ) (a : Nat) (p : Post ρ) : Prop where
  signalled : p.signalled = (v.post a).signalled
  rx : p.rx = none
  kept : ∀ pool, v.pool a = some pool → pool.rx = none → p = .dropped
  entering : ∀ e frames, p = .walking (some e) frames → e = a
  closed : p.closed a = true → v.pool a = none
  heard : ∀ c, p.heard = some c → (v.post c).signalled = true
  hand : ∀ c ∈ p.hand, c ∈ (v.post a).hand
  minds : v.aborted a = false → ∀ c ∈ v.kids a, (v.post a).minds a c = true → p.minds a c = true
  inserting : ∀ c, p ≠ .inserting c
  felled : p = .dropped → v.aborted a = true

theorem Wired.parked {pool : Pool} {P : Prop} (h : v.Wired a) (hrx : (v.post a).rx = none)
    (hdropped : v.post a ≠ .dropped) (hpool : v.pool a = some pool) (hnone : pool.rx = none) : P := by
  rcases h.rx pool hpool hnone with hr | hd
  · rw [hrx] at hr
    cases hr
  · exact absurd hd hdropped

theorem Signals.placed (h : Signals v) (hu : Hushed v u) (hpool : u.pool = v.pool)
    (hp : Placed v a p) : Signals (u.setPost a p) := by
  have hself := h.wired a
  have hpools : ∀ {pool}, (u.setPost a p).pool a = some pool → v.pool a = some pool := by
    intro pool hsome
    rw [← hpool]
    exact hsome
  have huses : ∀ n, (u.setPost a p).Uses a n → v.Uses a n := by
    rintro n (⟨pool, hsome, hn⟩ | hrx)
    · exact .inl ⟨pool, hpools hsome, hn⟩
    · rw [setPost_post_self, hp.rx] at hrx
      cases hrx
  have haborted : (u.setPost a p).aborted = v.aborted := hu.aborted
  have hsignal : (u.setPost a p).signal = v.signal := hu.signal
  have hchans : (u.setPost a p).chans = v.chans := hu.chans
  refine h.hushed hu hp.signalled (fun b _ => .inl (by rw [hpool])) (fun n hn => .inl (huses n hn)) ?_
  constructor
  case below =>
    intro n hn
    exact Nat.lt_of_lt_of_le (hself.below n (huses n hn)) hu.nextChan
  case chan =>
    intro pool n hsome hn
    exact hself.chan pool n (hpools hsome) (huses n hn)
  case rx =>
    intro pool hsome hnone
    rw [setPost_post_self]
    exact .inr (hp.kept pool (hpools hsome) hnone)
  case entering =>
    intro e frames hw
    rw [setPost_post_self] at hw
    exact .inl (hp.entering e frames hw)
  case closed =>
    intro hc
    rw [setPost_post_self] at hc
    exact (congrFun hpool a).trans (hp.closed hc)
  case heard =>
    intro c hc
    rw [setPost_post_self] at hc
    rw [hu.signalled hp.signalled]
    exact hp.heard c hc
  case hand =>
    intro hab c hc
    rw [haborted] at hab
    rw [setPost_post_self] at hc
    obtain ⟨pool, hsome, hsig⟩ := hself.hand hab c (hp.hand c hc)
    exact ⟨pool, (congrFun hpool a).trans hsome, by rw [hsignal]; exact hsig⟩
  case kids =>
    intro hab pool hsome c hc
    rw [haborted] at hab
    rw [hsignal]
    exact hself.kids hab pool (hpools hsome) c hc
  case unread =>
    intro hab pool hsome c hc hsig
    rw [haborted] at hab
    rw [hu.signalled hp.signalled] at hsig
    rw [setPost_post_self, hchans]
    refine (hself.unread hab pool (hpools hsome) c hc hsig).imp_left ?_
    exact hp.minds hab c (by rw [kids_some (hpools hsome)]; exact hc)
  case newborn =>
    intro _ pool c hins
    rw [setPost_post_self] at hins
    exact absurd hins (hp.inserting c)
  case felled =>
    intro hd
    rw [setPost_post_self] at hd
    rw [haborted]
    exact hp.felled hd

structure Pooled (v u : Family ρ) (a : Nat) (p : Post ρ) (pool : Pool) : Prop where
  signalled : p.signalled = (v.post a).signalled
  below : pool.chan < u.nextChan
  uses : v.Uses a pool.chan ∨ v.nextChan ≤ pool.chan
  parked : ∀ n, pool.rx = some n ∨ p.rx = some n → n = pool.chan
  taken : pool.rx = none → p.rx.isSome = true
  walking : ∀ e frames, p ≠ .walking e frames
  closed : p.closed a = false
  heard : ∀ c, p.heard = some c → (v.post c).signalled = true
  signal : v.aborted a = false → ∀ c, c ∈ p.hand ∨ c ∈ pool.children → v.signal c = pool.chan
  unread : v.aborted a = false → ∀ c ∈ pool.children, (v.post c).signalled = true →
    p.minds a c = true ∨ c ∈ v.chans pool.chan
  inserting : ∀ c, p ≠ .inserting c
  there : p ≠ .dropped

theorem Signals.pooled {pool : Pool} (h : Signals v) (hu : Hushed v u) (hpool : u.pool a = some pool)
    (hpools : ∀ b, b ≠ a → u.pool b = v.pool b) (hp : Pooled v u a p pool) : Signals (u.setPost a p) := by
  have hthis : ∀ {q}, (u.setPost a p).pool a = some q → q = pool := by
    intro q hq
    exact Option.some.inj (hq.symm.trans hpool)
  have huses : ∀ n, (u.setPost a p).Uses a n → n = pool.chan := by
    rintro n (⟨q, hq, hn⟩ | hn)
    · cases hthis hq
      rcases hn with hn | hn
      · exact hn.symm
      · exact hp.parked n (.inl hn)
    · rw [setPost_post_self] at hn
      exact hp.parked n (.inr hn)
  have haborted : (u.setPost a p).aborted = v.aborted := hu.aborted
  have hsignal : (u.setPost a p).signal = v.signal := hu.signal
  have hchans : (u.setPost a p).chans = v.chans := hu.chans
  refine h.hushed hu hp.signalled (fun b hb => .inl (hpools b hb)) ?_ ?_
  · intro n hn
    rw [huses n hn]
    exact hp.uses
  constructor
  case below =>
    intro n hn
    rw [huses n hn]
    exact hp.below
  case chan =>
    intro q n hq hn
    rw [hthis hq]
    exact huses n hn
  case rx =>
    intro q hq hnone
    cases hthis hq
    rw [setPost_post_self]
    exact .inl (hp.taken hnone)
  case entering =>
    intro e frames hw
    rw [setPost_post_self] at hw
    exact absurd hw (hp.walking _ _)
  case closed =>
    intro hc
    rw [setPost_post_self, hp.closed] at hc
    cases hc
  case heard =>
    intro c hc
    rw [setPost_post_self] at hc
    rw [hu.signalled hp.signalled]
    exact hp.heard c hc
  case hand =>
    intro hab c hc
    rw [haborted] at hab
    rw [setPost_post_self] at hc
    exact ⟨pool, hpool, by rw [hsignal]; exact hp.signal hab c (.inl hc)⟩
  case kids =>
    intro hab q hq c hc
    cases hthis hq
    rw [haborted] at hab
    rw [hsignal]
    exact hp.signal hab c (.inr hc)
  case unread =>
    intro hab q hq c hc hsig
    cases hthis hq
    rw [haborted] at hab
    rw [hu.signalled hp.signalled] at hsig
    rw [setPost_post_self, hchans]
    exact hp.unread hab c hc hsig
  case newborn =>
    intro _ q c hins
    rw [setPost_post_self] at hins
    exact absurd hins (hp.inserting c)
  case felled =>
    intro hd
    rw [setPost_post_self] at hd
    exact absurd hd hp.there

end Family

end Silo.Lib
