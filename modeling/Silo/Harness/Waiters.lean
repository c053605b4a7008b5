import Mathlib.Data.Fintype.Pi
import Silo.Lib.Machine
import Silo.Harness.Signal

namespace Silo.Harness

open Silo.Lib

variable {τ : Type}

/-- One turn of the loop of `drain`, with the lock: a command is received and applied, or the
guard is dropped. -/
def Signal.drainStep (sig : Signal τ) : Signal τ × Bool :=
  match sig.queue with
  | [] => ({ sig with receiver := sig.receiver && sig.senders, holder := none }, true)
  | next :: rest =>
    if sig.receiver then ({ sig with queue := rest }.apply next, false) else ({ sig with holder := none }, true)

theorem Signal.grows_drainStep (sig : Signal τ) : sig.Grows sig.drainStep.1 := by
  rw [drainStep]
  split
  · refine ⟨fun _ h => h, Nat.le_refl _, ?_⟩
    intro hr
    exact (Bool.and_eq_true .. ▸ hr).1
  · split
    · have h := grows_apply { sig with queue := ‹_› } ‹_›
      exact ⟨h.state, h.interrupts, h.receiver⟩
    · exact ⟨fun _ h => h, Nat.le_refl _, fun h => h⟩

theorem Signal.drainStep_last (sig : Signal τ) (h : sig.queue = [] ∨ sig.receiver = false) :
    sig.drainStep = ({ sig with holder := none }.drain, true) := by
  cases sig with
  | mk state interrupts receiver queue senders holder applied requests =>
      rcases h with rfl | rfl
      · cases receiver <;> cases senders <;> rfl
      · cases queue <;> rfl

theorem Signal.drainStep_cons {sig : Signal τ} {command : FrontendCommand} {rest : List FrontendCommand}
    (hqueue : sig.queue = command :: rest) (hreceiver : sig.receiver = true) :
    sig.drainStep = ({ sig with queue := rest }.apply command, false) ∧
      ({ { sig with queue := rest }.apply command with holder := none } : Signal τ).drain =
        ({ sig with holder := none } : Signal τ).drain := by
  cases sig with
  | mk state interrupts receiver queue senders holder applied requests =>
      cases hqueue
      cases hreceiver
      cases command <;> exact ⟨rfl, rfl⟩

namespace Waiters

/-- Where a task is in the calls of the signal. Between two places other threads go on. -/
inductive Place
  | idle
  /-- `check` drains, with the lock. -/
  | check
  | entry (generation : Nat)
  /-- `wait_abort` drains, with the lock. -/
  | drain (generation : Nat)
  | read (kind : WaitKind)
  | compare (generation : Nat)
  | tryLock (wait : Wait)
  | suspended (wait : Wait)
  /-- The `select` is over, and its arm still has the guard. -/
  | release (kind : WaitKind)
  deriving DecidableEq, Repr

namespace Place

/-- The head of the loop; `wait` does not drain. -/
def head : WaitKind → Place
  | .abort generation => .entry generation
  | .shutdown => .read .shutdown

def polling : Place → Bool
  | .idle | .check | .suspended _ => false
  | _ => true

def locked : Place → Bool
  | .check | .drain _ | .release _ => true
  | _ => false

def waiting : Place → Option Wait
  | .tryLock w | .suspended w => some w
  | _ => none

@[simp] theorem polling_head (kind : WaitKind) : (head kind).polling = true := by cases kind <;> rfl

@[simp] theorem locked_head (kind : WaitKind) : (head kind).locked = false := by cases kind <;> rfl

@[simp] theorem waiting_head (kind : WaitKind) : (head kind).waiting = none := by cases kind <;> rfl

end Place

structure State (τ : Type) where
  signal : Signal τ
  places : τ → Place

/-- `check` and `start` are the beginnings of calls, `step` goes on with one, and `poll` and
`drop` are about a suspended wait, whose `select` may be ended by its other branch. -/
inductive Act (τ : Type)
  | send (command : FrontendCommand)
  | hangUp
  | request (message : Option String)
  | check (t : τ)
  | start (t : τ) (kind : WaitKind)
  | step (t : τ)
  | poll (t : τ) (command : Bool)
  | drop (t : τ)

variable [DecidableEq τ]

def State.move (s : State τ) (t : τ) (signal : Signal τ) (place : Place) : State τ :=
  ⟨signal, Function.update s.places t place⟩

def State.advance (s : State τ) (t : τ) : Option (State τ) :=
  match s.places t with
  | .idle | .suspended _ => none
  | .check => some (s.move t s.signal.drainStep.1 (if s.signal.drainStep.2 then .idle else .check))
  | .entry generation =>
    if s.signal.holder.isNone then some (s.move t { s.signal with holder := some t } (.drain generation))
    else some (s.move t s.signal (.read (.abort generation)))
  | .drain generation =>
    some (s.move t s.signal.drainStep.1 (if s.signal.drainStep.2 then .read (.abort generation) else .drain generation))
  | .read kind =>
    match s.signal.state, kind with
    | some _, _ => some (s.move t s.signal .idle)
    | none, .abort generation => some (s.move t s.signal (.compare generation))
    | none, .shutdown => some (s.move t s.signal (.tryLock ⟨.shutdown, false, s.signal.interrupts⟩))
  | .compare generation =>
    if generation < s.signal.interrupts then some (s.move t s.signal .idle)
    else some (s.move t s.signal (.tryLock ⟨.abort generation, false, s.signal.interrupts⟩))
  | .tryLock w =>
    -- the receiver that is gone is given back at once
    if s.signal.holder.isNone && s.signal.receiver then some (s.move t { s.signal with holder := some t } (.suspended w))
    else some (s.move t s.signal (.suspended w))
  | .release kind => some (s.move t { s.signal with holder := none } (.head kind))

/-- A suspended wait is polled. When a command and a change are both ready, `select` takes
either: `command` says which. -/
def State.pollSelect (s : State τ) (t : τ) (w : Wait) (command : Bool) : State τ :=
  if s.signal.holder = some t then
    match s.signal.queue with
    | [] =>
      if s.signal.changed w && (s.signal.senders || !command) then s.move t s.signal (.release w.kind)
      else if s.signal.senders then s
      else s.move t { s.signal with receiver := false } (.release w.kind)
    | next :: rest =>
      if s.signal.changed w && !command then s.move t s.signal (.release w.kind)
      else s.move t ({ s.signal with queue := rest }.apply next) (.release w.kind)
  else if s.signal.changed w then s.move t s.signal (.head w.kind)
  else s

def next (s : State τ) : Act τ → Option (State τ)
  | .send command => if s.signal.senders then some { s with signal := s.signal.send command } else none
  | .hangUp => some { s with signal := { s.signal with senders := false } }
  | .request message => some { s with signal := s.signal.request message }
  | .check t =>
    if s.places t = .idle then
      if s.signal.holder.isNone then some (s.move t { s.signal with holder := some t } .check) else some s
    else none
  | .start t kind => if s.places t = .idle then some (s.move t s.signal (.head kind)) else none
  | .step t => s.advance t
  | .poll t command =>
    match s.places t with
    | .suspended w => some (s.pollSelect t w command)
    | _ => none
  | .drop t =>
    match s.places t with
    | .suspended _ => some (s.move t (s.signal.dropWait t) .idle)
    | _ => none

def machine : Machine (State τ) (Act τ) :=
  ⟨fun s => s.signal = .new ∧ ∀ t, s.places t = .idle, next⟩

def State.woken (s : State τ) (t : τ) (w : Wait) : Bool :=
  s.signal.changed w ||
    (decide (s.signal.holder = some t) && (!s.signal.queue.isEmpty || !s.signal.senders))

/-- Suspended with no wake-up on its way. -/
def State.parked (s : State τ) (t : τ) : Bool :=
  match s.places t with
  | .suspended w => !s.woken t w
  | _ => false

def State.polls (s : State τ) (t : τ) : Bool := (s.places t).polling

def State.Held (s : State τ) : Prop := ∃ t, s.signal.holder = some t ∧ ∃ w, s.places t = .suspended w

/-- A parked wait is not left without one that has the receiver, and what is between two such
states, a poll under way, waits for nothing. -/
structure State.Attended (s : State τ) : Prop where
  held : s.signal.receiver = true → (∃ t, s.parked t = true) → (∀ t, s.polls t = false) → s.Held
  moving : ∀ t, s.polls t = true → (next s (.step t)).isSome = true

def State.OtherPolls (s : State τ) (t : τ) : Prop := ∃ u, u ≠ t ∧ s.polls u = true

def State.NoneParked (s : State τ) (t : τ) : Prop := ∀ u, u ≠ t → s.parked u = false

/-- Whoever gives the receiver up, or is kept from it by a checkpoint, leaves another poll of a
wait under way or no one parked. -/
def keepsAttended (s : State τ) : Act τ → Prop
  | .drop t => s.signal.holder = some t → s.OtherPolls t ∨ s.NoneParked t
  | .step t =>
    match s.places t with
    | .compare generation => generation < s.signal.interrupts → s.Held ∨ s.OtherPolls t ∨ s.NoneParked t
    | .tryLock _ => (∃ u, s.signal.holder = some u ∧ s.places u = .check) → s.OtherPolls t
    | _ => True
  | _ => True

/-- Someone will hear a command: the wait that has the receiver, or the poll of one, or all of them
when they wake up. -/
def State.Served (s : State τ) : Prop :=
  s.Held ∨ (∃ t, s.polls t = true) ∨ ∀ t w, s.places t = .suspended w → s.signal.changed w = true

structure Inv (s : State τ) : Prop where
  owner : ∀ t, s.signal.holder = some t → (s.places t).locked = true ∨ ∃ w, s.places t = .suspended w
  holds : ∀ t, (s.places t).locked = true → s.signal.holder = some t
  seen : ∀ t w, (s.places t).waiting = some w → w.stateSeen = false ∧ w.interruptsSeen ≤ s.signal.interrupts
  served : s.signal.receiver = true → s.Served

section Steps

variable {s s' : State τ} {t u : τ} {sig : Signal τ} {place : Place} {w : Wait} {generation : Nat} {kind : WaitKind}

@[simp] theorem move_self : (s.move t sig place).places t = place := Function.update_self ..

theorem move_of_ne (h : u ≠ t) : (s.move t sig place).places u = s.places u := Function.update_of_ne h ..

@[simp] theorem move_signal : (s.move t sig place).signal = sig := rfl

def Passes (t : τ) (before after : Option τ) : Prop :=
  after = before ∨ before = none ∧ after = some t ∨ before = some t ∧ after = none

theorem inv_move (h : Inv s) (hgrows : s.signal.Grows sig) (hlock : Passes t s.signal.holder sig.holder)
    (howner : sig.holder = some t → place.locked = true ∨ ∃ w, place = .suspended w)
    (hholds : place.locked = true → sig.holder = some t)
    (hseen : ∀ w, place.waiting = some w → w.stateSeen = false ∧ w.interruptsSeen ≤ sig.interrupts)
    (hserved : sig.receiver = true → (s.move t sig place).Served) : Inv (s.move t sig place) where
  owner := by
    intro u hu
    by_cases hut : u = t
    · subst u
      rw [move_self]
      exact howner hu
    · rw [move_of_ne hut]
      apply h.owner
      rcases hlock with hsame | ⟨-, htaken⟩ | ⟨-, hfree⟩
      · rw [← hsame]
        exact hu
      · exact absurd (Option.some.inj (hu.symm.trans htaken)) hut
      · cases hu.symm.trans hfree
  holds := by
    intro u hu
    by_cases hut : u = t
    · subst u
      exact hholds (by simpa using hu)
    · rw [move_of_ne hut] at hu
      have hbefore := h.holds u hu
      rcases hlock with hsame | ⟨hfree, -⟩ | ⟨hmine, -⟩
      · exact hsame.trans hbefore
      · cases hbefore.symm.trans hfree
      · exact absurd (Option.some.inj (hbefore.symm.trans hmine)) hut
  seen := by
    intro u w hw
    by_cases hut : u = t
    · subst u
      exact hseen w (by simpa using hw)
    · rw [move_of_ne hut] at hw
      obtain ⟨hstate, hint⟩ := h.seen u w hw
      exact ⟨hstate, Nat.le_trans hint hgrows.interrupts⟩
  served := hserved

theorem served_of_polling (h : place.polling = true) : (s.move t sig place).Served :=
  .inr (.inl ⟨t, by rwa [State.polls, move_self]⟩)

theorem inv_polling (h : Inv s) (hgrows : s.signal.Grows sig) (hlock : Passes t s.signal.holder sig.holder)
    (howner : sig.holder = some t ↔ place.locked = true) (hpolling : place.polling = true)
    (hseen : ∀ w, place.waiting = some w → w.stateSeen = false ∧ w.interruptsSeen ≤ sig.interrupts) :
    Inv (s.move t sig place) :=
  inv_move h hgrows hlock (fun h => .inl (howner.mp h)) howner.mpr hseen fun _ => served_of_polling hpolling

omit [DecidableEq τ] in
theorem Inv.free (h : Inv s) (hlocked : (s.places t).locked = false) (hsuspended : ∀ w, s.places t ≠ .suspended w) :
    s.signal.holder ≠ some t := by
  intro hholder
  rcases h.owner t hholder with hlock | ⟨w, hw⟩
  · rw [hlocked] at hlock
    cases hlock
  · exact hsuspended w hw

omit [DecidableEq τ] in
theorem ne_of_suspended (hu : s.places u = .suspended w) (ht : ∀ w, s.places t ≠ .suspended w) : u ≠ t := by
  rintro rfl
  exact ht w hu

theorem held_move (h : s.Held) (ht : ∀ w, s.places t ≠ .suspended w) (hholder : sig.holder = s.signal.holder) :
    (s.move t sig place).Held := by
  obtain ⟨u, hu, w, hw⟩ := h
  exact ⟨u, hholder.trans hu, w, by rw [move_of_ne (ne_of_suspended hw ht), hw]⟩

theorem otherPolls_move (h : s.OtherPolls t) : (s.move t sig place).Served := by
  obtain ⟨u, hut, hu⟩ := h
  exact .inr (.inl ⟨u, by rwa [State.polls, move_of_ne hut]⟩)

theorem changed_move (hgrows : s.signal.Grows sig) (h : Inv s) (hplace : ∀ w, place ≠ .suspended w)
    (hall : ∀ u w, u ≠ t → s.places u = .suspended w → s.signal.changed w = true) : (s.move t sig place).Served := by
  refine .inr (.inr ?_)
  intro u w hu
  by_cases hut : u = t
  · subst u
    rw [move_self] at hu
    exact absurd hu (hplace w)
  · rw [move_of_ne hut] at hu
    obtain ⟨hstate, hint⟩ := h.seen u w (by rw [hu]; rfl)
    exact Signal.changed_of_grows hgrows hstate hint (hall u w hut hu)

/-- Waits that are not parked are about to look, those apart that have the receiver. -/
theorem changed_of_noneParked (h : s.NoneParked t) (hother : u ≠ t) (hu : s.places u = .suspended w)
    (hholder : s.signal.holder ≠ some u) : s.signal.changed w = true := by
  have hparked := h u hother
  simpa [State.parked, hu, State.woken, hholder] using hparked

omit [DecidableEq τ] in
theorem inv_signal (h : Inv s) (hgrows : s.signal.Grows sig) (hholder : sig.holder = s.signal.holder) :
    Inv { s with signal := sig } where
  owner := by
    intro u hu
    exact h.owner u (hholder ▸ hu)
  holds := by
    intro u hu
    exact hholder.trans (h.holds u hu)
  seen := by
    intro u w hw
    obtain ⟨hstate, hint⟩ := h.seen u w hw
    exact ⟨hstate, Nat.le_trans hint hgrows.interrupts⟩
  served := by
    intro hr
    rcases h.served (hgrows.receiver hr) with ⟨u, hu, hw⟩ | hpolls | hall
    · exact .inl ⟨u, hholder.trans hu, hw⟩
    · exact .inr (.inl hpolls)
    · refine .inr (.inr ?_)
      intro u w hw
      obtain ⟨hstate, hint⟩ := h.seen u w (by rw [hw]; rfl)
      exact Signal.changed_of_grows hgrows hstate hint (hall u w hw)

/-- A checkpoint takes the lock only when no wait has it, and is no poll of one. -/
theorem served_check (h : Inv s) (hgrows : s.signal.Grows sig) (hr : sig.receiver = true)
    (hbefore : s.places t = .idle ∧ s.signal.holder = none ∨ s.places t = .check)
    (hplace : place = .idle ∨ place = .check) : (s.move t sig place).Served := by
  have hnone : ¬ s.Held := by
    rintro ⟨u, hu, w, hw⟩
    rcases hbefore with ⟨-, hfree⟩ | hcheck
    · cases hu.symm.trans hfree
    · have hmine : s.signal.holder = some t := h.holds t (by rw [hcheck]; rfl)
      obtain rfl := Option.some.inj (hu.symm.trans hmine)
      cases hw.symm.trans hcheck
  rcases h.served (hgrows.receiver hr) with hheld | ⟨u, hu⟩ | hall
  · exact absurd hheld hnone
  · refine otherPolls_move ⟨u, ?_, hu⟩
    rintro rfl
    rcases hbefore with ⟨hidle, -⟩ | hcheck
    · rw [State.polls, hidle] at hu
      cases hu
    · rw [State.polls, hcheck] at hu
      cases hu
  · refine changed_move hgrows h ?_ fun u w _ => hall u w
    rintro w rfl
    rcases hplace with hplace | hplace <;> cases hplace

omit [DecidableEq τ] in
theorem drainStep_lock (sig : Signal τ) :
    sig.drainStep.1.holder = if sig.drainStep.2 then none else sig.holder := by
  rw [Signal.drainStep]
  split
  · rfl
  · split <;> simp

omit [DecidableEq τ] in
theorem passes_drainStep (h : s.signal.holder = some t) : Passes t s.signal.holder s.signal.drainStep.1.holder := by
  rw [Passes, drainStep_lock]
  cases s.signal.drainStep.2 with
  | true => exact .inr (.inr ⟨h, rfl⟩)
  | false => exact .inl rfl

theorem inv_stay (h : Inv s) (hpolling : place.polling = true) (hlocked : place.locked = false)
    (hfree : s.signal.holder ≠ some t)
    (hseen : ∀ w, place.waiting = some w → w.stateSeen = false ∧ w.interruptsSeen ≤ s.signal.interrupts) :
    Inv (s.move t s.signal place) :=
  inv_polling h (.refl _) (.inl rfl) (by simp [hfree, hlocked]) hpolling hseen

theorem inv_checkStep (h : Inv s) (hplace : s.places t = .check) :
    Inv (s.move t s.signal.drainStep.1 (if s.signal.drainStep.2 then .idle else .check)) := by
  have hmine : s.signal.holder = some t := h.holds t (by rw [hplace]; rfl)
  apply inv_move h (Signal.grows_drainStep _) (passes_drainStep hmine)
  · rw [drainStep_lock]
    cases s.signal.drainStep.2 <;> simp [Place.locked]
  · rw [drainStep_lock]
    cases s.signal.drainStep.2 <;> simp [Place.locked, hmine]
  · cases s.signal.drainStep.2 <;> simp [Place.waiting]
  · intro hr
    apply served_check h (Signal.grows_drainStep _) hr (.inr hplace)
    cases s.signal.drainStep.2
    · exact .inr rfl
    · exact .inl rfl

theorem inv_drain (h : Inv s) (hplace : s.places t = .drain generation) :
    Inv (s.move t s.signal.drainStep.1 (if s.signal.drainStep.2 then .read (.abort generation) else .drain generation)) := by
  have hmine : s.signal.holder = some t := h.holds t (by rw [hplace]; rfl)
  apply inv_polling h (Signal.grows_drainStep _) (passes_drainStep hmine)
  · rw [drainStep_lock]
    cases s.signal.drainStep.2 <;> simp [Place.locked, hmine]
  · cases s.signal.drainStep.2 <;> rfl
  · cases s.signal.drainStep.2 <;> simp [Place.waiting]

theorem inv_entry (h : Inv s) (hplace : s.places t = .entry generation) (hn : s.advance t = some s') : Inv s' := by
  simp only [State.advance, hplace] at hn
  have hfree : s.signal.holder ≠ some t := h.free (by rw [hplace]; rfl) (by simp [hplace])
  split at hn <;> cases hn
  · rename_i hnone
    exact inv_polling h ⟨fun _ h => h, Nat.le_refl _, fun h => h⟩
      (.inr (.inl ⟨Option.isNone_iff_eq_none.mp hnone, rfl⟩)) (by simp [Place.locked]) rfl (by simp [Place.waiting])
  · exact inv_stay h rfl rfl hfree (by simp [Place.waiting])

theorem inv_read (h : Inv s) (hplace : s.places t = .read kind) (hn : s.advance t = some s') : Inv s' := by
  simp only [State.advance, hplace] at hn
  have hfree : s.signal.holder ≠ some t := h.free (by rw [hplace]; rfl) (by simp [hplace])
  split at hn <;> cases hn
  · -- a shutdown wakes every other wait
    rename_i message hstate
    refine inv_move h (.refl _) (.inl rfl) (fun hmine => absurd hmine hfree) (by simp [Place.locked])
      (by simp [Place.waiting]) ?_
    intro _
    apply changed_move (.refl _) h (by simp)
    intro u w _ hw
    obtain ⟨hseen, -⟩ := h.seen u w (by rw [hw]; rfl)
    simp [Signal.changed, hstate, hseen]
  · exact inv_stay h rfl rfl hfree (by simp [Place.waiting])
  · exact inv_stay h rfl rfl hfree (by simp [Place.waiting])

theorem inv_compare (h : Inv s) (hplace : s.places t = .compare generation) (hok : keepsAttended s (.step t))
    (hn : s.advance t = some s') : Inv s' := by
  simp only [State.advance, hplace] at hn
  have hfree : s.signal.holder ≠ some t := h.free (by rw [hplace]; rfl) (by simp [hplace])
  split at hn <;> cases hn
  · rename_i hdue
    refine inv_move h (.refl _) (.inl rfl) (fun hmine => absurd hmine hfree) (by simp [Place.locked])
      (by simp [Place.waiting]) ?_
    intro _
    simp only [keepsAttended, hplace] at hok
    by_cases hheld : s.Held
    · exact .inl (held_move hheld (by simp [hplace]) rfl)
    rcases hok hdue with hheld' | hother | hnone
    · exact absurd hheld' hheld
    · exact otherPolls_move hother
    · apply changed_move (.refl _) h (by simp)
      intro u w hut hw
      exact changed_of_noneParked hnone hut hw fun hu => hheld ⟨u, hu, w, hw⟩
  · exact inv_stay h rfl rfl hfree (by simp [Place.waiting])

theorem inv_tryLock (h : Inv s) (hplace : s.places t = .tryLock w) (hok : keepsAttended s (.step t))
    (hn : s.advance t = some s') : Inv s' := by
  simp only [State.advance, hplace] at hn
  have hfree : s.signal.holder ≠ some t := h.free (by rw [hplace]; rfl) (by simp [hplace])
  have hseen := h.seen t w (by rw [hplace]; rfl)
  split at hn <;> cases hn
  · rename_i hlock
    rw [Bool.and_eq_true, Option.isNone_iff_eq_none] at hlock
    refine inv_move h ⟨fun _ h => h, Nat.le_refl _, fun h => h⟩ (.inr (.inl ⟨hlock.1, rfl⟩)) (fun _ => .inr ⟨w, rfl⟩)
      (fun _ => rfl) (by simpa [Place.waiting] using hseen) ?_
    intro _
    exact .inl ⟨t, rfl, w, move_self⟩
  · rename_i hlock
    refine inv_move h (.refl _) (.inl rfl) (fun hmine => absurd hmine hfree) (by simp [Place.locked])
      (by simpa [Place.waiting] using hseen) ?_
    intro hr
    obtain ⟨u, hu⟩ : ∃ u, s.signal.holder = some u := by
      rw [hr, Bool.and_true, Option.isNone_iff_eq_none] at hlock
      exact Option.ne_none_iff_exists'.mp hlock
    rcases h.owner u hu with hlocked | ⟨v, hv⟩
    · -- the lock is with a checkpoint or with another poll
      simp only [keepsAttended, hplace] at hok
      by_cases hcheck : s.places u = .check
      · exact otherPolls_move (hok ⟨u, hu, hcheck⟩)
      · refine otherPolls_move ⟨u, ?_, ?_⟩
        · rintro rfl
          exact hfree hu
        · rw [State.polls]
          cases hpu : s.places u <;> simp_all [Place.locked, Place.polling]
    · exact .inl (held_move ⟨u, hu, v, hv⟩ (by simp [hplace]) rfl)

theorem inv_release (h : Inv s) (hplace : s.places t = .release kind) :
    Inv (s.move t { s.signal with holder := none } (.head kind)) := by
  have hmine : s.signal.holder = some t := h.holds t (by rw [hplace]; rfl)
  exact inv_polling h ⟨fun _ h => h, Nat.le_refl _, fun h => h⟩ (.inr (.inr ⟨hmine, rfl⟩)) (by simp)
    (Place.polling_head kind) (by simp)

theorem inv_advance (h : Inv s) (hok : keepsAttended s (.step t)) (hn : s.advance t = some s') : Inv s' := by
  cases hplace : s.places t with
  | idle | suspended =>
      simp only [State.advance, hplace] at hn
      cases hn
  | check =>
      simp only [State.advance, hplace] at hn
      cases hn
      exact inv_checkStep h hplace
  | drain =>
      simp only [State.advance, hplace] at hn
      cases hn
      exact inv_drain h hplace
  | release =>
      simp only [State.advance, hplace] at hn
      cases hn
      exact inv_release h hplace
  | entry => exact inv_entry h hplace hn
  | read => exact inv_read h hplace hn
  | compare => exact inv_compare h hplace hok hn
  | tryLock => exact inv_tryLock h hplace hok hn

theorem inv_pollSelect (h : Inv s) (w : Wait) (command : Bool) : Inv (s.pollSelect t w command) := by
  have hover {sig : Signal τ} (hgrows : s.signal.Grows sig) (hmine : s.signal.holder = some t)
      (hholder : sig.holder = s.signal.holder) : Inv (s.move t sig (.release w.kind)) :=
    inv_polling h hgrows (.inl hholder) (by simp [hholder, hmine, Place.locked]) rfl (by simp [Place.waiting])
  rw [State.pollSelect]
  split
  · rename_i hmine
    split
    · split
      · exact hover (.refl _) hmine rfl
      · split
        · exact h
        · exact hover ⟨fun _ h => h, Nat.le_refl _, nofun⟩ hmine rfl
    · split
      · exact hover (.refl _) hmine rfl
      · rename_i next rest hqueue _
        have happly := Signal.grows_apply { s.signal with queue := rest } next
        exact hover ⟨happly.state, happly.interrupts, happly.receiver⟩ hmine (by simp)
  · rename_i hother
    split
    · exact inv_polling h (.refl _) (.inl rfl) (by simp [hother]) (Place.polling_head _) (by simp)
    · exact h

theorem inv_drop (h : Inv s) (hok : keepsAttended s (.drop t)) (hw : s.places t = .suspended w) :
    Inv (s.move t (s.signal.dropWait t) .idle) := by
  have hgrows : s.signal.Grows (s.signal.dropWait t) := by
    rw [Signal.dropWait]
    split <;> exact ⟨fun _ h => h, Nat.le_refl _, fun h => h⟩
  by_cases hmine : s.signal.holder = some t
  · have hdrop : (s.signal.dropWait t).holder = none := by rw [Signal.dropWait, if_pos hmine]
    refine inv_move h hgrows (.inr (.inr ⟨hmine, hdrop⟩)) (by simp [hdrop]) (by simp [Place.locked])
      (by simp [Place.waiting]) ?_
    intro _
    rcases hok hmine with hother | hnone
    · exact otherPolls_move hother
    · apply changed_move hgrows h (by simp)
      intro u v hut hv
      apply changed_of_noneParked hnone hut hv
      rw [hmine]
      exact fun heq => hut (Option.some.inj heq).symm
  · have hdrop : s.signal.dropWait t = s.signal := if_neg hmine
    rw [hdrop]
    apply inv_move h (.refl _) (.inl rfl) (fun h => absurd h hmine) (by simp [Place.locked]) (by simp [Place.waiting])
    intro hr
    rcases h.served hr with ⟨u, hu, v, hv⟩ | ⟨u, hu⟩ | hall
    · refine .inl ⟨u, hu, v, ?_⟩
      rw [move_of_ne, hv]
      rintro rfl
      exact hmine hu
    · refine otherPolls_move ⟨u, ?_, hu⟩
      rintro rfl
      rw [State.polls, hw] at hu
      cases hu
    · exact changed_move (.refl _) h (by simp) fun u v _ => hall u v

theorem inv_step {act : Act τ} (h : Inv s) (hok : keepsAttended s act) (hn : next s act = some s') : Inv s' := by
  cases act with
  | send command =>
      simp only [next] at hn
      split at hn <;> cases hn
      exact inv_signal h ⟨fun _ hm => hm, Nat.le_refl _, fun hr => hr⟩ rfl
  | hangUp =>
      cases hn
      exact inv_signal h ⟨fun _ hm => hm, Nat.le_refl _, fun hr => hr⟩ rfl
  | request message =>
      cases hn
      exact inv_signal h (Signal.grows_request _ _) rfl
  | check t =>
      simp only [next] at hn
      split at hn
      · rename_i hidle
        split at hn <;> cases hn
        · rename_i hnone
          rw [Option.isNone_iff_eq_none] at hnone
          refine inv_move h ⟨fun _ hm => hm, Nat.le_refl _, fun hr => hr⟩ (.inr (.inl ⟨hnone, rfl⟩)) (fun _ => .inl rfl)
            (fun _ => rfl) (by simp [Place.waiting]) ?_
          intro hr
          exact served_check h ⟨fun _ hm => hm, Nat.le_refl _, fun hr => hr⟩ hr (.inl ⟨hidle, hnone⟩) (.inr rfl)
        · exact h
      · cases hn
  | start t kind =>
      simp only [next] at hn
      split at hn <;> cases hn
      rename_i hidle
      have hfree : s.signal.holder ≠ some t := h.free (by rw [hidle]; rfl) (by simp [hidle])
      exact inv_polling h (.refl _) (.inl rfl) (by simp [hfree]) (Place.polling_head kind) (by simp)
  | step t => exact inv_advance h hok hn
  | poll t command =>
      simp only [next] at hn
      split at hn <;> cases hn
      exact inv_pollSelect h _ command
  | drop t =>
      simp only [next] at hn
      split at hn <;> cases hn
      exact inv_drop h hok ‹_›

theorem attended_of_inv (h : Inv s) : s.Attended where
  held := by
    rintro hr ⟨t, ht⟩ hquiet
    rcases h.served hr with hheld | ⟨u, hu⟩ | hall
    · exact hheld
    · rw [hquiet u] at hu
      cases hu
    · rw [State.parked] at ht
      split at ht
      · rename_i w hw
        rw [State.woken, hall t w hw] at ht
        cases ht
      · cases ht
  moving := by
    intro t ht
    rw [State.polls] at ht
    simp only [next, State.advance]
    cases hplace : s.places t with
    | idle | check | suspended => simp [hplace, Place.polling] at ht
    | entry | compare | tryLock =>
        dsimp only
        split <;> rfl
    | read kind =>
        dsimp only
        split <;> rfl
    | drain | release => rfl

end Steps

theorem inv_initial {s : State τ} (h : machine.init s) : Inv s := by
  obtain ⟨hsignal, hplaces⟩ := h
  refine ⟨?_, ?_, ?_, ?_⟩
  · intro t ht
    rw [hsignal] at ht
    cases ht
  · intro t ht
    rw [hplaces t] at ht
    cases ht
  · intro t w hw
    rw [hplaces t] at hw
    cases hw
  · refine fun _ => .inr (.inr ?_)
    intro t w hw
    rw [hplaces t] at hw
    cases hw

/-- As long as no wait that gives the receiver up, and no checkpoint that has it, leaves someone
parked behind, a parked wait is never left without one that receives for it. -/
theorem wait_abort_attended {s : State τ} (h : machine.ReachableUnder keepsAttended s) : s.Attended :=
  attended_of_inv (h.invariant inv_initial inv_step)

/-! Calls that no other task comes between do what the signal does in one step. -/

section Atomic

variable {s : State τ} {t : τ}

/-- The actions of one task, and no drop. -/
def Act.own (t : τ) : Act τ → Bool
  | .check u | .start u _ | .step u | .poll u _ => u = t
  | _ => false

def Alone (t : τ) : State τ → State τ → Prop := machine.RunsTo fun _ act => act.own t = true

def Place.after : Polled → Place
  | .ready _ => .idle
  | .pending w => .suspended w

@[simp] theorem move_move (sig sig' : Signal τ) (place place' : Place) :
    (s.move t sig place).move t sig' place' = s.move t sig' place' := by
  simp [State.move]

theorem move_same {place : Place} (h : s.places t = place) : s.move t s.signal place = s := by
  cases s with
  | mk signal places => simp [State.move, ← h]

theorem Alone.trans {u v : State τ} (h : Alone t s u) (h' : Alone t u v) : Alone t s v := Machine.RunsTo.trans h h'

theorem alone_step {u v : State τ} (hn : s.advance t = some u) (h : Alone t u v) : Alone t s v :=
  Machine.RunsTo.head (l := .step t) (by simp [Act.own]) hn h

theorem alone_refl (s : State τ) : Alone t s s := .refl

omit [DecidableEq τ] in
theorem free_of_holder {sig : Signal τ} (h : sig.holder = none) : { sig with holder := none } = sig := by
  rw [← h]

theorem alone_drain {place after : Place} (hadvance : ∀ s : State τ, s.places t = place →
      s.advance t = some (s.move t s.signal.drainStep.1 (if s.signal.drainStep.2 then after else place)))
    (hplace : s.places t = place) : Alone t s (s.move t { s.signal with holder := none }.drain after) := by
  have hlast (s : State τ) (hplace : s.places t = place) (h : s.signal.queue = [] ∨ s.signal.receiver = false) :
      Alone t s (s.move t { s.signal with holder := none }.drain after) := by
    apply alone_step (hadvance s hplace)
    rw [Signal.drainStep_last _ h]
    exact alone_refl _
  generalize hqueue : s.signal.queue = queue
  induction queue generalizing s with
  | nil => exact hlast s hplace (.inl hqueue)
  | cons command rest ih =>
      cases hr : s.signal.receiver with
      | false => exact hlast s hplace (.inr hr)
      | true =>
          obtain ⟨hstep, hdrain⟩ := Signal.drainStep_cons hqueue hr
          have hrest := ih (s := s.move t ({ s.signal with queue := rest }.apply command) place) move_self
            (by cases command <;> rfl)
          rw [move_move, move_signal, hdrain] at hrest
          apply alone_step (hadvance s hplace)
          rw [hstep]
          exact hrest

theorem alone_check (hidle : s.places t = .idle) : Alone t s (s.move t s.signal.check.1 .idle) := by
  cases hholder : s.signal.holder with
  | none =>
      have hn : machine.next s (.check t) = some (s.move t { s.signal with holder := some t } .check) := by
        simp [machine, next, hidle, hholder]
      have hadvance (s : State τ) (hplace : s.places t = .check) :
          s.advance t = some (s.move t s.signal.drainStep.1 (if s.signal.drainStep.2 then .idle else .check)) := by
        rw [State.advance, hplace]
      have hdrain := alone_drain hadvance (s := s.move t { s.signal with holder := some t } .check) move_self
      rw [move_move, move_signal, free_of_holder hholder] at hdrain
      refine Machine.RunsTo.head ?_ hn hdrain
      exact decide_eq_true rfl
  | some u =>
      rw [Signal.check, Signal.drain_of_held (by rw [hholder]; rfl), move_same hidle]
      exact alone_refl s

theorem alone_park (w : Wait) (hplace : s.places t = .tryLock w) (hseen : w.stateSeen = s.signal.state.isSome)
    (hint : w.interruptsSeen = s.signal.interrupts) :
    Alone t s (s.move t (s.signal.park t w.kind).1 (.after (s.signal.park t w.kind).2)) := by
  have hw : (⟨w.kind, s.signal.state.isSome, s.signal.interrupts⟩ : Wait) = w := by rw [← hseen, ← hint]
  have hadvance : s.advance t = some (s.move t (s.signal.park t w.kind).1 (.after (s.signal.park t w.kind).2)) := by
    rw [State.advance, hplace, Signal.park, hw]
    dsimp only [Place.after]
    split <;> rfl
  exact alone_step hadvance (alone_refl _)

theorem alone_read {sig : Signal τ} {generation : Nat} (hplace : s.places t = .read (.abort generation))
    (hdrained : s.signal = sig.drain) :
    Alone t s (s.move t (sig.loopAbort t generation).1 (.after (sig.loopAbort t generation).2)) := by
  rw [Signal.loopAbort, ← hdrained]
  cases hstate : s.signal.state with
  | some message =>
      refine alone_step (u := s.move t s.signal .idle) ?_ (alone_refl _)
      rw [State.advance, hplace]
      simp [hstate]
  | none =>
      apply alone_step (u := s.move t s.signal (.compare generation))
      · rw [State.advance, hplace]
        simp [hstate]
      dsimp only
      by_cases hdue : generation < s.signal.interrupts
      · rw [if_pos hdue]
        have hadvance : (s.move t s.signal (.compare generation)).advance t = some (s.move t s.signal .idle) := by
          simp [State.advance, hdue]
        exact alone_step hadvance (alone_refl _)
      · rw [if_neg hdue]
        have hadvance : (s.move t s.signal (.compare generation)).advance t =
            some (s.move t s.signal (.tryLock ⟨.abort generation, false, s.signal.interrupts⟩)) := by
          simp [State.advance, hdue]
        have hpark := alone_park (s := s.move t s.signal (.tryLock ⟨.abort generation, false, s.signal.interrupts⟩))
          (t := t) _ move_self (by simp [hstate]) rfl
        rw [move_move] at hpark
        exact alone_step hadvance hpark

theorem alone_abort {generation : Nat} (hplace : s.places t = .entry generation) :
    Alone t s (s.move t (s.signal.loopAbort t generation).1 (.after (s.signal.loopAbort t generation).2)) := by
  cases hholder : s.signal.holder with
  | none =>
      have hadvance : s.advance t = some (s.move t { s.signal with holder := some t } (.drain generation)) := by
        simp [State.advance, hplace, hholder]
      have hturn (s : State τ) (hplace : s.places t = .drain generation) : s.advance t = some
          (s.move t s.signal.drainStep.1 (if s.signal.drainStep.2 then .read (.abort generation) else .drain generation)) := by
        rw [State.advance, hplace]
      have hdrain := alone_drain hturn (s := s.move t { s.signal with holder := some t } (.drain generation)) move_self
      rw [move_move, move_signal, free_of_holder hholder] at hdrain
      have hread := alone_read (s := s.move t s.signal.drain (.read (.abort generation))) (t := t) move_self rfl
      rw [move_move] at hread
      exact alone_step hadvance (hdrain.trans hread)
  | some u =>
      have hadvance : s.advance t = some (s.move t s.signal (.read (.abort generation))) := by
        simp [State.advance, hplace, hholder]
      have hheld : s.signal.drain = s.signal := Signal.drain_of_held (by rw [hholder]; rfl)
      have hread := alone_read (s := s.move t s.signal (.read (.abort generation))) (t := t) move_self hheld.symm
      rw [move_move] at hread
      exact alone_step hadvance hread

theorem alone_poll {u v : State τ} {w : Wait} {command : Bool} (hplace : s.places t = .suspended w)
    (hn : s.pollSelect t w command = u) (h : Alone t u v) : Alone t s v := by
  have hnext : machine.next s (.poll t command) = some u := by
    simp [machine, next, hplace, hn]
  refine Machine.RunsTo.head ?_ hnext h
  exact decide_eq_true rfl

theorem alone_release {kind : WaitKind} {sig : Signal τ} {v : State τ} (hplace : s.places t = .release kind)
    (hsignal : { s.signal with holder := none } = sig) (h : Alone t (s.move t sig (.head kind)) v) : Alone t s v := by
  refine alone_step ?_ h
  rw [State.advance, hplace, hsignal]

omit [DecidableEq τ] in
theorem receive_queue (commands queue : List FrontendCommand) (sig : Signal τ) :
    Signal.receiveUntilShutdown commands { sig with queue := queue } = Signal.receiveUntilShutdown commands sig := by
  induction commands generalizing sig with
  | nil => rfl
  | cons command rest ih =>
      have happly : ({ sig with queue := queue } : Signal τ).apply command = { sig.apply command with queue := queue } := by
        cases command <;> rfl
      rw [Signal.receiveUntilShutdown, Signal.receiveUntilShutdown, happly, ih]

omit [DecidableEq τ] in
theorem loopWait_cons {sig : Signal τ} {command : FrontendCommand} {rest : List FrontendCommand}
    (hstate : sig.state = none) (hfree : sig.holder = none) (hreceiver : sig.receiver = true)
    (hqueue : sig.queue = command :: rest) (t : τ) :
    sig.loopWait t = ({ sig with queue := rest }.apply command).loopWait t := by
  have happly : ({ sig with queue := rest } : Signal τ).apply command = { sig.apply command with queue := rest } := by
    cases command <;> rfl
  rw [Signal.loopWait, happly, Signal.loopWait, hstate, hfree, hreceiver, hqueue]
  cases command with
  | shutdown message =>
      simp [Signal.receiveUntilShutdown, Signal.apply, Signal.request, hstate]
  | interrupt =>
      have hrest := receive_queue rest rest (sig.apply .interrupt)
      simp [Signal.receiveUntilShutdown, Signal.apply, hstate, hfree, hreceiver] at hrest ⊢
      rw [hrest]

theorem advance_read (hplace : s.places t = .read .shutdown) (hstate : s.signal.state = none) :
    s.advance t = some (s.move t s.signal (.tryLock ⟨.shutdown, false, s.signal.interrupts⟩)) := by
  rw [State.advance, hplace]
  simp [hstate]

theorem alone_wait_without (hplace : s.places t = .read .shutdown)
    (h : s.signal.state.isSome ∨ s.signal.holder.isSome ∨ s.signal.receiver = false) :
    Alone t s (s.move t (s.signal.loopWait t).1 (.after (s.signal.loopWait t).2)) := by
  rw [Signal.loopWait]
  cases hstate : s.signal.state with
  | some message =>
      have hadvance : s.advance t = some (s.move t s.signal .idle) := by
        rw [State.advance, hplace]
        simp [hstate]
      exact alone_step hadvance (alone_refl _)
  | none =>
      have hbusy : (s.signal.holder.isSome || !s.signal.receiver) = true := by simpa [hstate] using h
      have hpark := alone_park (s := s.move t s.signal (.tryLock ⟨.shutdown, false, s.signal.interrupts⟩)) (t := t) _
        move_self (by simp [hstate]) rfl
      rw [move_move] at hpark
      dsimp only
      rw [if_pos hbusy]
      exact alone_step (advance_read hplace hstate) hpark

theorem alone_wait_with {v : State τ} (hplace : s.places t = .read .shutdown) (hstate : s.signal.state = none)
    (hfree : s.signal.holder = none) (hreceiver : s.signal.receiver = true)
    (h : Alone t (s.move t { s.signal with holder := some t } (.suspended ⟨.shutdown, false, s.signal.interrupts⟩)) v) :
    Alone t s v := by
  apply alone_step (advance_read hplace hstate)
  refine alone_step ?_ h
  simp [State.advance, hfree, hreceiver]

omit [DecidableEq τ] in
theorem loopWait_nil {sig : Signal τ} (hstate : sig.state = none) (hfree : sig.holder = none)
    (hreceiver : sig.receiver = true) (hqueue : sig.queue = []) (t : τ) :
    sig.loopWait t =
      if sig.senders then ({ sig with holder := some t }, .pending ⟨.shutdown, false, sig.interrupts⟩)
      else ({ sig with receiver := false } : Signal τ).loopWait t := by
  cases sig with
  | mk state interrupts receiver queue senders holder applied requests =>
      cases hstate
      cases hfree
      cases hreceiver
      cases hqueue
      cases senders <;> rfl

theorem pollSelect_gone {w : Wait} (hmine : s.signal.holder = some t) (hqueue : s.signal.queue = [])
    (hsenders : s.signal.senders = false) :
    s.pollSelect t w true = s.move t { s.signal with receiver := false } (.release w.kind) := by
  rw [State.pollSelect, if_pos hmine, hqueue]
  simp [hsenders]

theorem pollSelect_command {w : Wait} {command : FrontendCommand} {rest : List FrontendCommand}
    (hmine : s.signal.holder = some t) (hqueue : s.signal.queue = command :: rest) :
    s.pollSelect t w true = s.move t ({ s.signal with queue := rest }.apply command) (.release w.kind) := by
  rw [State.pollSelect, if_pos hmine, hqueue]
  simp

theorem alone_wait (hplace : s.places t = .read .shutdown) :
    Alone t s (s.move t (s.signal.loopWait t).1 (.after (s.signal.loopWait t).2)) := by
  generalize hqueue : s.signal.queue = queue
  induction queue generalizing s with
  | nil =>
      by_cases hwithout : s.signal.state.isSome ∨ s.signal.holder.isSome ∨ s.signal.receiver = false
      · exact alone_wait_without hplace hwithout
      simp only [not_or, Option.not_isSome_iff_eq_none, Bool.not_eq_false] at hwithout
      obtain ⟨hstate, hfree, hreceiver⟩ := hwithout
      apply alone_wait_with hplace hstate hfree hreceiver
      rw [loopWait_nil hstate hfree hreceiver hqueue]
      by_cases hsenders : s.signal.senders = true
      · rw [if_pos hsenders]
        exact alone_refl _
      · rw [if_neg hsenders]
        have hsignal : ({ s.signal with receiver := false, holder := none } : Signal τ) =
            { s.signal with receiver := false } := by rw [← hfree]
        refine alone_poll move_self (pollSelect_gone rfl hqueue (Bool.eq_false_iff.mpr hsenders)) ?_
        refine alone_release move_self hsignal ?_
        have hgone := alone_wait_without (s := s.move t { s.signal with receiver := false } (.read .shutdown)) (t := t)
          move_self (.inr (.inr rfl))
        rw [move_move] at hgone
        rw [move_move, move_move]
        exact hgone
  | cons command rest ih =>
      by_cases hwithout : s.signal.state.isSome ∨ s.signal.holder.isSome ∨ s.signal.receiver = false
      · exact alone_wait_without hplace hwithout
      simp only [not_or, Option.not_isSome_iff_eq_none, Bool.not_eq_false] at hwithout
      obtain ⟨hstate, hfree, hreceiver⟩ := hwithout
      apply alone_wait_with hplace hstate hfree hreceiver
      rw [loopWait_cons hstate hfree hreceiver hqueue]
      have hsignal : ({ ({ s.signal with holder := some t, queue := rest } : Signal τ).apply command with holder := none } :
          Signal τ) = { s.signal with queue := rest }.apply command := by
        cases command <;> simp [Signal.apply, Signal.request, hfree]
      refine alone_poll move_self (pollSelect_command rfl hqueue) ?_
      apply alone_release move_self hsignal
      have hrest := ih (s := s.move t ({ s.signal with queue := rest }.apply command) (.read .shutdown)) move_self
        (by cases command <;> rfl)
      rw [move_move] at hrest
      rw [move_move, move_move]
      exact hrest

theorem alone_loop {kind : WaitKind} (hplace : s.places t = .head kind) :
    Alone t s (s.move t (s.signal.loop t kind).1 (.after (s.signal.loop t kind).2)) := by
  cases kind with
  | abort generation => exact alone_abort hplace
  | shutdown => exact alone_wait hplace

theorem alone_pollSelect {w : Wait} {command : Bool} (hplace : s.places t = .suspended w) :
    Alone t s (s.move t (s.signal.poll t w command).1 (.after (s.signal.poll t w command).2)) := by
  have hover {sig : Signal τ} (hn : s.pollSelect t w command = s.move t sig (.release w.kind)) :
      Alone t s (s.move t (({ sig with holder := none } : Signal τ).loop t w.kind).1
        (.after (({ sig with holder := none } : Signal τ).loop t w.kind).2)) := by
    have hloop := alone_loop (s := s.move t { sig with holder := none } (.head w.kind)) (t := t) move_self
    rw [move_move] at hloop
    refine alone_poll hplace hn (alone_release move_self rfl ?_)
    rw [move_move]
    exact hloop
  have hstay (hn : s.pollSelect t w command = s) : Alone t s (s.move t s.signal (.suspended w)) := by
    rw [move_same hplace]
    exact alone_refl s
  rw [Signal.poll]
  split
  · rename_i hmine
    dsimp only
    split
    · rename_i hqueue
      split
      · rename_i hchanged
        apply hover
        rw [State.pollSelect, if_pos hmine, hqueue]
        exact if_pos hchanged
      · rename_i hchanged
        split
        · rename_i hsenders
          exact hstay (by rw [State.pollSelect, if_pos hmine, hqueue, if_neg hchanged, if_pos hsenders])
        · rename_i hsenders
          have hn : s.pollSelect t w command = s.move t { s.signal with receiver := false } (.release w.kind) := by
            rw [State.pollSelect, if_pos hmine, hqueue]
            dsimp only
            rw [if_neg hchanged, if_neg hsenders]
          exact hover hn
    · rename_i next rest hqueue
      split
      · rename_i hchanged
        apply hover
        rw [State.pollSelect, if_pos hmine, hqueue]
        exact if_pos hchanged
      · rename_i hchanged
        have happly : ({ s.signal with holder := none, queue := rest } : Signal τ).apply next =
            { ({ s.signal with queue := rest } : Signal τ).apply next with holder := none } := by
          cases next <;> rfl
        rw [happly]
        apply hover
        rw [State.pollSelect, if_pos hmine, hqueue]
        exact if_neg hchanged
  · rename_i hother
    split
    · rename_i hchanged
      have hloop := alone_loop (s := s.move t s.signal (.head w.kind)) (t := t) move_self
      rw [move_move] at hloop
      have hn : s.pollSelect t w command = s.move t s.signal (.head w.kind) := by
        rw [State.pollSelect, if_neg hother, if_pos hchanged]
      exact alone_poll hplace hn hloop
    · rename_i hchanged
      exact hstay (by rw [State.pollSelect, if_neg hother, if_neg hchanged])

end Atomic

section Examples

instance (place : Place) : Decidable (∃ w, place = .suspended w) :=
  match place with
  | .suspended w => .isTrue ⟨w, rfl⟩
  | .idle | .check | .entry _ | .drain _ | .read _ | .compare _ | .tryLock _ | .release _ => .isFalse (by simp)

instance [Fintype τ] (s : State τ) : Decidable s.Held := by
  rw [State.Held]
  infer_instance

instance [Fintype τ] (s : State τ) (t : τ) : Decidable (s.OtherPolls t) := by
  rw [State.OtherPolls]
  infer_instance

instance [Fintype τ] (s : State τ) (t : τ) : Decidable (s.NoneParked t) := by
  rw [State.NoneParked]
  infer_instance

instance [Fintype τ] (s : State τ) (act : Act τ) : Decidable (keepsAttended s act) := by
  cases act with
  | step t =>
      simp only [keepsAttended]
      split <;> infer_instance
  | _ =>
      simp only [keepsAttended]
      infer_instance

def State.unattended [Fintype τ] (s : State τ) : Bool :=
  s.signal.receiver && decide (∃ t, s.parked t = true) && decide (∀ t, s.polls t = false) && !decide s.Held

def quiet : State (Fin 2) := ⟨.new, fun _ => .idle⟩

theorem quiet_initial : machine.init quiet := ⟨rfl, fun _ => rfl⟩

/-- The top-level agent waits for its model with the receiver, a subagent without it. An interrupt
ends the first wait while the second is being polled, which gets the receiver. -/
def handedOver : List (Act (Fin 2)) :=
  Act.start 0 (.abort 0) :: List.replicate 5 (.step 0) ++ Act.start 1 (.abort 1) :: List.replicate 4 (.step 1) ++
    [Act.send .interrupt, .poll 0 true, .poll 1 false, .step 0, .step 1, .step 0, .step 1, .step 0, .step 0] ++
      List.replicate 3 (Act.step 1)

theorem wait_abort_attended_handed_over :
    ∃ s : State (Fin 2), machine.ReachableUnder keepsAttended s ∧ s.signal.receiver = true ∧
      s.parked 1 = true ∧ s.Attended := by
  obtain ⟨s, hr, hp⟩ := Machine.exists_of_runChecked (fun s l => decide (keepsAttended s l)) handedOver
    (fun s => s.signal.receiver && s.parked 1) quiet_initial (by decide)
  rw [Bool.and_eq_true] at hp
  have hr' : machine.ReachableUnder keepsAttended s := hr.mono fun _ _ hc => of_decide_eq_true hc
  exact ⟨s, hr', hp.1, hp.2, wait_abort_attended hr'⟩

/-- The model answers the top-level agent, whose wait is dropped; the subagent stays parked and
nobody receives commands. -/
def leftBehind : List (Act (Fin 2)) :=
  Act.start 0 (.abort 0) :: List.replicate 5 (.step 0) ++ Act.start 1 (.abort 0) :: List.replicate 4 (.step 1) ++
    [Act.drop 0]

theorem wait_abort_left_behind : ¬ ∀ s : State (Fin 2), machine.Reachable s → s.Attended := by
  intro hall
  obtain ⟨s, hr, hp⟩ := Machine.exists_of_run leftBehind State.unattended quiet_initial (by decide)
  simp only [State.unattended, Bool.and_eq_true, decide_eq_true_eq, Bool.not_eq_true', decide_eq_false_iff_not] at hp
  exact hp.2 ((hall s hr).held hp.1.1.1 hp.1.1.2 hp.1.2)

-- A checkpoint that has the lock when a wait looks for it is enough.
example : (machine.run quiet (Act.check 0 :: .start 1 (.abort 0) :: List.replicate 4 (.step 1) ++ [Act.step 0])).any
    State.unattended = true := by decide

end Examples

end Waiters

end Silo.Harness
