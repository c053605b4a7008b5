import Silo.Harness.Drive

namespace Silo.Harness

open Silo.Core

variable {τ : Type}

/-- The shutdown signal shared by all tasks. `holder` is the task suspended
with the guard of the command receiver. `applied` and `requests` remember what
has been applied and requested, in order, and are read by no code. -/
structure Signal (τ : Type) where
  state : Option (Option String)
  interrupts : Nat
  receiver : Bool
  queue : List FrontendCommand
  senders : Bool
  holder : Option τ
  applied : List FrontendCommand
  requests : List (Option String)

namespace Signal

def new : Signal τ := ⟨none, 0, true, [], true, none, [], []⟩

variable (sig : Signal τ)

def request (message : Option String) : Signal τ :=
  { sig with state := some (sig.state.getD message), requests := sig.requests ++ [message] }

def apply : FrontendCommand → Signal τ
  | .shutdown message =>
    { sig with applied := sig.applied ++ [FrontendCommand.shutdown message] }.request message
  | .interrupt =>
    { sig with applied := sig.applied ++ [.interrupt], interrupts := sig.interrupts + 1 }

def applyAll (commands : List FrontendCommand) : Signal τ := commands.foldl apply sig

def drain : Signal τ :=
  if sig.holder.isSome || !sig.receiver then sig
  else
    let sig' := { sig with queue := [] }.applyAll sig.queue
    if sig.senders then sig' else { sig' with receiver := false }

def check : Signal τ × Option (Option String) := (sig.drain, sig.drain.state)

def interruptGeneration : Nat := sig.interrupts

def interruptedSince (generation : Nat) : Bool := generation < sig.interrupts

/-- A checkpoint of the agent loop: `check`, then `interrupted_since`. -/
def checkpoint (generation : Nat) : Signal τ × Checkpoint :=
  (sig.drain,
    if sig.drain.state.isSome then .shutdown
    else if sig.drain.interruptedSince generation then .interrupted
    else .clear)

end Signal

inductive WaitKind
  | abort (generation : Nat)
  | shutdown
  deriving DecidableEq, Repr

/-- A suspended `wait_abort` or `wait`, with what it last saw in the two watch
channels. -/
structure Wait where
  kind : WaitKind
  stateSeen : Bool
  interruptsSeen : Nat
  deriving DecidableEq, Repr

inductive Polled
  | ready (reason : AbortReason)
  | pending (wait : Wait)
  deriving DecidableEq, Repr

namespace Signal

variable (sig : Signal τ) (t : τ)

/-- The wait suspends in its `select`, with the receiver if it is free. -/
def park (kind : WaitKind) : Signal τ × Polled :=
  (if sig.holder.isNone && sig.receiver then { sig with holder := some t } else sig,
    .pending ⟨kind, sig.state.isSome, sig.interrupts⟩)

def loopAbort (generation : Nat) : Signal τ × Polled :=
  match sig.drain.state with
  | some message => (sig.drain, .ready (.shutdown message))
  | none =>
    if generation < sig.drain.interrupts then (sig.drain, .ready .interrupted)
    else sig.drain.park t (.abort generation)

/-- `wait` drains nothing. It receives one command after the other until the
channel is empty or a shutdown is requested. -/
def receiveUntilShutdown : List FrontendCommand → Signal τ → Signal τ
  | [], sig => { sig with queue := [] }
  | command :: rest, sig =>
    if (sig.apply command).state.isSome then { sig.apply command with queue := rest }
    else receiveUntilShutdown rest (sig.apply command)

def loopWait : Signal τ × Polled :=
  match sig.state with
  | some message => (sig, .ready (.shutdown message))
  | none =>
    if sig.holder.isSome || !sig.receiver then sig.park t .shutdown
    else
      let sig' := receiveUntilShutdown sig.queue sig
      match sig'.state with
      | some message => (sig', .ready (.shutdown message))
      | none => (if sig.senders then sig' else { sig' with receiver := false }).park t .shutdown

def loop : WaitKind → Signal τ × Polled
  | .abort generation => sig.loopAbort t generation
  | .shutdown => sig.loopWait t

variable [DecidableEq τ]

def changed (w : Wait) : Bool :=
  sig.state.isSome != w.stateSeen ||
    match w.kind with
    | .abort _ => sig.interrupts != w.interruptsSeen
    | .shutdown => false

/-- The next poll of a suspended wait. When a command and a change are both
ready, `select` takes either: `command` says which. -/
def poll (w : Wait) (command : Bool) : Signal τ × Polled :=
  if sig.holder = some t then
    let free := { sig with holder := none }
    match sig.queue with
    | [] =>
      if sig.changed w && (sig.senders || !command) then free.loop t w.kind
      else if sig.senders then (sig, .pending w)
      else { free with receiver := false }.loop t w.kind
    | next :: rest =>
      if sig.changed w && !command then free.loop t w.kind
      else ({ free with queue := rest }.apply next).loop t w.kind
  else if sig.changed w then sig.loop t w.kind
  else (sig, .pending w)

def dropWait : Signal τ := if sig.holder = some t then { sig with holder := none } else sig

def send (command : FrontendCommand) : Signal τ := { sig with queue := sig.queue ++ [command] }

end Signal

namespace Signal

variable {sig sig' sig'' : Signal τ} {t : τ}

/-- What every operation of the signal keeps: a requested shutdown stays, the
interrupts only grow, and a receiver that is gone does not come back. -/
structure Grows (sig sig' : Signal τ) : Prop where
  state : ∀ message, sig.state = some message → sig'.state = some message
  interrupts : sig.interrupts ≤ sig'.interrupts
  receiver : sig'.receiver = true → sig.receiver = true

theorem Grows.refl (sig : Signal τ) : sig.Grows sig := ⟨fun _ h => h, Nat.le_refl _, fun h => h⟩

theorem Grows.trans (h : sig.Grows sig') (h' : sig'.Grows sig'') : sig.Grows sig'' :=
  ⟨fun m hm => h'.state m (h.state m hm), Nat.le_trans h.interrupts h'.interrupts,
    fun hr => h.receiver (h'.receiver hr)⟩

theorem grows_request (sig : Signal τ) (message : Option String) : sig.Grows (sig.request message) := by
  refine ⟨?_, Nat.le_refl _, fun h => h⟩
  intro m hm
  simp [request, hm]

theorem grows_apply (sig : Signal τ) (command : FrontendCommand) : sig.Grows (sig.apply command) := by
  cases command with
  | shutdown message => exact ⟨fun m hm => by simp [apply, request, hm], Nat.le_refl _, fun h => h⟩
  | interrupt => exact ⟨fun m hm => hm, Nat.le_succ _, fun h => h⟩

@[simp] theorem apply_holder (sig : Signal τ) (command : FrontendCommand) :
    (sig.apply command).holder = sig.holder := by
  cases command <;> rfl

theorem applyAll_spec (commands : List FrontendCommand) (sig : Signal τ) :
    sig.Grows (sig.applyAll commands) ∧ (sig.applyAll commands).holder = sig.holder := by
  induction commands generalizing sig with
  | nil => exact ⟨.refl sig, rfl⟩
  | cons command rest ih =>
      obtain ⟨hgrows, hholder⟩ := ih (sig.apply command)
      exact ⟨(grows_apply sig command).trans hgrows, hholder.trans (apply_holder sig command)⟩

theorem grows_drain (sig : Signal τ) : sig.Grows sig.drain := by
  rw [drain]
  split
  · exact .refl sig
  · have h := (applyAll_spec sig.queue { sig with queue := [] }).1
    simp only
    split
    · exact ⟨h.state, h.interrupts, h.receiver⟩
    · refine ⟨h.state, h.interrupts, ?_⟩
      intro hr
      cases hr

@[simp] theorem drain_holder (sig : Signal τ) : sig.drain.holder = sig.holder := by
  have h := (applyAll_spec sig.queue { sig with queue := [] }).2
  rw [drain]
  split
  · rfl
  · simp only
    split <;> exact h

theorem drain_of_held (h : sig.holder.isSome) : sig.drain = sig := by
  rw [drain, h, Bool.true_or, if_pos rfl]

theorem receive_spec (commands : List FrontendCommand) (sig : Signal τ) :
    sig.Grows (receiveUntilShutdown commands sig) ∧
      (receiveUntilShutdown commands sig).holder = sig.holder := by
  induction commands generalizing sig with
  | nil => exact ⟨⟨fun _ h => h, Nat.le_refl _, fun h => h⟩, rfl⟩
  | cons command rest ih =>
      have happly := grows_apply sig command
      rw [receiveUntilShutdown]
      split
      · exact ⟨⟨happly.state, happly.interrupts, happly.receiver⟩, apply_holder sig command⟩
      · obtain ⟨hgrows, hholder⟩ := ih (sig.apply command)
        exact ⟨happly.trans hgrows, hholder.trans (apply_holder sig command)⟩

theorem changed_of_grows {sig sig' : Signal τ} (hg : sig.Grows sig') {w : Wait}
    (hs : w.stateSeen = false) (hi : w.interruptsSeen ≤ sig.interrupts) (h : sig.changed w = true) :
    sig'.changed w = true := by
  simp only [changed, hs, Bool.or_eq_true, bne_iff_ne] at h ⊢
  rcases h with hstate | hint
  · cases hm : sig.state with
    | none =>
        rw [hm] at hstate
        exact absurd rfl hstate
    | some message =>
        rw [hg.state message hm]
        exact .inl (by simp)
  · refine .inr ?_
    cases hk : w.kind with
    | shutdown => rw [hk] at hint; cases hint
    | abort generation =>
        rw [hk] at hint
        simp only [bne_iff_ne] at hint ⊢
        have := hg.interrupts
        omega

/-- The outcome of one run through a wait's loop: it returns because of a
shutdown or of an interrupt past its generation, or it suspends, with the
receiver whenever the lock was free and the receiver is still there. -/
inductive Looped (sig : Signal τ) (t : τ) (kind : WaitKind) : Signal τ → Polled → Prop
  | shutdown {sig' : Signal τ} {message : Option String} (grows : sig.Grows sig')
      (holder : sig'.holder = sig.holder) (state : sig'.state = some message) :
      Looped sig t kind sig' (.ready (.shutdown message))
  | interrupted {sig' : Signal τ} {generation : Nat} (grows : sig.Grows sig')
      (holder : sig'.holder = sig.holder) (kindEq : kind = .abort generation)
      (state : sig'.state = none) (due : generation < sig'.interrupts) :
      Looped sig t kind sig' (.ready .interrupted)
  | parked {sig' : Signal τ} (grows : sig.Grows sig') (state : sig'.state = none)
      (clear : ∀ generation, kind = .abort generation → sig'.interrupts ≤ generation)
      (free : sig.holder = none → sig'.receiver = true → sig'.holder = some t)
      (busy : sig.holder.isSome ∨ sig'.receiver = false → sig'.holder = sig.holder) :
      Looped sig t kind sig' (.pending ⟨kind, false, sig'.interrupts⟩)

theorem looped_park {kind : WaitKind} (hgrows : sig.Grows sig') (hholder : sig'.holder = sig.holder)
    (hstate : sig'.state = none)
    (hclear : ∀ generation, kind = .abort generation → sig'.interrupts ≤ generation) :
    Looped sig t kind (sig'.park t kind).1 (sig'.park t kind).2 := by
  have hseen : sig'.state.isSome = false := by rw [hstate]; rfl
  rw [park]
  rw [hseen, hholder]
  split
  · rename_i hfree
    simp only [Bool.and_eq_true, Option.isNone_iff_eq_none] at hfree
    refine .parked ⟨hgrows.state, hgrows.interrupts, hgrows.receiver⟩ hstate hclear (fun _ _ => rfl) ?_
    rintro (hbusy | hgone)
    · rw [hfree.1] at hbusy
      cases hbusy
    · simp only at hgone
      rw [hfree.2] at hgone
      cases hgone
  · rename_i hbusy
    refine .parked hgrows hstate hclear ?_ (fun _ => hholder)
    intro hnone hr
    exact absurd (by rw [hnone, hr]; rfl) hbusy

theorem looped_loopAbort (sig : Signal τ) (t : τ) (generation : Nat) :
    Looped sig t (.abort generation) (sig.loopAbort t generation).1 (sig.loopAbort t generation).2 := by
  have hgrows := grows_drain sig
  rw [loopAbort]
  split
  · exact .shutdown hgrows (drain_holder sig) ‹_›
  · split
    · exact .interrupted hgrows (drain_holder sig) rfl ‹_› ‹_›
    · refine looped_park hgrows (drain_holder sig) ‹_› ?_
      intro g hg
      cases hg
      omega

theorem looped_loopWait (sig : Signal τ) (t : τ) :
    Looped sig t .shutdown (sig.loopWait t).1 (sig.loopWait t).2 := by
  obtain ⟨hgrows, hholder⟩ := receive_spec sig.queue sig
  rw [loopWait]
  split
  · exact .shutdown (.refl sig) rfl ‹_›
  · split
    · exact looped_park (.refl sig) rfl ‹_› (fun _ hg => by cases hg)
    · simp only
      split
      · exact .shutdown hgrows hholder ‹_›
      · split
        · exact looped_park hgrows hholder ‹_› (fun _ hg => by cases hg)
        · exact looped_park ⟨hgrows.state, hgrows.interrupts, fun hr => by cases hr⟩ hholder ‹_›
            (fun _ hg => by cases hg)

theorem looped_loop (sig : Signal τ) (t : τ) (kind : WaitKind) :
    Looped sig t kind (sig.loop t kind).1 (sig.loop t kind).2 := by
  cases kind with
  | abort generation => exact looped_loopAbort sig t generation
  | shutdown => exact looped_loopWait sig t

end Signal

end Silo.Harness
