import Silo.Lib.Machine
import Silo.Sandbox.Helper

namespace Silo.Sandbox

open Silo.Lib Silo.Harness

/-- What `request` returns. -/
abbrev Reply := Except SandboxError HelperPayload

def closedError : SandboxError := .unavailable "helper connection closed"

/-- `response.result.map_err(SandboxError::Helper)`. -/
def HelperResponse.reply (response : HelperResponse) : Reply :=
  response.result.mapError SandboxError.helper

/-- The oneshot channel of a request, seen from its receiver. -/
inductive Slot
  | empty
  | sent (reply : Reply)
  | dropped
  deriving DecidableEq, Repr

def Slot.reply? : Slot → Option Reply
  | .empty => none
  | .sent reply => some reply
  | .dropped => some (.error closedError)

/-- Where a call of `request` stands. -/
inductive Stage
  | unborn
  | drawn
  | registered
  | sending
  | unsent
  | waiting
  | settled (reply : Reply)
  | returned (reply : Reply)
  | abandoned
  deriving DecidableEq, Repr

namespace Stage

def started : Stage → Bool
  | unborn | drawn => false
  | _ => true

def outstanding : Stage → Bool
  | registered | sending | waiting => true
  | _ => false

def done : Stage → Bool
  | unborn | returned _ | abandoned => true
  | _ => false

end Stage

structure Call where
  op : HelperOp
  id : UInt64
  stage : Stage
  slot : Slot
  deriving DecidableEq, Repr

def Call.unborn : Call := ⟨.hello, 0, .unborn, .empty⟩

/-- The reader task. -/
inductive Reader
  | reading
  | holding (response : HelperResponse) (waiter : Nat)
  | closing
  | draining (waiters : List Nat)
  | ended
  deriving DecidableEq, Repr

def Reader.waiters : Reader → List Nat
  | holding _ waiter => [waiter]
  | draining waiters => waiters
  | reading | closing | ended => []

/-- Who has the session: `from_stream` during the handshake, then its caller. -/
inductive Owner
  | connecting
  | connected (helperVersion : String) (helperPid : UInt32)
  | refused (error : SandboxError)
  | dropped
  deriving DecidableEq, Repr

/-- Whether `request` can be called with `op` after `drawn` earlier calls. -/
def Owner.permits (op : HelperOp) (drawn : Nat) : Owner → Bool
  | connecting => decide (op = .hello) && decide (drawn = 0)
  | connected .. => true
  | refused _ | dropped => false

def Owner.gone : Owner → Bool
  | connecting | connected .. => false
  | refused _ | dropped => true

/-- Calls of `request` are numbered in the order in which they draw their ids,
and a sender in `pending` is named by its call. `received`, `deliveries` and
`completed` log what the stream brought, which response went to which call, and
what the calls returned. -/
structure HelperSession where
  nextId : UInt64
  drawn : Nat
  calls : Nat → Call
  pending : Option (List (UInt64 × Nat))
  inflightExecs : List UInt64
  requests : List HelperRequest
  writing : Bool
  reader : Reader
  owner : Owner
  received : List HelperResponse
  deliveries : List (Nat × Nat)
  completed : List (Nat × Reply)

namespace HelperSession

def start : HelperSession where
  nextId := 0
  drawn := 0
  calls := fun _ => .unborn
  pending := some []
  inflightExecs := []
  requests := []
  writing := true
  reader := .reading
  owner := .connecting
  received := []
  deliveries := []
  completed := []

def capacity : Nat := 64

variable (s : HelperSession)

def setCall (n : Nat) (call : Call) : HelperSession :=
  { s with calls := Function.update s.calls n call }

def setStage (n : Nat) (stage : Stage) : HelperSession :=
  s.setCall n { s.calls n with stage := stage }

def setSlot (n : Nat) (slot : Slot) : HelperSession :=
  s.setCall n { s.calls n with slot := slot }

/-- `map.remove(&id)` with the sender dropped, and what `map.insert` does to the
sender it replaces. -/
def discard (id : UInt64) : HelperSession :=
  match s.pending with
  | none => s
  | some map =>
    match map.lookup id with
    | none => s
    | some m => { s.setSlot m .dropped with pending := some (map.filter fun e => e.1 ≠ id) }

def complete (n : Nat) (reply : Reply) : HelperSession :=
  { s.setStage n (.returned reply) with completed := s.completed ++ [(n, reply)] }

/-- Entry to `request`: the id is drawn and the oneshot channel made. -/
def draw (op : HelperOp) : Option HelperSession :=
  if s.owner.permits op s.drawn then
    some { s.setCall s.drawn ⟨op, s.nextId, .drawn, .empty⟩ with
      nextId := s.nextId + 1
      drawn := s.drawn + 1 }
  else none

/-- The first critical section of `request`. -/
def register (n : Nat) : HelperSession :=
  match s.pending with
  | none => (s.setSlot n .dropped).complete n (.error closedError)
  | some _ =>
    let s := (s.discard (s.calls n).id).setStage n .registered
    { s with pending := s.pending.map (((s.calls n).id, n) :: ·) }

def track (n : Nat) : HelperSession :=
  let call := s.calls n
  { s.setStage n .sending with
    inflightExecs := if call.op.isExec then s.inflightExecs.insert call.id else s.inflightExecs }

/-- `self.requests.send`, which waits for room while the writer has the receiver. -/
def send (n : Nat) : Option HelperSession :=
  let call := s.calls n
  if s.writing then
    if s.requests.length < capacity then
      some { s.setStage n .waiting with requests := s.requests ++ [⟨call.id, call.op⟩] }
    else none
  else some (s.setStage n .unsent)

def unsend (n : Nat) : HelperSession :=
  (s.discard (s.calls n).id).setStage n (.settled (.error closedError))

/-- `unregister_exec`, and the return of `request`. -/
def finish (n : Nat) (reply : Reply) : HelperSession :=
  let call := s.calls n
  { s.complete n reply with
    inflightExecs := if call.op.isExec then s.inflightExecs.erase call.id else s.inflightExecs }

/-- One turn of the reader's loop up to the lookup. -/
def receive (response : HelperResponse) : HelperSession :=
  let s := { s with received := s.received ++ [response] }
  match s.pending with
  | none => s
  | some map =>
    match map.lookup response.id with
    | none => s
    | some waiter =>
      { s with
        pending := some (map.filter fun e => e.1 ≠ response.id)
        reader := .holding response waiter }

def deliver (response : HelperResponse) (waiter : Nat) : HelperSession :=
  { s.setSlot waiter (.sent response.reply) with
    reader := .reading
    deliveries := s.deliveries ++ [(s.received.length - 1, waiter)] }

def take : HelperSession :=
  match s.pending with
  | none => { s with reader := .ended }
  | some map => { s with reader := .draining (map.map Prod.snd), pending := none }

def drain (waiters : List Nat) (waiter : Nat) : HelperSession :=
  { s.setSlot waiter (.sent (.error closedError)) with reader := .draining (waiters.erase waiter) }

/-- `from_stream` after its `Hello` request has returned. -/
def handshake (debug : HelperPayload → String) : Reply → HelperSession
  | .ok (.hello version pid) => { s with owner := .connected version pid }
  | .ok other =>
    { s with owner := .refused (.setup ("unexpected handshake reply from helper: " ++ debug other)) }
  | .error error => { s with owner := .refused error }

def idle : Bool := (List.range s.drawn).all fun n => (s.calls n).stage.done

inductive Label
  | draw (op : HelperOp)
  | register (n : Nat)
  | track (n : Nat)
  | send (n : Nat)
  | unsend (n : Nat)
  | hear (n : Nat)
  | finish (n : Nat)
  | abandon (n : Nat)
  | write
  | writeError
  | receive (response : HelperResponse)
  | streamEnd
  | deliver
  | take
  | drain (waiter : Nat)
  | readerEnd
  | handshake
  | drop
  | abort
  deriving DecidableEq, Repr

/-- A caller can drop its call wherever `request` awaits. -/
def next (debug : HelperPayload → String) : Label → Option HelperSession
  | .draw op => s.draw op
  | .register n => if (s.calls n).stage = .drawn then some (s.register n) else none
  | .track n => if (s.calls n).stage = .registered then some (s.track n) else none
  | .send n => if (s.calls n).stage = .sending then s.send n else none
  | .unsend n => if (s.calls n).stage = .unsent then some (s.unsend n) else none
  | .hear n =>
    if (s.calls n).stage = .waiting then
      (s.calls n).slot.reply?.map fun reply => s.setStage n (.settled reply)
    else none
  | .finish n =>
    match (s.calls n).stage with
    | .settled reply => some (s.finish n reply)
    | _ => none
  | .abandon n =>
    if (s.calls n).stage = .sending ∨ (s.calls n).stage = .waiting then
      some (s.setStage n .abandoned)
    else none
  | .write =>
    match s.writing, s.requests with
    | true, _ :: rest => some { s with requests := rest }
    | _, _ => none
  | .writeError => if s.writing then some { s with writing := false, requests := [] } else none
  | .receive response => if s.reader = .reading then some (s.receive response) else none
  | .streamEnd => if s.reader = .reading then some { s with reader := .closing } else none
  | .deliver =>
    match s.reader with
    | .holding response waiter => some (s.deliver response waiter)
    | _ => none
  | .take => if s.reader = .closing then some s.take else none
  | .drain waiter =>
    match s.reader with
    | .draining waiters => if waiter ∈ waiters then some (s.drain waiters waiter) else none
    | _ => none
  | .readerEnd => if s.reader = .draining [] then some { s with reader := .ended } else none
  | .handshake =>
    match s.owner, (s.calls 0).stage with
    | .connecting, .returned reply => some (s.handshake debug reply)
    | _, _ => none
  | .drop => if s.owner.gone = false ∧ s.idle then some { s with owner := .dropped } else none
  -- the map goes with the last handle to it
  | .abort =>
    if s.owner.gone ∧ s.reader = .reading then
      some { s with reader := .ended, pending := none, writing := false, requests := [] }
    else none

def machine (debug : HelperPayload → String) : Machine HelperSession Label where
  init := fun s => s = start
  next := fun s l => s.next debug l

section Effects

variable {s} {t : HelperSession} {reply : Reply} {debug : HelperPayload → String}

inductive Effect (s : HelperSession) : HelperSession → Prop
  | draw (op : HelperOp) : s.owner.permits op s.drawn = true →
      Effect s { s.setCall s.drawn ⟨op, s.nextId, .drawn, .empty⟩ with
        nextId := s.nextId + 1, drawn := s.drawn + 1 }
  | register (n : Nat) : (s.calls n).stage = .drawn → Effect s (s.register n)
  | advance (n : Nat) (stage : Stage) (inflightExecs : List UInt64) (requests : List HelperRequest) :
      (s.calls n).stage.outstanding = true → stage.started = true → (∀ reply, stage ≠ .returned reply) →
      (∀ reply, stage = .settled reply → (s.calls n).slot.reply? = some reply) →
      Effect s { s.setStage n stage with inflightExecs := inflightExecs, requests := requests }
  | unsend (n : Nat) : (s.calls n).stage = .unsent → Effect s (s.unsend n)
  | finish (n : Nat) (reply : Reply) : (s.calls n).stage = .settled reply → Effect s (s.finish n reply)
  | write (requests : List HelperRequest) (writing : Bool) :
      Effect s { s with requests := requests, writing := writing }
  | receive (response : HelperResponse) : s.reader = .reading → Effect s (s.receive response)
  | streamEnd : s.reader = .reading → Effect s { s with reader := .closing }
  | deliver (response : HelperResponse) (waiter : Nat) : s.reader = .holding response waiter →
      Effect s (s.deliver response waiter)
  | take : s.reader = .closing → Effect s s.take
  | drain (waiters : List Nat) (waiter : Nat) : s.reader = .draining waiters → waiter ∈ waiters →
      Effect s (s.drain waiters waiter)
  | readerEnd : s.reader = .draining [] → Effect s { s with reader := .ended }
  | pass (owner : Owner) : s.owner.gone = false → owner ≠ .connecting →
      (s.idle = true ∨ s.owner = .connecting ∧ (s.calls 0).stage.done = true) →
      Effect s { s with owner := owner }
  | abort : s.owner.gone = true → s.reader = .reading →
      Effect s { s with reader := .ended, pending := none, writing := false, requests := [] }

theorem effect_handshake (hs : s.owner = .connecting) (hr : (s.calls 0).stage = .returned reply) :
    Effect s (s.handshake debug reply) := by
  have hdone : (s.calls 0).stage.done = true := by rw [hr]; rfl
  have hgone : s.owner.gone = false := by rw [hs]; rfl
  match reply with
  | .ok (.hello ..) => exact .pass _ hgone (by simp) (.inr ⟨hs, hdone⟩)
  | .error _ => exact .pass _ hgone (by simp) (.inr ⟨hs, hdone⟩)
  | .ok (.exec ..) | .ok (.file ..) | .ok (.written _) | .ok (.edited _) | .ok (.dir _) | .ok (.fetched ..)
  | .ok .ack => exact .pass _ hgone (by simp) (.inr ⟨hs, hdone⟩)

theorem effect_of_next {l : Label} (h : s.next debug l = some t) : Effect s t := by
  cases l with
  | draw op =>
      simp only [next, draw, Option.ite_none_right_eq_some, Option.some.injEq] at h
      obtain ⟨hp, rfl⟩ := h
      exact .draw op hp
  | register n =>
      simp only [next, Option.ite_none_right_eq_some, Option.some.injEq] at h
      obtain ⟨hs, rfl⟩ := h
      exact .register n hs
  | track n =>
      simp only [next, Option.ite_none_right_eq_some, Option.some.injEq] at h
      obtain ⟨hs, rfl⟩ := h
      exact .advance n .sending _ s.requests (by rw [hs]; rfl) rfl (by simp) (by simp)
  | send n =>
      simp only [next, send, Option.ite_none_right_eq_some] at h
      obtain ⟨hs, h⟩ := h
      split at h
      · simp only [Option.ite_none_right_eq_some, Option.some.injEq] at h
        obtain ⟨-, rfl⟩ := h
        exact .advance n .waiting s.inflightExecs _ (by rw [hs]; rfl) rfl (by simp) (by simp)
      · cases h
        exact .advance n .unsent s.inflightExecs s.requests (by rw [hs]; rfl) rfl (by simp) (by simp)
  | unsend n =>
      simp only [next, Option.ite_none_right_eq_some, Option.some.injEq] at h
      obtain ⟨hs, rfl⟩ := h
      exact .unsend n hs
  | hear n =>
      simp only [next, Option.ite_none_right_eq_some, Option.map_eq_some_iff] at h
      obtain ⟨hs, reply, hreply, rfl⟩ := h
      refine .advance n (.settled reply) s.inflightExecs s.requests (by rw [hs]; rfl) rfl (by simp) ?_
      intro reply' he
      cases he
      exact hreply
  | finish n =>
      simp only [next] at h
      split at h
      · cases h
        exact .finish n _ ‹_›
      · cases h
  | abandon n =>
      simp only [next, Option.ite_none_right_eq_some, Option.some.injEq] at h
      obtain ⟨hs, rfl⟩ := h
      refine .advance n .abandoned s.inflightExecs s.requests ?_ rfl (by simp) (by simp)
      obtain hs | hs := hs <;> (rw [hs]; rfl)
  | write =>
      simp only [next] at h
      split at h
      · cases h
        exact .write _ s.writing
      · cases h
  | writeError =>
      simp only [next, Option.ite_none_right_eq_some, Option.some.injEq] at h
      obtain ⟨-, rfl⟩ := h
      exact .write [] false
  | receive response =>
      simp only [next, Option.ite_none_right_eq_some, Option.some.injEq] at h
      obtain ⟨hr, rfl⟩ := h
      exact .receive response hr
  | streamEnd =>
      simp only [next, Option.ite_none_right_eq_some, Option.some.injEq] at h
      obtain ⟨hr, rfl⟩ := h
      exact .streamEnd hr
  | deliver =>
      simp only [next] at h
      split at h
      · cases h
        exact .deliver _ _ ‹_›
      · cases h
  | take =>
      simp only [next, Option.ite_none_right_eq_some, Option.some.injEq] at h
      obtain ⟨hr, rfl⟩ := h
      exact .take hr
  | drain waiter =>
      simp only [next] at h
      split at h
      · simp only [Option.ite_none_right_eq_some, Option.some.injEq] at h
        obtain ⟨hw, rfl⟩ := h
        exact .drain _ waiter ‹_› hw
      · cases h
  | readerEnd =>
      simp only [next, Option.ite_none_right_eq_some, Option.some.injEq] at h
      obtain ⟨hr, rfl⟩ := h
      exact .readerEnd hr
  | handshake =>
      simp only [next] at h
      split at h
      · cases h
        exact effect_handshake ‹_› ‹_›
      · cases h
  | drop =>
      simp only [next, Option.ite_none_right_eq_some, Option.some.injEq] at h
      obtain ⟨⟨hg, hi⟩, rfl⟩ := h
      exact .pass .dropped hg (by simp) (.inl hi)
  | abort =>
      simp only [next, Option.ite_none_right_eq_some, Option.some.injEq] at h
      obtain ⟨⟨hg, hr⟩, rfl⟩ := h
      exact .abort hg hr

end Effects

end HelperSession

end Silo.Sandbox
