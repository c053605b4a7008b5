import Silo.Core.EventBus
import Silo.Harness.Record
import Silo.Lib.Machine

namespace Silo.Clients

open Silo.Lib Silo.Core Silo.Harness

section Server

variable {α : Type}

structure History (α : Type) where
  events : List (Event α)
  seqs : ∀ (i : Nat) (e : Event α), events[i]? = some e → e.seq = i

namespace History

variable (h : History α)

def empty : History α := ⟨[], by simp⟩

def emit (time : Timestamp) (payload : α) : History α where
  events := h.events ++ [⟨h.events.length, time, payload⟩]
  seqs i e he := by
    rcases Silo.Lib.getElem?_snoc_cases he with he | ⟨rfl, rfl⟩
    · exact h.seqs i e he
    · rfl

/-- All events with `seq >= from_seq`. -/
def since (fromSeq : Nat) : List (Event α) := h.events.filter fun e => fromSeq ≤ e.seq

theorem since_eq_drop (fromSeq : Nat) : h.since fromSeq = h.events.drop fromSeq := by
  let bus : EventBus α := ⟨h.events, [], [], []⟩
  have hseqs : ∀ (i : Nat) (e : Event α), bus.history[i]? = some e → e.seq = i := h.seqs
  exact EventBus.since_eq_drop_of_seqs hseqs fromSeq

/-- The event is one of the session. -/
def Has (e : Event α) : Prop := h.events[e.seq]? = some e

variable {h}

theorem has_of_getElem? {i : Nat} {e : Event α} (he : h.events[i]? = some e) : h.Has e := by
  rw [Has, h.seqs i e he]
  exact he

theorem has_of_mem {e : Event α} (he : e ∈ h.events) : h.Has e := by
  obtain ⟨i, hi⟩ := List.mem_iff_getElem?.mp he
  exact has_of_getElem? hi

theorem Has.lt {e : Event α} (he : h.Has e) : e.seq < h.events.length := (List.getElem?_eq_some_iff.mp he).1

theorem Has.emit {e : Event α} (he : h.Has e) (time : Timestamp) (payload : α) : (h.emit time payload).Has e := by
  rw [Has, History.emit, List.getElem?_append_left he.lt]
  exact he

theorem has_of_mem_since {e : Event α} {fromSeq : Nat} (he : e ∈ h.since fromSeq) : h.Has e :=
  has_of_mem (List.mem_filter.mp he).1

@[simp] theorem length_emit (time : Timestamp) (payload : α) :
    (h.emit time payload).events.length = h.events.length + 1 := by
  simp [History.emit]

end History

/-- What the server sends a client past its authentication, as far as events go. -/
inductive ServerFrame (α : Type)
  | event (event : Event α)
  | events (events : List (Event α))

def ServerFrame.all : ServerFrame α → List (Event α)
  | event e => [e]
  | events es => es

/-- The server's end of a connection from `AuthOk` on: the number it announced, the
next event of its pump, the `from_seq` of the requests it has still to answer, and what
is on its way to the client. The pump and the reader write to one channel. -/
structure Link (α : Type) where
  announced : Nat
  nextLive : Nat
  requests : List Nat
  wire : List (ServerFrame α)

namespace Link

variable (history : History α) (link : Link α)

def accept : Link α := ⟨history.events.length, history.events.length, [], []⟩

def request (fromSeq : Nat) : Link α := { link with requests := link.requests ++ [fromSeq] }

/-- The pump sends the next event. -/
def push : Option (Link α) :=
  (history.events[link.nextLive]?).map fun e =>
    { link with nextLive := link.nextLive + 1, wire := link.wire ++ [.event e] }

/-- The reader answers a `RequestEvents`. -/
def reply : Option (Link α) :=
  match link.requests with
  | [] => none
  | fromSeq :: requests =>
    some { link with requests := requests, wire := link.wire ++ [.events (history.since fromSeq)] }

end Link

end Server

def busyAfter : EventPayload → Option Bool
  | .userPrompt _ _ _ | .assistantText _ _ | .toolUse _ _ | .toolResult _ _ _ _ | .agentSpawned _ _ _ _
  | .agentCompleted _ _ _ | .questionAsked _ _ _ | .questionAnswered _ _ _ => some true
  | .awaitingInput | .interrupted _ | .shutdown _ => some false
  | _ => none

/-- The state of the TUI that events change. `applied` are the events it applied, from
which the transcript is made. -/
structure App where
  lastSeq : Option Nat
  busy : Bool
  awaitingInput : Bool
  applied : List (Event EventPayload)

namespace App

variable (app : App)

def new : App := ⟨none, false, false, []⟩

def applyEvent (event : Event EventPayload) : App :=
  if app.lastSeq.any fun last => event.seq ≤ last then app
  else
    { lastSeq := some event.seq
      busy := (busyAfter event.payload).getD app.busy
      awaitingInput :=
        match event.payload with
        | .awaitingInput => true
        | .userPrompt _ _ _ => false
        | _ => app.awaitingInput
      applied := app.applied ++ [event] }

def handleServer (frame : ServerFrame EventPayload) : App := frame.all.foldl applyEvent app

end App

/-- `track_seq` on one event. -/
def observe (last : Option Nat) (event : Event EventPayload) : Option Nat :=
  if last.all fun l => l < event.seq then some event.seq else last

def trackSeq (frame : ServerFrame EventPayload) (last : Option Nat) : Option Nat := frame.all.foldl observe last

/-- The network task of the TUI, its connection, the channel to the app and the app.
Frames in `queue` carry the number of their connection; `caughtUp` is the last
connection whose backlog reply the app has handled, and `received` are the events of all
frames it has handled. -/
structure Tui where
  history : History EventPayload
  lastSeq : Option Nat
  conn : Nat
  link : Option (Link EventPayload)
  queue : List (Nat × ServerFrame EventPayload)
  app : App
  caughtUp : Option Nat
  received : List (Event EventPayload)

namespace Tui

/-- `connect` is a connection up to the request of the backlog, `receive` a frame taken
by the network task and `handle` one taken by the app. -/
inductive Act
  | emit (time : Timestamp) (payload : EventPayload)
  | connect
  | push
  | reply
  | receive
  | handle
  | lose

def start : Tui := ⟨.empty, none, 0, none, [], .new, none, []⟩

def receive (s : Tui) (link : Link EventPayload) (frame : ServerFrame EventPayload)
    (wire : List (ServerFrame EventPayload)) : Tui :=
  { s with
    link := some { link with wire := wire }
    lastSeq := trackSeq frame s.lastSeq
    queue := s.queue ++ [(s.conn, frame)] }

def handle (s : Tui) (conn : Nat) (frame : ServerFrame EventPayload)
    (queue : List (Nat × ServerFrame EventPayload)) : Tui :=
  { s with
    queue := queue
    app := s.app.handleServer frame
    caughtUp := if frame matches .events _ then some conn else s.caughtUp
    received := s.received ++ frame.all }

def next (s : Tui) : Act → Option Tui
  | .emit time payload => some { s with history := s.history.emit time payload }
  | .connect =>
    match s.link with
    | none =>
      some { s with
        conn := s.conn + 1
        link := some ((Link.accept s.history).request (s.lastSeq.elim 0 (· + 1))) }
    | some _ => none
  | .push => s.link.bind fun link => (link.push s.history).map fun link => { s with link := some link }
  | .reply => s.link.bind fun link => (link.reply s.history).map fun link => { s with link := some link }
  | .receive =>
    match s.link with
    | none => none
    | some link =>
      match link.wire with
      | [] => none
      | frame :: wire => some (s.receive link frame wire)
  | .handle =>
    match s.queue with
    | [] => none
    | (conn, frame) :: queue => some (s.handle conn frame queue)
  | .lose =>
    match s.link with
    | none => none
    | some _ => some { s with link := none }

def machine : Machine Tui Act := ⟨fun s => s = start, next⟩

/-- The app has handled the backlog reply of the connection that is up. -/
def current (s : Tui) : Prop := s.link.isSome = true ∧ s.caughtUp = some s.conn

/-- The app has applied the events from 0 to the highest it received, in order. -/
structure Complete (s : Tui) : Prop where
  applied : s.app.applied <+: s.history.events
  received : ∀ e ∈ s.received, e.seq < s.app.applied.length

end Tui

section Advance

variable {α : Type} {e : Event α} {es : List (Event α)} {k n : Nat}

/-- How far a client that has the first `k` events gets with one more, if it leaves no
gap. -/
def fit (k : Nat) (e : Event α) : Option Nat := if e.seq ≤ k then some (max k (e.seq + 1)) else none

def advance : Nat → List (Event α) → Option Nat
  | k, [] => some k
  | k, e :: es => (fit k e).bind fun k => advance k es

theorem advance_append (fs : List (Event α)) :
    advance k (es ++ fs) = (advance k es).bind fun k => advance k fs := by
  induction es generalizing k with
  | nil => rfl
  | cons e es ih =>
      rw [List.cons_append, advance, advance, Option.bind_assoc]
      congr 1
      funext k
      exact ih

theorem le_of_fit (h : fit k e = some n) : k ≤ n ∧ e.seq < n := by
  rw [fit] at h
  split at h
  · cases h
    omega
  · cases h

theorem le_of_advance (h : advance k es = some n) : k ≤ n ∧ ∀ e ∈ es, e.seq < n := by
  induction es generalizing k with
  | nil =>
      cases h
      simp
  | cons e es ih =>
      obtain ⟨m, hm, h⟩ := Option.bind_eq_some_iff.mp h
      obtain ⟨hle, hlt⟩ := le_of_fit hm
      obtain ⟨hle', hes⟩ := ih h
      refine ⟨Nat.le_trans hle hle', ?_⟩
      intro d hd
      obtain rfl | hd := List.mem_cons.mp hd
      · omega
      · exact hes d hd

/-- A backlog that starts at or before `k` brings the client up to date. -/
theorem advance_since (h : History α) {fromSeq : Nat} (hfrom : fromSeq ≤ k) (hk : k ≤ h.events.length) :
    advance k (h.since fromSeq) = some h.events.length := by
  rw [h.since_eq_drop]
  induction hd : h.events.length - fromSeq generalizing fromSeq k with
  | zero =>
      have : h.events.drop fromSeq = [] := List.drop_eq_nil_of_le (by omega)
      rw [this, advance, Option.some.injEq]
      omega
  | succ d ih =>
      have hlt : fromSeq < h.events.length := by omega
      have hseq := h.seqs fromSeq _ (List.getElem?_eq_getElem hlt)
      rw [List.drop_eq_getElem_cons hlt, advance, fit, hseq, if_pos hfrom, Option.bind_some]
      exact ih (by omega) (by omega) (by omega)

def last : Nat → Option Nat
  | 0 => none
  | n + 1 => some n

end Advance

variable {history : History EventPayload} {e : Event EventPayload} {es : List (Event EventPayload)} {k n : Nat}

theorem observe_last (h : fit k e = some n) : observe (last k) e = last n := by
  rw [fit] at h
  split at h
  · next hle =>
      cases h
      cases k with
      | zero =>
          have : e.seq = 0 := by omega
          simp [observe, last, this]
      | succ k =>
          by_cases heq : e.seq = k + 1
          · simp [observe, last, heq]
          · have : max (k + 1) (e.seq + 1) = k + 1 := by omega
            simp [observe, last, this]
            omega
  · cases h

theorem foldl_observe (h : advance k es = some n) : es.foldl observe (last k) = last n := by
  induction es generalizing k with
  | nil =>
      cases h
      rfl
  | cons e es ih =>
      obtain ⟨m, hm, h⟩ := Option.bind_eq_some_iff.mp h
      rw [List.foldl_cons, observe_last hm]
      exact ih h

namespace App

/-- The app has applied the first `k` events. -/
structure Agrees (history : History EventPayload) (k : Nat) (app : App) : Prop where
  bound : k ≤ history.events.length
  lastSeq : app.lastSeq = last k
  applied : app.applied = history.events.take k

variable {app : App}

theorem Agrees.applyEvent (h : app.Agrees history k) (he : history.Has e) (hfit : fit k e = some n) :
    (app.applyEvent e).Agrees history n := by
  rw [fit] at hfit
  split at hfit
  · next hle =>
      cases hfit
      by_cases heq : e.seq = k
      · have hskip : (app.lastSeq.any fun last => decide (e.seq ≤ last)) = false := by
          rw [h.lastSeq]
          cases k with
          | zero => rfl
          | succ k => simp [last, heq]
        have hmax : max k (e.seq + 1) = k + 1 := by omega
        rw [App.applyEvent, hskip, hmax]
        refine ⟨?_, ?_, ?_⟩
        · have := he.lt
          omega
        · simp [last, heq]
        · rw [History.Has, heq] at he
          simp [h.applied, List.take_add_one, he]
      · have hskip : (app.lastSeq.any fun last => decide (e.seq ≤ last)) = true := by
          rw [h.lastSeq]
          cases k with
          | zero => omega
          | succ k =>
              simp only [last, Option.any_some, decide_eq_true_eq]
              omega
        have hmax : max k (e.seq + 1) = k := by omega
        rw [App.applyEvent, hskip, hmax]
        exact h
  · cases hfit

theorem Agrees.handleServer {frame : ServerFrame EventPayload} (h : app.Agrees history k)
    (he : ∀ e ∈ frame.all, history.Has e) (hadvance : advance k frame.all = some n) :
    (app.handleServer frame).Agrees history n := by
  rw [App.handleServer]
  generalize frame.all = es at he hadvance
  induction es generalizing app k with
  | nil =>
      cases hadvance
      exact h
  | cons e es ih =>
      obtain ⟨m, hm, hadvance⟩ := Option.bind_eq_some_iff.mp hadvance
      rw [List.foldl_cons]
      exact ih (h.applyEvent (he e (by simp)) hm) (fun d hd => he d (by simp [hd])) hadvance

theorem Agrees.emit (h : app.Agrees history k) (time : Timestamp) (payload : EventPayload) :
    app.Agrees (history.emit time payload) k where
  bound := by
    have := h.bound
    rw [History.length_emit]
    omega
  lastSeq := h.lastSeq
  applied := by rw [h.applied, History.emit, List.take_append_of_le_length h.bound]

end App

end Silo.Clients
