import Silo.Lib.Machine
import Silo.Core.EventBus

namespace Silo.Frontend.EventPump

open Silo.Lib Silo.Core

variable {α : Type}

/-- One running `pump_events`: its place in the broadcast channel, the lowest
sequence number still to send, the `next_seq` its client was told in `AuthOk`,
and the `Event` messages handed to the writer so far. -/
structure Pump (α : Type) where
  pos : Nat
  next : Nat
  start : Nat
  out : List (Event α)
  running : Bool

def Pump.send (p : Pump α) (event : Event α) : Pump α :=
  { p with next := event.seq + 1, out := p.out ++ [event] }

def Pump.received (p : Pump α) (event : Event α) : Pump α :=
  if p.next ≤ event.seq then p.send event else p

/-- The refill from history after `RecvError::Lagged`. -/
def Pump.refill (p : Pump α) (bus : EventBus α) : Pump α := (bus.since p.next).foldl Pump.send p

/-- A client of `handle_connection`, from authentication on: it subscribes to
the broadcast channel, is told `next_seq`, and only then gets its pump. -/
inductive Client (α : Type)
  | away
  | subscribed (pos : Nat)
  | pumping (pump : Pump α)

structure State (α : Type) where
  bus : EventBus α
  clients : Nat → Client α

def State.setClient (s : State α) (c : Nat) (client : Client α) : State α :=
  { s with clients := Function.update s.clients c client }

/-- One step of an emitting task or of a client. The channel keeps a bounded
number of messages; which receivers have fallen behind it is left open, so
that `lag` can happen at any point and skip any number of messages. -/
inductive Act (α : Type)
  | emitAppend (time : Timestamp) (payload : α)
  | emitJournal (seq : Nat)
  | emitBroadcast (seq : Nat)
  | subscribe (c : Nat)
  | announce (c : Nat)
  | hangUp (c : Nat)
  | receive (c : Nat)
  | lag (c : Nat) (oldest : Nat)
  | stop (c : Nat)

def next (s : State α) : Act α → Option (State α)
  | .emitAppend time payload => some { s with bus := s.bus.emitAppend time payload }
  | .emitJournal seq => (s.bus.emitJournal seq).map fun bus => { s with bus := bus }
  | .emitBroadcast seq => (s.bus.emitBroadcast seq).map fun bus => { s with bus := bus }
  | .subscribe c =>
    match s.clients c with
    | .away => some (s.setClient c (.subscribed s.bus.sent.length))
    | _ => none
  | .announce c =>
    match s.clients c with
    | .subscribed pos => some (s.setClient c (.pumping ⟨pos, s.bus.nextSeq, s.bus.nextSeq, [], true⟩))
    | _ => none
  | .hangUp c =>
    match s.clients c with
    | .subscribed _ => some (s.setClient c .away)
    | _ => none
  | .receive c =>
    match s.clients c with
    | .pumping p =>
      if p.running then
        (s.bus.sent[p.pos]?).map fun event =>
          s.setClient c (.pumping { p.received event with pos := p.pos + 1 })
      else none
    | _ => none
  | .lag c oldest =>
    match s.clients c with
    | .pumping p =>
      if p.running ∧ p.pos < oldest ∧ oldest ≤ s.bus.sent.length then
        some (s.setClient c (.pumping { p.refill s.bus with pos := oldest }))
      else none
    | _ => none
  | .stop c =>
    match s.clients c with
    | .pumping p => some (s.setClient c (.pumping { p with running := false }))
    | _ => none

def machine : Machine (State α) (Act α) :=
  ⟨fun s => s.bus = .empty ∧ ∀ c, s.clients c = .away, next⟩

/-- What the client has been sent is, from `next_seq` on, the beginning of the
history, each event once and in order. -/
def Pump.GapFree (bus : EventBus α) (p : Pump α) : Prop := p.out <+: bus.since p.start

/-- A pump that has read its channel to the end after the last emit owes its
client nothing. -/
def Pump.Complete (bus : EventBus α) (p : Pump α) : Prop :=
  bus.emits = [] → p.running = true → p.pos = bus.sent.length → p.out = bus.since p.start

def inOrder (s : State α) : Act α → Bool
  | .emitBroadcast seq => s.bus.broadcastsInOrder seq
  | _ => true

structure PumpOk (bus : EventBus α) (p : Pump α) : Prop where
  pos_le : p.pos ≤ p.next
  start_le : p.start ≤ p.next
  next_le : p.next ≤ bus.history.length
  out : p.out = (bus.history.take p.next).drop p.start

def ClientOk (bus : EventBus α) : Client α → Prop
  | .away => True
  | .subscribed pos => pos ≤ bus.history.length
  | .pumping p => PumpOk bus p

structure Inv (s : State α) : Prop where
  bus : s.bus.Ordered
  clients : ∀ c, ClientOk s.bus (s.clients c)

theorem clientOk_mono {bus bus' : EventBus α} (h : bus.history <+: bus'.history) {client : Client α}
    (hc : ClientOk bus client) : ClientOk bus' client := by
  obtain ⟨rest, hrest⟩ := h
  have hlen : bus.history.length ≤ bus'.history.length := by rw [← hrest]; simp
  cases client with
  | away => trivial
  | subscribed pos => exact Nat.le_trans hc hlen
  | pumping p =>
      refine ⟨hc.pos_le, hc.start_le, Nat.le_trans hc.next_le hlen, ?_⟩
      rw [← hrest, List.take_append_of_le_length hc.next_le]
      exact hc.out

theorem inv_setClient {s : State α} (h : Inv s) (c : Nat) {client : Client α}
    (hc : ClientOk s.bus client) : Inv (s.setClient c client) := by
  refine ⟨h.bus, ?_⟩
  intro d
  by_cases hd : d = c
  · subst hd; simpa [State.setClient] using hc
  · simpa [State.setClient, hd] using h.clients d

theorem inv_bus {s : State α} (h : Inv s) {bus : EventBus α} (hb : bus.Ordered)
    (hpre : s.bus.history <+: bus.history) : Inv { s with bus := bus } :=
  ⟨hb, fun c => clientOk_mono hpre (h.clients c)⟩

theorem refill_eq (p : Pump α) (events : List (Event α)) :
    events.foldl Pump.send p =
      { p with
        next := (events.getLast?.map fun e => e.seq + 1).getD p.next
        out := p.out ++ events } := by
  induction events generalizing p with
  | nil => simp
  | cons e events ih =>
      rw [List.foldl_cons, ih]
      cases events with
      | nil => simp [Pump.send]
      | cons d events =>
          have hlast := List.getLast?_eq_some_getLast (List.cons_ne_nil d events)
          simp only [List.getLast?_cons_cons, hlast, Option.map_some, Option.getD_some, Pump.send,
            List.append_assoc, List.singleton_append]

/-- After a refill the pump has sent the whole history from `start` on. -/
theorem pumpOk_refill {bus : EventBus α} (hb : bus.Ordered) {p : Pump α} (hp : PumpOk bus p)
    {oldest : Nat} (hle : oldest ≤ bus.history.length) :
    PumpOk bus { p.refill bus with pos := oldest } := by
  have hnext : (p.refill bus).next = bus.history.length := by
    rw [Pump.refill, refill_eq, hb.since_eq_drop]
    simp only [List.getLast?_drop]
    split
    · have := hp.next_le
      simp only [Option.map_none, Option.getD_none]
      omega
    · rename_i hlt
      rw [List.getLast?_eq_getElem?, List.getElem?_eq_getElem (by omega)]
      simp only [Option.map_some, Option.getD_some]
      rw [hb.seqs (bus.history.length - 1) _ (List.getElem?_eq_getElem (by omega))]
      omega
  have hout : (p.refill bus).out = bus.history.drop p.start := by
    rw [Pump.refill, refill_eq, hb.since_eq_drop]
    simp only [hp.out]
    have hle : p.start ≤ (bus.history.take p.next).length := by
      rw [List.length_take, Nat.min_eq_left hp.next_le]
      exact hp.start_le
    rw [← List.drop_append_of_le_length hle, List.take_append_drop]
  have hstart : (p.refill bus).start = p.start := by rw [Pump.refill, refill_eq]
  refine ⟨?_, ?_, ?_, ?_⟩
  · simp only [hnext]; exact hle
  · simp only [hnext, hstart]; exact Nat.le_trans hp.start_le hp.next_le
  · simp only [hnext]; exact Nat.le_refl _
  · simp only [hnext, hstart, hout, List.take_length]

/-- With broadcasts in order the message at position `pos` is event number
`pos`, which the pump has sent already or is due next. -/
theorem pumpOk_received {bus : EventBus α} (hb : bus.Ordered) {p : Pump α} (hp : PumpOk bus p)
    {event : Event α} (he : bus.sent[p.pos]? = some event) :
    PumpOk bus { p.received event with pos := p.pos + 1 } := by
  have hget : bus.history[p.pos]? = some event := by
    obtain ⟨rest, hrest⟩ := hb.sent
    rw [← hrest, List.getElem?_append_left (List.getElem?_eq_some_iff.mp he).1]
    exact he
  have hseq := hb.seqs _ _ hget
  have hlt := (List.getElem?_eq_some_iff.mp hget).1
  have hple := hp.pos_le
  have hsle := hp.start_le
  by_cases hdue : p.next ≤ event.seq
  · have hpn : p.pos = p.next := by omega
    rw [Pump.received, if_pos hdue]
    refine ⟨?_, ?_, ?_, ?_⟩
    · simp only [Pump.send]; omega
    · simp only [Pump.send]; omega
    · simp only [Pump.send]; omega
    · simp only [Pump.send]
      rw [show event.seq + 1 = p.next + 1 by omega, List.take_add_one, ← hpn, hget, hp.out, hpn,
        Option.toList_some, List.drop_append_of_le_length]
      rw [List.length_take, Nat.min_eq_left hp.next_le]
      exact hsle
  · rw [Pump.received, if_neg hdue]
    refine ⟨?_, hp.start_le, hp.next_le, hp.out⟩
    simp only
    omega

theorem history_append (bus : EventBus α) (time : Timestamp) (payload : α) :
    bus.history <+: (bus.emitAppend time payload).history := List.prefix_append _ _

theorem history_journal {bus bus' : EventBus α} {seq : Nat} (h : bus.emitJournal seq = some bus') :
    bus.history <+: bus'.history := by
  obtain ⟨e, -, rfl⟩ := Option.map_eq_some_iff.mp h
  exact List.prefix_rfl

theorem history_broadcast {bus bus' : EventBus α} {seq : Nat} (h : bus.emitBroadcast seq = some bus') :
    bus.history <+: bus'.history := by
  obtain ⟨e, -, rfl⟩ := Option.map_eq_some_iff.mp h
  exact List.prefix_rfl

theorem inv_step {s t : State α} {l : Act α} (h : Inv s) (hok : inOrder s l = true)
    (hn : next s l = some t) : Inv t := by
  cases l with
  | emitAppend time payload =>
      cases hn
      exact inv_bus h (EventBus.ordered_append h.bus _ _) (history_append _ _ _)
  | emitJournal seq =>
      obtain ⟨bus, hb, rfl⟩ := Option.map_eq_some_iff.mp hn
      exact inv_bus h (EventBus.ordered_journal h.bus hb) (history_journal hb)
  | emitBroadcast seq =>
      obtain ⟨bus, hb, rfl⟩ := Option.map_eq_some_iff.mp hn
      exact inv_bus h (EventBus.ordered_broadcast h.bus hok hb) (history_broadcast hb)
  | subscribe c =>
      simp only [next] at hn
      split at hn <;> cases hn
      exact inv_setClient h c h.bus.sent.length_le
  | announce c =>
      simp only [next] at hn
      split at hn <;> cases hn
      rename_i pos hc
      have hpos : pos ≤ s.bus.history.length := by have := h.clients c; rwa [hc] at this
      refine inv_setClient h c ⟨hpos, Nat.le_refl _, Nat.le_refl _, ?_⟩
      simp [EventBus.nextSeq]
  | hangUp c =>
      simp only [next] at hn
      split at hn <;> cases hn
      exact inv_setClient h c trivial
  | receive c =>
      simp only [next] at hn
      split at hn
      · rename_i p hc
        have hp : PumpOk s.bus p := by have := h.clients c; rwa [hc] at this
        split at hn
        · obtain ⟨event, he, rfl⟩ := Option.map_eq_some_iff.mp hn
          exact inv_setClient h c (pumpOk_received h.bus hp he)
        · cases hn
      · cases hn
  | lag c oldest =>
      simp only [next] at hn
      split at hn
      · rename_i p hc
        have hp : PumpOk s.bus p := by have := h.clients c; rwa [hc] at this
        split at hn
        · rename_i hlag
          cases hn
          exact inv_setClient h c
            (pumpOk_refill h.bus hp (Nat.le_trans hlag.2.2 h.bus.sent.length_le))
        · cases hn
      · cases hn
  | stop c =>
      simp only [next] at hn
      split at hn <;> cases hn
      rename_i p hc
      have hp : PumpOk s.bus p := by have := h.clients c; rwa [hc] at this
      exact inv_setClient h c ⟨hp.pos_le, hp.start_le, hp.next_le, hp.out⟩

theorem inv_reachable {s : State α} (h : machine.ReachableUnder (fun s l => inOrder s l = true) s) :
    Inv s := by
  refine h.invariant ?_ inv_step
  intro s ⟨hbus, hclients⟩
  refine ⟨hbus ▸ EventBus.ordered_empty, ?_⟩
  intro c
  rw [hclients c]
  trivial

/-- Whatever the lag, a client misses nothing as long as no emit broadcasts
before an emit with a lower sequence number. -/
theorem pump_events_gap_free {s : State α}
    (h : machine.ReachableUnder (fun s l => inOrder s l = true) s) {c : Nat} {p : Pump α}
    (hc : s.clients c = .pumping p) : p.GapFree s.bus ∧ p.Complete s.bus := by
  have hi := inv_reachable h
  have hp : PumpOk s.bus p := by have := hi.clients c; rwa [hc] at this
  constructor
  · rw [Pump.GapFree, hp.out, hi.bus.since_eq_drop]
    rw [List.drop_take]
    exact List.take_prefix _ _
  · intro hidle _ hpos
    have hall : s.bus.sent.length = s.bus.history.length := by
      by_contra hne
      have hlt := Nat.lt_of_le_of_ne hi.bus.sent.length_le hne
      obtain ⟨e, he, -⟩ := hi.bus.waiting _ (Nat.le_refl _) hlt
      rw [hidle] at he
      cases he
    have hnext : p.next = s.bus.history.length := by
      have := hp.pos_le
      have := hp.next_le
      omega
    rw [hp.out, hnext, List.take_length, hi.bus.since_eq_drop]

def quiet : State α := ⟨.empty, fun _ => .away⟩

theorem quiet_initial : machine.init (quiet : State α) := ⟨rfl, fun _ => rfl⟩

def State.delivered (s : State α) (c : Nat) : Option (List Nat) :=
  match s.clients c with
  | .pumping p => some (p.out.map Event.seq)
  | _ => none

theorem pump_of_delivered {s : State α} {c : Nat} {seqs : List Nat} (h : s.delivered c = some seqs) :
    ∃ p, s.clients c = .pumping p ∧ p.out.map Event.seq = seqs := by
  rw [State.delivered] at h
  split at h
  · exact ⟨_, ‹_›, Option.some.inj h⟩
  · cases h

/-- Two events around a client's subscription, both emitted in order, the
second one received after a lag. -/
def emitInOrder : List (Act Nat) :=
  [.emitAppend ⟨0, none⟩ 7, .subscribe 0, .emitJournal 0, .announce 0, .emitBroadcast 0,
   .emitAppend ⟨1, none⟩ 8, .emitAppend ⟨2, none⟩ 9, .emitJournal 2, .emitJournal 1,
   .emitBroadcast 1, .lag 0 1, .receive 0, .emitBroadcast 2, .receive 0]

theorem pump_events_gap_free_in_order :
    ∃ s, machine.ReachableUnder (fun s l => inOrder s l = true) s ∧
      ∃ p : Pump Nat, s.clients 0 = .pumping p ∧ p.out.map Event.seq = [1, 2] ∧
        p.GapFree s.bus ∧ p.Complete s.bus := by
  obtain ⟨s, hr, hp⟩ := Machine.exists_of_runChecked inOrder emitInOrder
    (fun s => s.delivered 0 = some [1, 2]) quiet_initial (by decide)
  obtain ⟨p, hc, hout⟩ := pump_of_delivered (of_decide_eq_true hp)
  exact ⟨s, hr, p, hc, hout, pump_events_gap_free hr hc⟩

def State.skips [DecidableEq α] (s : State α) (c : Nat) : Bool :=
  match s.clients c with
  | .pumping p => decide (¬ p.out <+: s.bus.since p.start)
  | _ => false

/-- The second of two concurrent emits overtakes the first one between its
append and its broadcast. -/
def emitOvertaken : List (Act Nat) :=
  [.subscribe 0, .announce 0, .emitAppend ⟨0, none⟩ 7, .emitAppend ⟨1, none⟩ 8, .emitJournal 0,
   .emitJournal 1, .emitBroadcast 1, .emitBroadcast 0, .receive 0, .receive 0]

theorem pump_events_overtaken_drops :
    ¬ ∀ (s : State Nat) (c : Nat) (p : Pump Nat), machine.Reachable s → s.clients c = .pumping p →
      p.GapFree s.bus ∧ p.Complete s.bus := by
  intro hall
  obtain ⟨s, hr, hp⟩ := Machine.exists_of_run emitOvertaken
    (fun s : State Nat => s.skips 0) quiet_initial (by decide)
  rw [State.skips] at hp
  split at hp
  · exact of_decide_eq_true hp (hall s 0 _ hr ‹_›).1
  · cases hp

end Silo.Frontend.EventPump
