import Silo.Lib.Lists

namespace Silo.Core

open Silo.Lib

structure Timestamp where
  logical : Nat
  wallMs : Option Nat
  deriving DecidableEq, Repr

structure Event (α : Type) where
  seq : Nat
  time : Timestamp
  payload : α
  deriving DecidableEq, Repr

/-- A call of `emit` that holds its sequence number and has not broadcast. -/
structure Emit (α : Type) where
  event : Event α
  journaled : Bool
  deriving DecidableEq, Repr

/-- The shared bus. `emit` runs on any task in three steps: it appends to the
history under its lock, journals, and broadcasts. `sent` is all that ever went
through the broadcast channel, in order. -/
structure EventBus (α : Type) where
  history : List (Event α)
  emits : List (Emit α)
  journal : List (Event α)
  sent : List (Event α)

namespace EventBus

variable {α : Type} {bus bus' : EventBus α} {seq : Nat}

def empty : EventBus α := ⟨[], [], [], []⟩

def nextSeq (bus : EventBus α) : Nat := bus.history.length

/-- All events with `seq >= from_seq`, for clients catching up. -/
def since (bus : EventBus α) (fromSeq : Nat) : List (Event α) :=
  bus.history.filter fun e => fromSeq ≤ e.seq

def emitAppend (bus : EventBus α) (time : Timestamp) (payload : α) : EventBus α :=
  let event := ⟨bus.history.length, time, payload⟩
  { bus with history := bus.history ++ [event], emits := bus.emits ++ [⟨event, false⟩] }

def emitJournal (bus : EventBus α) (seq : Nat) : Option (EventBus α) :=
  (bus.emits.find? fun e => e.event.seq = seq && !e.journaled).map fun e =>
    { bus with
      emits := bus.emits.map fun d => if d.event.seq = seq then { d with journaled := true } else d
      journal := bus.journal ++ [e.event] }

def emitBroadcast (bus : EventBus α) (seq : Nat) : Option (EventBus α) :=
  (bus.emits.find? fun e => e.event.seq = seq && e.journaled).map fun e =>
    { bus with
      emits := bus.emits.filter fun d => d.event.seq ≠ seq
      sent := bus.sent ++ [e.event] }

/-- The broadcast of `seq` overtakes no earlier emit. -/
def broadcastsInOrder (bus : EventBus α) (seq : Nat) : Bool :=
  bus.emits.all fun e => seq ≤ e.event.seq

/-- Sequence numbers are positions in the history, and every event of it has
been broadcast, in sequence order, or is still in flight. -/
structure Ordered (bus : EventBus α) : Prop where
  seqs : ∀ (i : Nat) (e : Event α), bus.history[i]? = some e → e.seq = i
  sent : bus.sent <+: bus.history
  flying : ∀ e ∈ bus.emits, bus.sent.length ≤ e.event.seq ∧ bus.history[e.event.seq]? = some e.event
  waiting : ∀ i, bus.sent.length ≤ i → i < bus.history.length → ∃ e ∈ bus.emits, e.event.seq = i

theorem ordered_empty : (empty : EventBus α).Ordered where
  seqs := by simp [empty]
  sent := List.prefix_rfl
  flying := by simp [empty]
  waiting := by simp [empty]

theorem ordered_append (h : bus.Ordered) (time : Timestamp) (payload : α) :
    (bus.emitAppend time payload).Ordered := by
  constructor
  · intro i e he
    rcases getElem?_snoc_cases he with he | ⟨rfl, rfl⟩
    · exact h.seqs i e he
    · rfl
  · exact h.sent.trans (List.prefix_append _ _)
  · intro e he
    rcases List.mem_append.mp he with he | he
    · obtain ⟨hle, hget⟩ := h.flying e he
      refine ⟨hle, ?_⟩
      rw [← hget]
      exact List.getElem?_append_left (List.getElem?_eq_some_iff.mp hget).1
    · rw [List.mem_singleton] at he
      subst he
      exact ⟨h.sent.length_le, by simp [emitAppend]⟩
  · intro i hle hlt
    simp only [emitAppend, List.length_append, List.length_singleton] at hlt
    by_cases hi : i < bus.history.length
    · obtain ⟨e, he, hseq⟩ := h.waiting i hle hi
      exact ⟨e, List.mem_append_left _ he, hseq⟩
    · exact ⟨_, List.mem_append_right _ (List.mem_singleton_self _), by simp only; omega⟩

theorem ordered_journal (h : bus.Ordered) (hj : bus.emitJournal seq = some bus') : bus'.Ordered := by
  obtain ⟨e, -, rfl⟩ := Option.map_eq_some_iff.mp hj
  have hevent (d : Emit α) :
      (if d.event.seq = seq then { d with journaled := true } else d).event = d.event := by
    split <;> rfl
  refine ⟨h.seqs, h.sent, ?_, ?_⟩
  · intro d hd
    obtain ⟨d', hd', rfl⟩ := List.mem_map.mp hd
    rw [hevent]
    exact h.flying d' hd'
  · intro i hle hlt
    obtain ⟨d, hd, hseq⟩ := h.waiting i hle hlt
    exact ⟨_, List.mem_map_of_mem hd, by rw [hevent]; exact hseq⟩

/-- An in-order broadcast sends the first event of the history not sent yet. -/
theorem Ordered.broadcast_next (h : bus.Ordered) (hord : bus.broadcastsInOrder seq = true)
    (hb : bus.emitBroadcast seq = some bus') :
    seq = bus.sent.length ∧ ∃ e, bus.history[seq]? = some e ∧ bus'.sent = bus.sent ++ [e] := by
  obtain ⟨e, he, rfl⟩ := Option.map_eq_some_iff.mp hb
  have hseq : e.event.seq = seq := by
    have := List.find?_some he
    simp only [Bool.and_eq_true, decide_eq_true_eq] at this
    exact this.1
  obtain ⟨hle, hget⟩ := h.flying e (List.mem_of_find?_eq_some he)
  have hlt := (List.getElem?_eq_some_iff.mp hget).1
  obtain ⟨d, hd, hdseq⟩ := h.waiting bus.sent.length (Nat.le_refl _) (by omega)
  have hmin : seq ≤ d.event.seq := by simpa using List.all_eq_true.mp hord d hd
  exact ⟨by omega, e.event, hseq ▸ hget, rfl⟩

theorem ordered_broadcast (h : bus.Ordered) (hord : bus.broadcastsInOrder seq = true)
    (hb : bus.emitBroadcast seq = some bus') : bus'.Ordered := by
  obtain ⟨hlen, e, hget, hsent⟩ := h.broadcast_next hord hb
  obtain ⟨e', -, hbus⟩ := Option.map_eq_some_iff.mp hb
  have hhist : bus'.history = bus.history := by rw [← hbus]
  have hmem (d : Emit α) : d ∈ bus'.emits ↔ d ∈ bus.emits ∧ d.event.seq ≠ seq := by
    rw [← hbus, List.mem_filter, decide_eq_true_iff]
  have hlength : bus'.sent.length = bus.sent.length + 1 := by rw [hsent]; simp
  refine ⟨?_, ?_, ?_, ?_⟩
  · rw [hhist]
    exact h.seqs
  · obtain ⟨rest, hrest⟩ := h.sent
    rw [hsent, hhist]
    rw [← hrest, hlen, List.getElem?_append_right (Nat.le_refl _), Nat.sub_self] at hget
    cases rest with
    | nil => cases hget
    | cons d rest =>
        cases hget
        exact ⟨rest, by rw [List.append_assoc]; exact hrest⟩
  · intro d hd
    obtain ⟨hd, hne⟩ := (hmem d).mp hd
    obtain ⟨hle, hd'⟩ := h.flying d hd
    exact ⟨by omega, hhist ▸ hd'⟩
  · intro i hle hlt
    rw [hhist] at hlt
    obtain ⟨d, hd, hseq⟩ := h.waiting i (by omega) hlt
    exact ⟨d, (hmem d).mpr ⟨hd, by omega⟩, hseq⟩

theorem since_eq_drop_of_seqs
    (hseqs : ∀ (i : Nat) (e : Event α), bus.history[i]? = some e → e.seq = i) (fromSeq : Nat) :
    bus.since fromSeq = bus.history.drop fromSeq := by
  have hbefore : (bus.history.take fromSeq).filter (fun e => fromSeq ≤ e.seq) = [] := by
    rw [List.filter_eq_nil_iff]
    intro e he
    obtain ⟨i, hi⟩ := List.mem_iff_getElem?.mp he
    rw [List.getElem?_take] at hi
    split at hi
    · rw [hseqs i e hi]
      simp only [decide_eq_true_eq]
      omega
    · cases hi
  have hafter : (bus.history.drop fromSeq).filter (fun e => fromSeq ≤ e.seq) =
      bus.history.drop fromSeq := by
    rw [List.filter_eq_self]
    intro e he
    obtain ⟨i, hi⟩ := List.mem_iff_getElem?.mp he
    rw [List.getElem?_drop] at hi
    rw [hseqs _ e hi]
    simp
  rw [since]
  conv_lhs => rw [← List.take_append_drop fromSeq bus.history]
  rw [List.filter_append, hbefore, hafter, List.nil_append]

theorem Ordered.since_eq_drop (h : bus.Ordered) (fromSeq : Nat) :
    bus.since fromSeq = bus.history.drop fromSeq := since_eq_drop_of_seqs h.seqs fromSeq

end EventBus

end Silo.Core
