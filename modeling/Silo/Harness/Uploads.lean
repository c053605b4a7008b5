import Silo.Lib.Machine
import Silo.Core.EventBus
import Silo.Harness.Record

namespace Silo.Harness.Uploads

open Silo.Lib Silo.Core

/-- A call of `store_upload`. -/
structure Upload where
  name : String
  contentB64 : String
  counter : Nat
  deriving DecidableEq, Repr

inductive Phase
  | starting
  | subscribed
  | looping
  | stopped
  deriving DecidableEq, Repr

/-- The task of `listen`. `todo` is what is left of the events that the running
`for` loop took from the history, and `writing` marks a `store_upload` that has
not returned. -/
structure Listener where
  phase : Phase
  pos : Nat
  nextSeq : Nat
  counter : Nat
  todo : List (Event EventPayload)
  writing : Bool
  stored : List Upload

def Listener.start : Listener := ⟨.starting, 0, 0, 0, [], false, []⟩

/-- Name and content of a `FileShared` event with a client origin. -/
def clientUpload : EventPayload → Option (String × String)
  | .fileShared name contentB64 (.client _) => some (name, contentB64)
  | _ => none

def Listener.handleEvent (l : Listener) (payload : EventPayload) : Listener :=
  match clientUpload payload with
  | some (name, contentB64) =>
    { l with
      counter := l.counter + 1
      writing := true
      stored := l.stored ++ [⟨name, contentB64, l.counter + 1⟩] }
  | none => l

def Listener.handle (l : Listener) (event : Event EventPayload) : Listener :=
  { l with nextSeq := event.seq + 1 }.handleEvent event.payload

def Listener.receiving (l : Listener) : Bool :=
  decide (l.phase = .looping) && !l.writing && l.todo.isEmpty

structure State where
  bus : EventBus EventPayload
  listener : Listener

/-- One step of an emitting task or of the listener. As for the event pump, a
receiver can find itself lagging at any point and by any number of messages. -/
inductive Act
  | emitAppend (time : Timestamp) (payload : EventPayload)
  | emitJournal (seq : Nat)
  | emitBroadcast (seq : Nat)
  | subscribe
  | catchUp
  | handleNext
  | wrote
  | receive
  | lag (oldest : Nat)
  | stop

def next (s : State) : Act → Option State
  | .emitAppend time payload => some { s with bus := s.bus.emitAppend time payload }
  | .emitJournal seq => (s.bus.emitJournal seq).map fun bus => { s with bus := bus }
  | .emitBroadcast seq => (s.bus.emitBroadcast seq).map fun bus => { s with bus := bus }
  | .subscribe =>
    if s.listener.phase = .starting then
      some { s with listener := { s.listener with phase := .subscribed, pos := s.bus.sent.length } }
    else none
  | .catchUp =>
    if s.listener.phase = .subscribed then
      some { s with listener := { s.listener with phase := .looping, todo := s.bus.since 0 } }
    else none
  | .handleNext =>
    match s.listener.todo with
    | event :: rest =>
      if s.listener.phase = .looping ∧ s.listener.writing = false then
        some { s with listener := { s.listener with todo := rest }.handle event }
      else none
    | [] => none
  | .wrote =>
    if s.listener.writing then some { s with listener := { s.listener with writing := false } } else none
  | .receive =>
    if s.listener.receiving then
      (s.bus.sent[s.listener.pos]?).map fun event =>
        let listener := { s.listener with pos := s.listener.pos + 1 }
        { s with listener := if event.seq < listener.nextSeq then listener else listener.handle event }
    else none
  | .lag oldest =>
    if s.listener.receiving ∧ s.listener.pos < oldest ∧ oldest ≤ s.bus.sent.length then
      some { s with listener := { s.listener with pos := oldest, todo := s.bus.since s.listener.nextSeq } }
    else none
  | .stop => some { s with listener := { s.listener with phase := .stopped } }

def machine : Machine State Act := ⟨fun s => s.bus = .empty ∧ s.listener = .start, next⟩

def isUpload (event : Event EventPayload) : Bool := (clientUpload event.payload).isSome

/-- The calls that a listener owes to the events: one for each client upload,
in order, numbered from 1. -/
def owed (counter : Nat) : List (Event EventPayload) → List Upload
  | [] => []
  | event :: events =>
    match clientUpload event.payload with
    | some (name, contentB64) => ⟨name, contentB64, counter + 1⟩ :: owed (counter + 1) events
    | none => owed counter events

def InOrder (s : State) : Prop := s.listener.stored <+: owed 0 s.bus.history

/-- A listener that has read its channel to the end after the last emit owes
nothing. -/
def Complete (s : State) : Prop :=
  s.bus.emits = [] → s.listener.receiving = true → s.listener.pos = s.bus.sent.length →
    s.listener.stored = owed 0 s.bus.history

/-- The broadcast of `seq` overtakes no client upload with a lower number. -/
def overtakesNoUpload (s : State) : Act → Bool
  | .emitBroadcast seq => s.bus.emits.all fun e => !isUpload e.event || decide (seq ≤ e.event.seq)
  | _ => true

theorem owed_snoc (events : List (Event EventPayload)) (event : Event EventPayload) (n : Nat) :
    owed n (events ++ [event]) = owed n events ++ owed (n + events.countP isUpload) [event] := by
  induction events generalizing n with
  | nil => rfl
  | cons d events ih =>
      cases hd : clientUpload d.payload with
      | none => simp [owed, isUpload, hd, ih]
      | some file =>
          have hn : n + 1 + events.countP isUpload = n + (events.countP isUpload + 1) := by omega
          simp [owed, isUpload, hd, ih, hn]

theorem owed_single {event : Event EventPayload} (h : isUpload event = false) (n : Nat) :
    owed n [event] = [] := by
  have hnone : clientUpload event.payload = none := by simpa [isUpload] using h
  simp [owed, hnone]

theorem owed_prefix {events events' : List (Event EventPayload)} (h : events <+: events') (n : Nat) :
    owed n events <+: owed n events' := by
  obtain ⟨rest, rfl⟩ := h
  induction rest generalizing events with
  | nil => simp
  | cons event rest ih =>
      have hgrow : owed n events <+: owed n (events ++ [event]) := by
        rw [owed_snoc]
        exact List.prefix_append _ _
      rw [← List.singleton_append, ← List.append_assoc]
      exact hgrow.trans ih

/-- The listener has stored the uploads among the events below `nextSeq`. -/
structure Caught (history : List (Event EventPayload)) (l : Listener) : Prop where
  le : l.nextSeq ≤ history.length
  counter : l.counter = (history.take l.nextSeq).countP isUpload
  stored : l.stored = owed 0 (history.take l.nextSeq)

theorem caught_grow {history history' : List (Event EventPayload)} {l : Listener}
    (h : Caught history l) (hgrow : history <+: history') : Caught history' l := by
  obtain ⟨rest, rfl⟩ := hgrow
  have htake : (history ++ rest).take l.nextSeq = history.take l.nextSeq :=
    List.take_append_of_le_length h.le
  constructor
  · exact Nat.le_trans h.le (by simp)
  · rw [htake]
    exact h.counter
  · rw [htake]
    exact h.stored

theorem caught_skip {history : List (Event EventPayload)} {l : Listener} (h : Caught history l) (k : Nat)
    (hlen : l.nextSeq + k ≤ history.length)
    (hgap : ∀ i u, l.nextSeq ≤ i → i < l.nextSeq + k → history[i]? = some u → isUpload u = false) :
    Caught history { l with nextSeq := l.nextSeq + k } := by
  induction k with
  | zero => exact h
  | succ k ih =>
      have hc := ih (by omega) (fun i u hi hlt => hgap i u hi (by omega))
      obtain ⟨u, hu⟩ : ∃ u, history[l.nextSeq + k]? = some u :=
        ⟨_, List.getElem?_eq_getElem (by omega)⟩
      have hno := hgap _ u (Nat.le_add_right _ _) (by omega) hu
      rw [← Nat.add_assoc]
      constructor
      · exact hlen
      · simpa [List.take_add_one, hu, hno] using hc.counter
      · simpa [List.take_add_one, hu, owed_snoc, owed_single hno] using hc.stored

theorem caught_handle {history : List (Event EventPayload)} {l : Listener} {event : Event EventPayload}
    (h : Caught history { l with nextSeq := event.seq }) (hget : history[event.seq]? = some event) :
    Caught history (l.handle event) := by
  have hlt := (List.getElem?_eq_some_iff.mp hget).1
  have hstored : l.stored = owed 0 (history.take event.seq) := h.stored
  have hcounter : l.counter = (history.take event.seq).countP isUpload := h.counter
  cases hp : clientUpload event.payload with
  | none =>
      have hno : isUpload event = false := by simp [isUpload, hp]
      simp only [Listener.handle, Listener.handleEvent, hp]
      constructor
      · exact hlt
      · simp [List.take_add_one, hget, hno, hcounter]
      · simp [List.take_add_one, hget, owed_snoc, owed_single hno, hstored]
  | some file =>
      have hup : isUpload event = true := by simp [isUpload, hp]
      simp only [Listener.handle, Listener.handleEvent, hp]
      constructor
      · exact hlt
      · simp [List.take_add_one, hget, hup, hcounter]
      · simp [List.take_add_one, hget, owed_snoc, hstored, hcounter, owed, hp]

/-- Every upload of the history has been broadcast or is in flight, and no
event with a higher number was broadcast before it. -/
structure Unovertaken (bus : EventBus EventPayload) : Prop where
  seqs : ∀ (i : Nat) (e : Event EventPayload), bus.history[i]? = some e → e.seq = i
  flying : ∀ e ∈ bus.emits, bus.history[e.event.seq]? = some e.event
  sent : ∀ e ∈ bus.sent, bus.history[e.seq]? = some e
  placed : ∀ u ∈ bus.history, isUpload u = true → u ∈ bus.sent ∨ ∃ e ∈ bus.emits, e.event = u
  ahead : ∀ e ∈ bus.emits, isUpload e.event = true → ∀ d ∈ bus.sent, d.seq < e.event.seq
  order : ∀ (i j : Nat) (d u : Event EventPayload), i < j → bus.sent[i]? = some d →
    bus.sent[j]? = some u → isUpload u = true → d.seq < u.seq

theorem unovertaken_empty : Unovertaken .empty := by
  constructor <;> simp [EventBus.empty]

theorem unovertaken_append {bus : EventBus EventPayload} (h : Unovertaken bus) (time : Timestamp)
    (payload : EventPayload) : Unovertaken (bus.emitAppend time payload) := by
  have hstay {i : Nat} {e : Event EventPayload} (he : bus.history[i]? = some e) :
      (bus.emitAppend time payload).history[i]? = some e := by
    rw [← he]
    exact List.getElem?_append_left (List.getElem?_eq_some_iff.mp he).1
  constructor
  · intro i e he
    rcases getElem?_snoc_cases he with he | ⟨rfl, rfl⟩
    · exact h.seqs i e he
    · rfl
  · intro e he
    rcases List.mem_append.mp he with he | he
    · exact hstay (h.flying e he)
    · rw [List.mem_singleton] at he
      subst he
      simp [EventBus.emitAppend]
  · intro e he
    exact hstay (h.sent e he)
  · intro u hu hup
    rcases List.mem_append.mp hu with hu | hu
    · refine (h.placed u hu hup).imp_right ?_
      rintro ⟨e, he, heq⟩
      exact ⟨e, List.mem_append_left _ he, heq⟩
    · rw [List.mem_singleton] at hu
      exact .inr ⟨_, List.mem_append_right _ (List.mem_singleton_self _), hu.symm⟩
  · intro e he hup d hd
    rcases List.mem_append.mp he with he | he
    · exact h.ahead e he hup d hd
    · rw [List.mem_singleton] at he
      subst he
      exact (List.getElem?_eq_some_iff.mp (h.sent d hd)).1
  · exact h.order

theorem unovertaken_journal {bus bus' : EventBus EventPayload} {seq : Nat} (h : Unovertaken bus)
    (hj : bus.emitJournal seq = some bus') : Unovertaken bus' := by
  obtain ⟨e, -, rfl⟩ := Option.map_eq_some_iff.mp hj
  have hevent (d : Emit EventPayload) :
      (if d.event.seq = seq then { d with journaled := true } else d).event = d.event := by
    split <;> rfl
  constructor
  · exact h.seqs
  · intro d hd
    obtain ⟨d', hd', rfl⟩ := List.mem_map.mp hd
    rw [hevent]
    exact h.flying d' hd'
  · exact h.sent
  · intro u hu hup
    refine (h.placed u hu hup).imp_right ?_
    rintro ⟨d, hd, heq⟩
    exact ⟨_, List.mem_map_of_mem hd, (hevent d).trans heq⟩
  · intro d hd
    obtain ⟨d', hd', rfl⟩ := List.mem_map.mp hd
    rw [hevent]
    exact h.ahead d' hd'
  · exact h.order

theorem unovertaken_broadcast {bus bus' : EventBus EventPayload} {seq : Nat} (h : Unovertaken bus)
    (hok : ∀ e ∈ bus.emits, isUpload e.event = true → seq ≤ e.event.seq)
    (hb : bus.emitBroadcast seq = some bus') : Unovertaken bus' := by
  obtain ⟨e, he, rfl⟩ := Option.map_eq_some_iff.mp hb
  have hmem := List.mem_of_find?_eq_some he
  have hseq : e.event.seq = seq := by
    have := List.find?_some he
    simp only [Bool.and_eq_true, decide_eq_true_eq] at this
    exact this.1
  have hkeep (d : Emit EventPayload) :
      d ∈ (bus.emits.filter fun d => d.event.seq ≠ seq) ↔ d ∈ bus.emits ∧ d.event.seq ≠ seq := by
    rw [List.mem_filter, decide_eq_true_iff]
  constructor
  · exact h.seqs
  · intro d hd
    exact h.flying d ((hkeep d).mp hd).1
  · intro d hd
    rcases List.mem_append.mp hd with hd | hd
    · exact h.sent d hd
    · rw [List.mem_singleton.mp hd]
      exact h.flying e hmem
  · intro u hu hup
    rcases h.placed u hu hup with hs | ⟨d, hd, rfl⟩
    · exact .inl (List.mem_append_left _ hs)
    · by_cases hds : d.event.seq = seq
      · have heq := h.flying d hd
        rw [hds, ← hseq, h.flying e hmem] at heq
        rw [← Option.some.inj heq]
        exact .inl (List.mem_append_right _ (List.mem_singleton_self _))
      · exact .inr ⟨d, (hkeep d).mpr ⟨hd, hds⟩, rfl⟩
  · intro d hd hup x hx
    obtain ⟨hd, hne⟩ := (hkeep d).mp hd
    rcases List.mem_append.mp hx with hx | hx
    · exact h.ahead d hd hup x hx
    · have hle := hok d hd hup
      rw [List.mem_singleton.mp hx]
      omega
  · intro i j d u hij hd hu hup
    rcases getElem?_snoc_cases hu with hu | ⟨rfl, rfl⟩
    · rw [List.getElem?_append_left (by have := (List.getElem?_eq_some_iff.mp hu).1; omega)] at hd
      exact h.order i j d u hij hd hu hup
    · rw [List.getElem?_append_left hij] at hd
      exact h.ahead e hmem hup d (List.mem_of_getElem? hd)

/-- What the listener took from the history follows on what it handled, and
every upload it has read from its channel is handled or among that. -/
structure Following (bus : EventBus EventPayload) (l : Listener) : Prop where
  todo : l.todo <+: bus.history.drop l.nextSeq
  read : ∀ i e, i < l.pos → bus.sent[i]? = some e → isUpload e = true →
    e.seq < l.nextSeq + l.todo.length

structure Inv (s : State) : Prop where
  bus : Unovertaken s.bus
  caught : Caught s.bus.history s.listener
  pos : s.listener.pos ≤ s.bus.sent.length
  fresh : s.listener.phase = .starting ∨ s.listener.phase = .subscribed → s.listener.nextSeq = 0
  following : s.listener.phase = .looping → Following s.bus s.listener

theorem Unovertaken.seq_lt {bus : EventBus EventPayload} (h : Unovertaken bus) {i : Nat}
    {e : Event EventPayload} (he : bus.sent[i]? = some e) : e.seq < bus.history.length :=
  (List.getElem?_eq_some_iff.mp (h.sent e (List.mem_of_getElem? he))).1

/-- Between what is handled and the event just read there is no upload: it
would be in flight, or read before, or still to be read behind a later event. -/
theorem Following.no_gap {bus : EventBus EventPayload} {l : Listener} (hb : Unovertaken bus)
    (h : Following bus l) (htodo : l.todo = []) {event : Event EventPayload}
    (he : bus.sent[l.pos]? = some event) {i : Nat} {u : Event EventPayload} (hle : l.nextSeq ≤ i)
    (hlt : i < event.seq) (hu : bus.history[i]? = some u) : isUpload u = false := by
  by_contra hup
  rw [Bool.not_eq_false] at hup
  have hseq := hb.seqs i u hu
  rcases hb.placed u (List.mem_of_getElem? hu) hup with hs | ⟨e, hfly, heq⟩
  · obtain ⟨j, hj⟩ := List.mem_iff_getElem?.mp hs
    rcases Nat.lt_trichotomy j l.pos with hjp | rfl | hjp
    · have := h.read j u hjp hj hup
      rw [htodo, List.length_nil] at this
      omega
    · rw [hj] at he
      cases he
      omega
    · have := hb.order l.pos j event u hjp he hj hup
      omega
  · rw [← heq] at hup hseq
    have := hb.ahead e hfly hup event (List.mem_of_getElem? he)
    omega

theorem handle_todo (l : Listener) (event : Event EventPayload) : (l.handle event).todo = l.todo := by
  rw [Listener.handle, Listener.handleEvent]
  split <;> rfl

theorem handle_pos (l : Listener) (event : Event EventPayload) : (l.handle event).pos = l.pos := by
  rw [Listener.handle, Listener.handleEvent]
  split <;> rfl

theorem handle_phase (l : Listener) (event : Event EventPayload) : (l.handle event).phase = l.phase := by
  rw [Listener.handle, Listener.handleEvent]
  split <;> rfl

theorem handle_nextSeq (l : Listener) (event : Event EventPayload) :
    (l.handle event).nextSeq = event.seq + 1 := by
  rw [Listener.handle, Listener.handleEvent]
  split <;> rfl

theorem receiving_iff (l : Listener) :
    l.receiving = true ↔ l.phase = .looping ∧ l.writing = false ∧ l.todo = [] := by
  simp [Listener.receiving, and_assoc]

theorem inv_bus {s : State} (h : Inv s) {bus : EventBus EventPayload} (hb : Unovertaken bus)
    (hgrow : s.bus.history <+: bus.history) (hsent : s.bus.sent <+: bus.sent) :
    Inv { s with bus := bus } := by
  obtain ⟨later, hlater⟩ := hsent
  obtain ⟨rest, hrest⟩ := hgrow
  constructor
  · exact hb
  · exact caught_grow h.caught ⟨rest, hrest⟩
  · have hpos := h.pos
    simp only [← hlater, List.length_append]
    omega
  · exact h.fresh
  · intro hp
    obtain ⟨htodo, hread⟩ := h.following hp
    constructor
    · simp only
      rw [← hrest, List.drop_append_of_le_length h.caught.le]
      exact htodo.trans (List.prefix_append _ _)
    · intro i e hi he
      simp only [← hlater] at he
      rw [List.getElem?_append_left (Nat.lt_of_lt_of_le hi h.pos)] at he
      exact hread i e hi he

theorem inv_receive {s t : State} (h : Inv s) (hn : next s .receive = some t) : Inv t := by
  simp only [next] at hn
  split at hn
  · rename_i hrecv
    obtain ⟨hphase, -, htodo⟩ := (receiving_iff _).mp hrecv
    obtain ⟨event, he, rfl⟩ := Option.map_eq_some_iff.mp hn
    have hf := h.following hphase
    have hget := h.bus.sent event (List.mem_of_getElem? he)
    have hpos := (List.getElem?_eq_some_iff.mp he).1
    -- what was read before, and the event read now
    have hread (n : Nat) (hle : s.listener.nextSeq ≤ n) (hlt : event.seq < n) (i : Nat)
        (e : Event EventPayload) (hi : i < s.listener.pos + 1) (hs : s.bus.sent[i]? = some e)
        (hup : isUpload e = true) : e.seq < n := by
      rcases Nat.lt_succ_iff_lt_or_eq.mp hi with hi | rfl
      · have := hf.read i e hi hs hup
        rw [htodo, List.length_nil] at this
        omega
      · rw [he] at hs
        cases hs
        exact hlt
    by_cases hold : event.seq < s.listener.nextSeq
    · simp only [if_pos hold]
      refine ⟨h.bus, ⟨h.caught.le, h.caught.counter, h.caught.stored⟩, hpos, h.fresh, ?_⟩
      intro _
      constructor
      · exact hf.todo
      · simp only [htodo, List.length_nil, Nat.add_zero]
        exact hread _ (Nat.le_refl _) hold
    · simp only [if_neg hold]
      obtain ⟨k, hk⟩ := Nat.exists_eq_add_of_le (Nat.le_of_not_lt hold)
      have hskip := caught_skip (l := { s.listener with pos := s.listener.pos + 1 })
        ⟨h.caught.le, h.caught.counter, h.caught.stored⟩ k
        (by simp only; rw [← hk]; exact Nat.le_of_lt (h.bus.seq_lt he))
        (fun i u hle hlt hu => hf.no_gap h.bus htodo he hle (hk ▸ hlt) hu)
      simp only [← hk] at hskip
      refine ⟨h.bus, caught_handle hskip hget, ?_, ?_, ?_⟩
      · rw [handle_pos]
        exact hpos
      · rw [handle_phase]
        intro hp
        rw [hphase] at hp
        simp at hp
      · intro _
        constructor
        · rw [handle_todo, htodo]
          exact List.nil_prefix
        · rw [handle_todo, handle_nextSeq, handle_pos, htodo]
          exact hread _ (by omega) (Nat.lt_succ_self _)
  · cases hn

theorem inv_handleNext {s t : State} (h : Inv s) (hn : next s .handleNext = some t) : Inv t := by
  simp only [next] at hn
  split at hn
  · rename_i event rest htodo
    split at hn
    · rename_i hphase
      cases hn
      have hf := h.following hphase.1
      obtain ⟨later, hlater⟩ := hf.todo
      rw [htodo] at hlater
      have hget : s.bus.history[s.listener.nextSeq]? = some event := by
        have : (s.bus.history.drop s.listener.nextSeq)[0]? = some event := by rw [← hlater]; rfl
        rwa [List.getElem?_drop, Nat.add_zero] at this
      have hseq := h.bus.seqs _ _ hget
      rw [← hseq] at hget
      refine ⟨h.bus, caught_handle ?_ hget, ?_, ?_, ?_⟩
      · simp only [hseq]
        exact ⟨h.caught.le, h.caught.counter, h.caught.stored⟩
      · rw [handle_pos]
        exact h.pos
      · rw [handle_phase]
        intro hp
        simp only [hphase.1] at hp
        simp at hp
      · intro _
        constructor
        · rw [handle_todo, handle_nextSeq, hseq, ← List.drop_drop, ← hlater]
          exact List.prefix_append _ _
        · intro i e hi hs hup
          rw [handle_pos] at hi
          have := hf.read i e hi hs hup
          rw [htodo, List.length_cons] at this
          rw [handle_nextSeq, handle_todo]
          simp only
          omega
    · cases hn
  · cases hn

theorem inv_step {s t : State} {l : Act} (h : Inv s) (hok : overtakesNoUpload s l = true)
    (hn : next s l = some t) : Inv t := by
  cases l with
  | emitAppend time payload =>
      cases hn
      exact inv_bus h (unovertaken_append h.bus _ _) (List.prefix_append _ _) List.prefix_rfl
  | emitJournal seq =>
      obtain ⟨bus, hb, rfl⟩ := Option.map_eq_some_iff.mp hn
      have hu := unovertaken_journal h.bus hb
      obtain ⟨e, -, rfl⟩ := Option.map_eq_some_iff.mp hb
      exact inv_bus h hu List.prefix_rfl List.prefix_rfl
  | emitBroadcast seq =>
      obtain ⟨bus, hb, rfl⟩ := Option.map_eq_some_iff.mp hn
      have hu := unovertaken_broadcast h.bus (fun e he hup => by
        have := List.all_eq_true.mp hok e he
        simpa [hup] using this) hb
      obtain ⟨e, -, rfl⟩ := Option.map_eq_some_iff.mp hb
      exact inv_bus h hu List.prefix_rfl (List.prefix_append _ _)
  | subscribe =>
      simp only [next] at hn
      split at hn <;> cases hn
      rename_i hphase
      refine ⟨h.bus, ⟨h.caught.le, h.caught.counter, h.caught.stored⟩, Nat.le_refl _, ?_, ?_⟩
      · intro _
        exact h.fresh (.inl hphase)
      · intro hp
        cases hp
  | catchUp =>
      simp only [next] at hn
      split at hn <;> cases hn
      rename_i hphase
      have hzero := h.fresh (.inr hphase)
      refine ⟨h.bus, ⟨h.caught.le, h.caught.counter, h.caught.stored⟩, h.pos, ?_, ?_⟩
      · intro _
        exact hzero
      · intro _
        constructor
        · simp only [EventBus.since_eq_drop_of_seqs h.bus.seqs, hzero]
          exact List.prefix_rfl
        · intro i e _ he _
          have := h.bus.seq_lt he
          simp only [EventBus.since_eq_drop_of_seqs h.bus.seqs, hzero, List.drop_zero]
          omega
  | handleNext => exact inv_handleNext h hn
  | wrote =>
      simp only [next] at hn
      split at hn <;> cases hn
      refine ⟨h.bus, ⟨h.caught.le, h.caught.counter, h.caught.stored⟩, h.pos, h.fresh, ?_⟩
      intro hp
      exact ⟨(h.following hp).todo, (h.following hp).read⟩
  | receive => exact inv_receive h hn
  | lag oldest =>
      simp only [next] at hn
      split at hn <;> cases hn
      rename_i hlag
      obtain ⟨hphase, -, -⟩ := (receiving_iff _).mp hlag.1
      refine ⟨h.bus, ⟨h.caught.le, h.caught.counter, h.caught.stored⟩, hlag.2.2, h.fresh, ?_⟩
      intro _
      constructor
      · simp only [EventBus.since_eq_drop_of_seqs h.bus.seqs]
        exact List.prefix_rfl
      · intro i e _ he _
        have := h.bus.seq_lt he
        have := h.caught.le
        simp only [EventBus.since_eq_drop_of_seqs h.bus.seqs, List.length_drop]
        omega
  | stop =>
      cases hn
      refine ⟨h.bus, ⟨h.caught.le, h.caught.counter, h.caught.stored⟩, h.pos, ?_, ?_⟩
      · intro hp
        simp at hp
      · intro hp
        cases hp

theorem inv_reachable {s : State}
    (h : machine.ReachableUnder (fun s l => overtakesNoUpload s l = true) s) : Inv s := by
  refine h.invariant ?_ inv_step
  rintro s ⟨hbus, hstart⟩
  constructor
  · rw [hbus]
    exact unovertaken_empty
  · rw [hbus, hstart]
    constructor <;> simp [EventBus.empty, Listener.start, owed]
  · simp [hbus, hstart, Listener.start]
  · simp [hstart, Listener.start]
  · simp [hstart, Listener.start]

/-- Whatever the lag and however long a write takes, every upload is stored
once, as long as no broadcast overtakes an upload with a lower number. -/
theorem listen_stores_uploads {s : State}
    (h : machine.ReachableUnder (fun s l => overtakesNoUpload s l = true) s) :
    InOrder s ∧ Complete s := by
  have hi := inv_reachable h
  constructor
  · rw [InOrder, hi.caught.stored]
    exact owed_prefix (List.take_prefix _ _) 0
  · intro hidle hrecv hpos
    obtain ⟨hphase, -, htodo⟩ := (receiving_iff _).mp hrecv
    have hf := hi.following hphase
    obtain ⟨k, hk⟩ := Nat.exists_eq_add_of_le hi.caught.le
    -- an upload past `nextSeq` would have been read from the channel
    have hskip := caught_skip hi.caught k (Nat.le_of_eq hk.symm) (by
      intro i u hle _ hu
      by_contra hup
      rw [Bool.not_eq_false] at hup
      have hseq := hi.bus.seqs i u hu
      rcases hi.bus.placed u (List.mem_of_getElem? hu) hup with hs | ⟨e, he, -⟩
      · obtain ⟨j, hj⟩ := List.mem_iff_getElem?.mp hs
        have := hf.read j u (hpos ▸ (List.getElem?_eq_some_iff.mp hj).1) hj hup
        rw [htodo, List.length_nil] at this
        omega
      · rw [hidle] at he
        cases he)
    have hstored := hskip.stored
    simp only [← hk, List.take_length] at hstored
    exact hstored

def quiet : State := ⟨.empty, .start⟩

theorem quiet_initial : machine.init quiet := ⟨rfl, rfl⟩

/-- An upload around the subscription, one overtaken by an event of another
kind and read while the first is written, and one found in the history. -/
def uploadInOrder : List Act :=
  [.emitAppend ⟨0, none⟩ (.fileShared "a.txt" "QQ==" (.client "c1")), .subscribe, .catchUp, .emitJournal 0,
   .emitBroadcast 0, .handleNext, .emitAppend ⟨1, none⟩ .awaitingInput,
   .emitAppend ⟨2, none⟩ (.fileShared "b.txt" "Qg==" (.client "c2")), .emitJournal 2, .emitBroadcast 2,
   .emitJournal 1, .emitBroadcast 1, .wrote, .receive, .receive, .wrote,
   .emitAppend ⟨3, none⟩ (.fileShared "c.txt" "Qw==" (.client "c1")), .emitJournal 3, .emitBroadcast 3,
   .lag 3, .handleNext, .wrote, .receive]

theorem listen_stores_uploads_in_order :
    ∃ s, machine.ReachableUnder (fun s l => overtakesNoUpload s l = true) s ∧
      s.listener.stored = [⟨"a.txt", "QQ==", 1⟩, ⟨"b.txt", "Qg==", 2⟩, ⟨"c.txt", "Qw==", 3⟩] ∧
      InOrder s ∧ Complete s := by
  obtain ⟨s, hr, hp⟩ := Machine.exists_of_runChecked overtakesNoUpload uploadInOrder
    (fun s => s.listener.stored = [⟨"a.txt", "QQ==", 1⟩, ⟨"b.txt", "Qg==", 2⟩, ⟨"c.txt", "Qw==", 3⟩])
    quiet_initial (by decide)
  exact ⟨s, hr, of_decide_eq_true hp, listen_stores_uploads hr⟩

/-- The upload of one client is overtaken, between its append and its
broadcast, by the upload of another. -/
def uploadOvertaken : List Act :=
  [.subscribe, .catchUp, .emitAppend ⟨0, none⟩ (.fileShared "a.txt" "QQ==" (.client "c1")),
   .emitAppend ⟨1, none⟩ (.fileShared "b.txt" "Qg==" (.client "c2")), .emitJournal 0, .emitJournal 1,
   .emitBroadcast 1, .emitBroadcast 0, .receive, .wrote, .receive]

theorem listen_skips_overtaken_upload : ¬ ∀ s, machine.Reachable s → InOrder s ∧ Complete s := by
  intro hall
  obtain ⟨s, hr, hp⟩ := Machine.exists_of_run uploadOvertaken
    (fun s => decide (¬ s.listener.stored <+: owed 0 s.bus.history)) quiet_initial (by decide)
  exact of_decide_eq_true hp (hall s hr).1

end Silo.Harness.Uploads
