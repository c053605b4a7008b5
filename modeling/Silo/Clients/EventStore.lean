import Silo.Clients.Tui

namespace Silo.Clients

open Silo.Lib Silo.Core Silo.Harness

/-- The app's event store, a map from sequence numbers. `busySeq` is the number of the
highest event that affects the busy flag. -/
structure EventStore where
  entries : List (Event EventPayload)
  busySeq : Option Nat
  busy : Bool

namespace EventStore

variable (store : EventStore)

def empty : EventStore := ⟨[], none, false⟩

/-- True when the payload marks the harness busy, false when it marks it idle. -/
def busySignal : EventPayload → Option Bool := busyAfter

def trackBusy (event : Event EventPayload) : EventStore :=
  match busySignal event.payload with
  | none => store
  | some signal =>
    if store.busySeq.all fun seq => seq < event.seq then { store with busySeq := some event.seq, busy := signal }
    else store

def containsKey (seq : Nat) : Bool := store.entries.any fun e => e.seq = seq

def nextSeq : Nat := store.entries.foldr (fun e n => max n (e.seq + 1)) 0

def insert (event : Event EventPayload) : EventStore :=
  if store.containsKey event.seq then store
  else { store with entries := store.entries ++ [event] }.trackBusy event

def insertAll (batch : List (Event EventPayload)) : EventStore := batch.foldl insert store

/-- An event with this number is in the store. -/
def Has (seq : Nat) : Prop := store.containsKey seq = true

def Gapless : Prop := ∀ seq, seq < store.nextSeq → store.Has seq

variable {store} {e : Event EventPayload} {seq : Nat}

theorem has_iff : store.Has seq ↔ ∃ e ∈ store.entries, e.seq = seq := by
  simp [Has, containsKey]

theorem trackBusy_entries : (store.trackBusy e).entries = store.entries := by
  rw [trackBusy]
  split
  · rfl
  · split <;> rfl

theorem insert_entries :
    (store.insert e).entries = if store.containsKey e.seq then store.entries else store.entries ++ [e] := by
  rw [insert]
  split
  · rfl
  · rw [trackBusy_entries]

theorem mem_insert {d : Event EventPayload} (h : d ∈ (store.insert e).entries) : d ∈ store.entries ∨ d = e := by
  rw [insert_entries] at h
  split at h
  · exact .inl h
  · simpa using h

theorem mem_insertAll {batch : List (Event EventPayload)} {d : Event EventPayload}
    (h : d ∈ (store.insertAll batch).entries) : d ∈ store.entries ∨ d ∈ batch := by
  induction batch generalizing store with
  | nil => exact .inl h
  | cons e batch ih =>
      obtain h | h := @ih (store.insert e) h
      · obtain h | rfl := mem_insert h
        · exact .inl h
        · exact .inr (by simp)
      · exact .inr (by simp [h])

theorem has_insert : (store.insert e).Has seq ↔ store.Has seq ∨ seq = e.seq := by
  rw [has_iff, has_iff, insert_entries]
  split
  · next h =>
      constructor
      · exact .inl
      · rintro (h' | rfl)
        · exact h'
        · exact has_iff.mp h
  · simp [or_and_right, exists_or, eq_comm]

theorem has_insertAll {batch : List (Event EventPayload)} :
    (store.insertAll batch).Has seq ↔ store.Has seq ∨ ∃ e ∈ batch, e.seq = seq := by
  induction batch generalizing store with
  | nil => simp [insertAll]
  | cons e batch ih =>
      have hstep : store.insertAll (e :: batch) = (store.insert e).insertAll batch := rfl
      rw [hstep, ih, has_insert, or_assoc]
      simp [eq_comm]

theorem Has.lt (h : store.Has seq) : seq < store.nextSeq := by
  rw [has_iff] at h
  obtain ⟨e, he, rfl⟩ := h
  rw [nextSeq]
  generalize store.entries = entries at he
  induction entries with
  | nil => cases he
  | cons d entries ih =>
      rw [List.foldr_cons]
      obtain rfl | he := List.mem_cons.mp he
      · omega
      · have := ih he
        omega

theorem has_top (h : seq < store.nextSeq) : ∃ top, seq ≤ top ∧ store.Has top := by
  rw [nextSeq] at h
  suffices ∃ e ∈ store.entries, seq ≤ e.seq by
    obtain ⟨e, he, hle⟩ := this
    exact ⟨e.seq, hle, has_iff.mpr ⟨e, he, rfl⟩⟩
  generalize store.entries = entries at h
  induction entries with
  | nil => cases h
  | cons d entries ih =>
      rw [List.foldr_cons] at h
      by_cases hd : seq ≤ d.seq
      · exact ⟨d, by simp, hd⟩
      · obtain ⟨e, he, hle⟩ := ih (by omega)
        exact ⟨e, by simp [he], hle⟩

theorem gapless_empty : empty.Gapless := by
  intro seq h
  cases h

theorem gapless_of_initial {n : Nat} (hlow : ∀ seq, seq < n → store.Has seq) (hhigh : ∀ seq, store.Has seq → seq < n) :
    store.Gapless := by
  intro seq h
  obtain ⟨top, hle, htop⟩ := has_top h
  exact hlow seq (Nat.lt_of_le_of_lt hle (hhigh top htop))

theorem nextSeq_mono {store' : EventStore} (h : ∀ seq, store.Has seq → store'.Has seq) :
    store.nextSeq ≤ store'.nextSeq := by
  by_contra hlt
  obtain ⟨top, hle, htop⟩ := has_top (Nat.lt_of_not_le hlt)
  exact absurd (h top htop).lt (by omega)

end EventStore

/-- A channel of the app. Until the server accepts the client there is no `link`, and
`sent` are the requests it may still read. `welcomed` tells that `AuthOk` was handled and
`replied` that a backlog reply was. `ahead` is what the store held when a live event
first left a hole before any reply. -/
structure Channel where
  link : Option (Link EventPayload)
  sent : List Nat
  welcomed : Bool
  replied : Bool
  ahead : Option Nat

def Channel.closed (channel : Channel) : Prop := channel.replied = true ∨ channel.ahead = none

/-- A connection of the app to one harness. `writing` counts the calls of `_onAuthOk` that
are writing the pairing key. -/
structure HarnessConnection where
  history : History EventPayload
  store : EventStore
  channel : Option Channel
  writing : Nat

namespace HarnessConnection

variable (s : HarnessConnection)

/-- `authOk` handles the `AuthOk` frame, with the key to write or without, `written` is
the end of a write, and `frame` handles the next frame. -/
inductive Act
  | emit (time : Timestamp) (payload : EventPayload)
  | connect
  | accept
  | push
  | reply
  | authOk (writesKey : Bool)
  | written
  | frame
  | lose

def start : HarnessConnection := ⟨.empty, .empty, none, 0⟩

/-- `_send` of a `RequestEvents` on whatever channel there is. -/
def requestEvents : HarnessConnection :=
  match s.channel with
  | none => s
  | some channel =>
    match channel.link with
    | none => { s with channel := some { channel with sent := channel.sent ++ [s.store.nextSeq] } }
    | some link => { s with channel := some { channel with link := some (link.request s.store.nextSeq) } }

def noteAhead (channel : Channel) (store : EventStore) (event : Event EventPayload) : Option Nat :=
  if !channel.replied && channel.ahead.isNone && decide (store.nextSeq < event.seq) then some store.nextSeq
  else channel.ahead

def handleFrame (channel : Channel) (link : Link EventPayload) : ServerFrame EventPayload → HarnessConnection
  | .event event =>
    { s with
      store := s.store.insert event
      channel := some { channel with link := some link, ahead := noteAhead channel s.store event } }
  | .events events =>
    { s with
      store := s.store.insertAll events
      channel := some { channel with link := some link, replied := true } }

def next (s : HarnessConnection) : Act → Option HarnessConnection
  | .emit time payload => some { s with history := s.history.emit time payload }
  | .connect =>
    match s.channel with
    | none => some { s with channel := some ⟨none, [], false, false, none⟩ }
    | some _ => none
  | .accept =>
    s.channel.bind fun channel =>
      match channel.link with
      | none =>
        some { s with
          channel := some { channel with
            link := some { Link.accept s.history with requests := channel.sent }
            sent := [] } }
      | some _ => none
  | .push =>
    s.channel.bind fun channel => channel.link.bind fun link => (link.push s.history).map fun link =>
      { s with channel := some { channel with link := some link } }
  | .reply =>
    s.channel.bind fun channel => channel.link.bind fun link => (link.reply s.history).map fun link =>
      { s with channel := some { channel with link := some link } }
  | .authOk writesKey =>
    s.channel.bind fun channel =>
      if channel.link.isSome && !channel.welcomed then
        let s := { s with channel := some { channel with welcomed := true } }
        some (if writesKey then { s with writing := s.writing + 1 } else s.requestEvents)
      else none
  | .written =>
    if 0 < s.writing then some { s with writing := s.writing - 1 }.requestEvents else none
  | .frame =>
    s.channel.bind fun channel => channel.link.bind fun link =>
      match link.wire with
      | [] => none
      | frame :: wire =>
        if channel.welcomed then some (s.handleFrame channel { link with wire := wire } frame) else none
  | .lose =>
    match s.channel with
    | none => none
    | some _ => some { s with channel := none }

def machine : Machine HarnessConnection Act := ⟨fun s => s = start, next⟩

/-- The resume point is not read, and the connection not lost, while live events stand
past a hole that the backlog reply has not closed. -/
def holesClose (s : HarnessConnection) : Act → Prop
  | .authOk false | .written | .lose => ∀ channel, s.channel = some channel → channel.closed
  | _ => True

end HarnessConnection

variable {history : History EventPayload} {S T : Nat → Prop} {a b b' n : Nat}
  {wire : List (ServerFrame EventPayload)} {e : Event EventPayload} {es : List (Event EventPayload)}

/-- The numbers `S` with one more, and with those of a batch. -/
def adding (S : Nat → Prop) (e : Event EventPayload) : Nat → Prop := fun seq => S seq ∨ seq = e.seq

def addingAll (S : Nat → Prop) (es : List (Event EventPayload)) : Nat → Prop :=
  fun seq => S seq ∨ ∃ e ∈ es, e.seq = seq

/-- Live events come after all live events before them: with what is in `S` and on the
wire before it, an event misses nothing from `a` on; and nothing is missing below `n`
at the end. -/
def LiveInOrder (a n : Nat) : (Nat → Prop) → List (ServerFrame EventPayload) → Prop
  | S, [] => ∀ seq, a ≤ seq → seq < n → S seq
  | S, .event e :: wire => (∀ seq, a ≤ seq → seq < e.seq → S seq) ∧ LiveInOrder a n (adding S e) wire
  | S, .events es :: wire => LiveInOrder a n (addingAll S es) wire

/-- A backlog reply has the events from some number up to `b` on, to beyond all that came
before it. -/
def Closing (S : Nat → Prop) (a b : Nat) (es : List (Event EventPayload)) : Prop :=
  ∃ fromSeq len, fromSeq ≤ b ∧ a ≤ len ∧ (∀ seq, (∃ e ∈ es, e.seq = seq) ↔ fromSeq ≤ seq ∧ seq < len) ∧
    ∀ seq, S seq → seq < len

def RepliesClose (a b : Nat) : (Nat → Prop) → List (ServerFrame EventPayload) → Prop
  | _, [] => True
  | S, .event e :: wire => RepliesClose a b (adding S e) wire
  | S, .events es :: wire => Closing S a b es ∧ RepliesClose a b (addingAll S es) wire

theorem LiveInOrder.mono (h : LiveInOrder a n S wire) (hST : ∀ seq, S seq → T seq) : LiveInOrder a n T wire := by
  induction wire generalizing S T with
  | nil => exact fun seq hle hlt => hST seq (h seq hle hlt)
  | cons frame wire ih =>
      cases frame with
      | event e => exact ⟨fun seq hle hlt => hST seq (h.1 seq hle hlt), ih h.2 fun seq => Or.imp_left (hST seq)⟩
      | events es => exact ih h fun seq => Or.imp_left (hST seq)

theorem LiveInOrder.push (h : LiveInOrder a n S wire) (hseq : e.seq = n) :
    LiveInOrder a (n + 1) S (wire ++ [.event e]) := by
  induction wire generalizing S with
  | nil =>
      refine ⟨hseq ▸ h, ?_⟩
      intro seq hle hlt
      by_cases heq : seq = n
      · exact .inr (heq.trans hseq.symm)
      · exact .inl (h seq hle (by omega))
  | cons frame wire ih =>
      cases frame with
      | event d => exact ⟨h.1, ih h.2⟩
      | events es => exact ih h

theorem LiveInOrder.reply (h : LiveInOrder a n S wire) (es : List (Event EventPayload)) :
    LiveInOrder a n S (wire ++ [.events es]) := by
  induction wire generalizing S with
  | nil => exact fun seq hle hlt => .inl (h seq hle hlt)
  | cons frame wire ih =>
      cases frame with
      | event d => exact ⟨h.1, ih h.2⟩
      | events es => exact ih h

theorem RepliesClose.mono (h : RepliesClose a b S wire) (hb : b ≤ b') (hST : ∀ seq, S seq ↔ T seq) :
    RepliesClose a b' T wire := by
  induction wire generalizing S T with
  | nil => trivial
  | cons frame wire ih =>
      cases frame with
      | event e => exact ih h fun seq => or_congr_left (hST seq)
      | events es =>
          obtain ⟨⟨fromSeq, len, hfrom, hlen, hes, hS⟩, hrest⟩ := h
          exact ⟨⟨fromSeq, len, Nat.le_trans hfrom hb, hlen, hes, fun seq hT => hS seq ((hST seq).mpr hT)⟩,
            ih hrest fun seq => or_congr_left (hST seq)⟩

theorem RepliesClose.push (h : RepliesClose a b S wire) (e : Event EventPayload) :
    RepliesClose a b S (wire ++ [.event e]) := by
  induction wire generalizing S with
  | nil => trivial
  | cons frame wire ih =>
      cases frame with
      | event d => exact ih h
      | events es => exact ⟨h.1, ih h.2⟩

theorem RepliesClose.reply {fromSeq : Nat} (h : RepliesClose a b S wire) (hfrom : fromSeq ≤ b)
    (ha : a ≤ history.events.length) (hS : ∀ seq, S seq → seq < history.events.length)
    (hwire : ∀ frame ∈ wire, ∀ e ∈ frame.all, history.Has e) :
    RepliesClose a b S (wire ++ [.events (history.since fromSeq)]) := by
  induction wire generalizing S with
  | nil =>
      refine ⟨⟨fromSeq, history.events.length, hfrom, ha, ?_, hS⟩, trivial⟩
      intro seq
      constructor
      · rintro ⟨e, he, rfl⟩
        have hmem := List.mem_filter.mp he
        exact ⟨of_decide_eq_true hmem.2, (History.has_of_mem hmem.1).lt⟩
      · rintro ⟨hle, hlt⟩
        have hget := List.getElem?_eq_getElem hlt
        have hseq := history.seqs seq _ hget
        exact ⟨_, List.mem_filter.mpr ⟨List.getElem_mem hlt, by simpa [hseq] using hle⟩, hseq⟩
  | cons frame wire ih =>
      have hframe := hwire frame (by simp)
      have hrest : ∀ frame ∈ wire, ∀ e ∈ frame.all, history.Has e := fun f hf => hwire f (by simp [hf])
      cases frame with
      | event d =>
          refine ih h ?_ hrest
          rintro seq (hs | rfl)
          · exact hS seq hs
          · exact (hframe d (by simp [ServerFrame.all])).lt
      | events es =>
          refine ⟨h.1, ih h.2 ?_ hrest⟩
          rintro seq (hs | ⟨d, hd, rfl⟩)
          · exact hS seq hs
          · exact (hframe d hd).lt

end Silo.Clients
