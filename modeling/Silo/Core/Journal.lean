import Silo.Core.EventBus
import Silo.Lib.Machine
import Silo.Lib.Text

namespace Silo.Core

open Silo.Lib

inductive JournalEntry (α β : Type)
  | event (event : Event α)
  | other (entry : β)
  deriving DecidableEq

def JournalEntry.asEvent {α β : Type} : JournalEntry α β → Option (Event α)
  | event e => some e
  | other _ => none

structure JournalRecord (α β : Type) where
  seq : Nat
  time : Timestamp
  entry : JournalEntry α β
  deriving DecidableEq

/-- `serde_json` on records. -/
structure Codec (ρ : Type) where
  toText : ρ → List Char
  ofText : List Char → Option ρ

/-- What `serde_json` writes for a structure: one line that ends with a brace. -/
structure Codec.Lines {ρ : Type} (codec : Codec ρ) : Prop where
  line : ∀ record, '\n' ∉ codec.toText record
  closed : ∀ record, (codec.toText record).getLast? = some '}'

/-- The record is what its own text is read as. `serde_json` does not promise it of every one: a
number of binary digits can come back as its neighbour, and deep nesting is not read at all. -/
def Codec.ReadsBack {ρ : Type} (codec : Codec ρ) (record : ρ) : Prop := codec.ofText (codec.toText record) = some record

/-- `BufRead::lines`: a line ends with `\n` or `\r\n`, or with the file. -/
def bufLines : List Char → List (List Char)
  | [] => []
  | c :: rest =>
    if c = '\n' then [] :: bufLines rest
    else
      match bufLines rest with
      | [] => [[c]]
      | line :: lines => if c = '\r' ∧ rest.head? = some '\n' then line :: lines else (c :: line) :: lines

section Read

variable {ρ : Type} (codec : Codec ρ)

def readLines : List (List Char) → Option (List ρ)
  | [] => some []
  | line :: lines =>
    if line.all isWhitespace then readLines lines
    else (codec.ofText line).bind fun record => (readLines lines).map fun records => record :: records

/-- `none` is a line that is no record. -/
def readJournal (file : List Char) : Option (List ρ) := readLines codec (bufLines file)

def writeLine (record : ρ) : List Char := codec.toText record ++ ['\n']

variable {codec}

theorem bufLines_line {line rest : List Char} (h : '\n' ∉ line) (hlast : line.getLast? ≠ some '\r') :
    bufLines (line ++ '\n' :: rest) = line :: bufLines rest := by
  induction line with
  | nil => simp [bufLines]
  | cons c line ih =>
      rw [List.mem_cons, not_or] at h
      have hrest : bufLines (line ++ '\n' :: rest) = line :: bufLines rest := by
        cases line with
        | nil => exact ih h.2 (by simp)
        | cons d line => exact ih h.2 (by simpa using hlast)
      have hcr : ¬ (c = '\r' ∧ (line ++ '\n' :: rest).head? = some '\n') := by
        rintro ⟨rfl, hhead⟩
        cases line with
        | nil => exact hlast rfl
        | cons d line =>
            rw [List.cons_append, List.head?_cons, Option.some.injEq] at hhead
            exact h.2 (by simp [hhead])
      rw [List.cons_append, bufLines, if_neg (Ne.symm h.1), hrest]
      exact if_neg hcr

theorem readJournal_line (h : codec.Lines) (record : ρ) (rest : List Char) :
    readJournal codec (writeLine codec record ++ rest) =
      (codec.ofText (codec.toText record)).bind fun first =>
        (readJournal codec rest).map fun records => first :: records := by
  have hblank : (codec.toText record).all isWhitespace = false := by
    rw [List.all_eq_false]
    exact ⟨'}', List.mem_of_getLast? (h.closed record), by decide⟩
  have hlines := @bufLines_line _ rest (h.line record) (by rw [h.closed]; decide)
  rw [readJournal, writeLine, List.append_assoc, List.singleton_append, hlines, readLines, hblank]
  rfl

theorem readJournal_flatMap_iff (h : codec.Lines) (records : List ρ) :
    readJournal codec (records.flatMap (writeLine codec)) = some records ↔
      ∀ record ∈ records, codec.ReadsBack record := by
  induction records with
  | nil =>
      simp only [List.not_mem_nil, false_imp_iff, implies_true, iff_true]
      rfl
  | cons record records ih =>
      rw [List.flatMap_cons, readJournal_line h, List.forall_mem_cons, ← ih, Codec.ReadsBack]
      simp only [Option.bind_eq_some_iff, Option.map_eq_some_iff, List.cons.injEq]
      constructor
      · rintro ⟨first, hfirst, others, hothers, rfl, rfl⟩
        exact ⟨hfirst, hothers⟩
      · rintro ⟨hfirst, hothers⟩
        exact ⟨record, hfirst, records, hothers, rfl, rfl⟩

end Read

variable {α β : Type}

/-- A journal path, the session that writes to it and that session's event bus.
`appended` are all records ever appended, each with the number of its session. -/
structure Journaling (α β : Type) where
  file : List Char
  nextSeq : Nat
  bus : EventBus α
  session : Nat
  appended : List (Nat × JournalRecord α β)

namespace Journaling

variable (codec : Codec (JournalRecord α β)) (s : Journaling α β)

/-- `openFile` is `JournalWriter::to_file`; then `JournalHandle::append` and the three
steps of `EventBus::emit`, on any task of the session. -/
inductive Act (α β : Type)
  | openFile
  | append (time : Timestamp) (entry : β)
  | emitAppend (time : Timestamp) (payload : α)
  | emitJournal (seq : Nat) (time : Timestamp)
  | emitBroadcast (seq : Nat)

def append (time : Timestamp) (entry : JournalEntry α β) : Journaling α β :=
  { s with
    file := s.file ++ writeLine codec ⟨s.nextSeq, time, entry⟩
    nextSeq := s.nextSeq + 1
    appended := s.appended ++ [(s.session, ⟨s.nextSeq, time, entry⟩)] }

def openFile : Journaling α β := { s with nextSeq := 0, bus := .empty, session := s.session + 1 }

def next (s : Journaling α β) : Act α β → Option (Journaling α β)
  | .openFile => some s.openFile
  | .append time entry => some (s.append codec time (.other entry))
  | .emitAppend time payload => some { s with bus := s.bus.emitAppend time payload }
  | .emitJournal seq time =>
    (s.bus.emits.find? fun e => e.event.seq = seq && !e.journaled).bind fun e =>
      (s.bus.emitJournal seq).map fun bus => { s.append codec time (.event e.event) with bus := bus }
  | .emitBroadcast seq => (s.bus.emitBroadcast seq).map fun bus => { s with bus := bus }

def start : Journaling α β := ⟨[], 0, .empty, 0, []⟩

def machine : Machine (Journaling α β) (Act α β) := ⟨fun s => s = start, next codec⟩

def records : List (JournalRecord α β) := s.appended.map Prod.snd

/-- The event records of a session, in the order of the file. -/
def eventsOf (session : Nat) : List (Event α) :=
  (s.appended.filter fun r => r.1 = session).filterMap fun r => r.2.entry.asEvent

end Journaling

end Silo.Core

namespace Silo.Core.Journaling

open Silo.Lib

variable {α β : Type} {codec : Codec (JournalRecord α β)} {s t : Journaling α β}

/-- A session opens the path before anything was appended to it. -/
def freshPath (s : Journaling α β) : Act α β → Prop
  | .openFile => s.appended = []
  | _ => True

/-- An event is journaled when no earlier one is still waiting to be. -/
def journalsInOrder (s : Journaling α β) : Act α β → Prop
  | .emitJournal seq _ => ∀ e ∈ s.bus.emits, e.journaled = false → seq ≤ e.event.seq
  | _ => True

def readsBack (codec : Codec (JournalRecord α β)) (s : Journaling α β) : Act α β → Prop
  | .append time entry => codec.ReadsBack ⟨s.nextSeq, time, .other entry⟩
  | .emitJournal seq time => ∀ e ∈ s.bus.emits, e.event.seq = seq → codec.ReadsBack ⟨s.nextSeq, time, .event e.event⟩
  | _ => True

/-- The three of them together. -/
structure Orderly (codec : Codec (JournalRecord α β)) (s : Journaling α β) (act : Act α β) : Prop where
  fresh : s.freshPath act
  order : s.journalsInOrder act
  back : s.readsBack codec act

/-- The records come back, numbered by their positions, with the events of each session
in their order. -/
structure OrderedLog (codec : Codec (JournalRecord α β)) (s : Journaling α β) : Prop where
  read : readJournal codec s.file = some s.records
  seqs : ∀ (i : Nat) (record : JournalRecord α β), s.records[i]? = some record → record.seq = i
  events : ∀ session, (s.eventsOf session).Pairwise fun e e' => e.seq < e'.seq

theorem records_append (time : Timestamp) (entry : JournalEntry α β) :
    (s.append codec time entry).records = s.records ++ [⟨s.nextSeq, time, entry⟩] := by
  simp [records, append]

inductive Writes (codec : Codec (JournalRecord α β)) (s : Journaling α β) : Act α β → Journaling α β → Prop
  | openFile : Writes codec s .openFile s.openFile
  | append (time : Timestamp) (entry : β) : Writes codec s (.append time entry) (s.append codec time (.other entry))
  | event (seq : Nat) (time : Timestamp) (e : Emit α) (bus : EventBus α) (hmem : e ∈ s.bus.emits)
      (hseq : e.event.seq = seq) (hj : e.journaled = false) (hbus : bus.history = s.bus.history)
      (hemits : bus.emits = s.bus.emits.map fun d =>
        if d.event.seq = seq then { d with journaled := true } else d) :
      Writes codec s (.emitJournal seq time) { s.append codec time (.event e.event) with bus := bus }
  | number (time : Timestamp) (payload : α) :
      Writes codec s (.emitAppend time payload) { s with bus := s.bus.emitAppend time payload }
  | send (seq : Nat) (bus : EventBus α) (hbus : bus.history = s.bus.history)
      (hemits : ∀ e ∈ bus.emits, e ∈ s.bus.emits) : Writes codec s (.emitBroadcast seq) { s with bus := bus }

theorem writes_of_next {act : Act α β} (hn : s.next codec act = some t) : Writes codec s act t := by
  cases act with
  | openFile =>
      cases hn
      exact .openFile
  | append time entry =>
      cases hn
      exact .append time entry
  | emitAppend time payload =>
      cases hn
      exact .number time payload
  | emitJournal seq time =>
      obtain ⟨e, he, hn⟩ := Option.bind_eq_some_iff.mp hn
      obtain ⟨bus, hbus, rfl⟩ := Option.map_eq_some_iff.mp hn
      obtain ⟨-, -, rfl⟩ := Option.map_eq_some_iff.mp hbus
      have hp := List.find?_some he
      simp only [Bool.and_eq_true, decide_eq_true_eq, Bool.not_eq_true'] at hp
      exact .event seq time e _ (List.mem_of_find?_eq_some he) hp.1 hp.2 rfl rfl
  | emitBroadcast seq =>
      obtain ⟨bus, hbus, rfl⟩ := Option.map_eq_some_iff.mp hn
      obtain ⟨-, -, rfl⟩ := Option.map_eq_some_iff.mp hbus
      exact .send seq _ rfl fun e he => (List.mem_filter.mp he).1

theorem file_next {act : Act α β} (h : s.file = s.records.flatMap (writeLine codec))
    (hn : s.next codec act = some t) : t.file = t.records.flatMap (writeLine codec) := by
  cases writes_of_next hn with
  | openFile => exact h
  | append time entry =>
      rw [records_append, List.flatMap_append, ← h]
      simp [append]
  | event seq time e bus =>
      change s.file ++ _ = (s.append codec time (.event e.event)).records.flatMap (writeLine codec)
      rw [records_append, List.flatMap_append, ← h]
      simp
  | number => exact h
  | send => exact h

theorem file_of_reachable (hr : (machine codec).Reachable s) :
    s.file = s.records.flatMap (writeLine codec) := by
  apply hr.invariant (I := fun s => s.file = s.records.flatMap (writeLine codec))
  · rintro _ rfl
    rfl
  · intro s u l h _ hn
    exact file_next h hn

structure Numbered (s : Journaling α β) : Prop where
  next : s.nextSeq = s.records.length
  seqs : ∀ (i : Nat) (record : JournalRecord α β), s.records[i]? = some record → record.seq = i

theorem Numbered.append (h : s.Numbered) (time : Timestamp) (entry : JournalEntry α β) :
    (s.append codec time entry).Numbered := by
  constructor
  · rw [records_append]
    simp [Journaling.append, h.next]
  · intro i record hi
    rw [records_append] at hi
    obtain hi | ⟨rfl, rfl⟩ := getElem?_snoc_cases hi
    · exact h.seqs i record hi
    · exact h.next

theorem Numbered.next_step {act : Act α β} (h : s.Numbered) (hfresh : s.freshPath act)
    (hn : s.next codec act = some t) : t.Numbered := by
  cases writes_of_next hn with
  | openFile =>
      have hnil : s.records = [] := by rw [records, show s.appended = [] from hfresh]; rfl
      exact ⟨by change 0 = s.records.length; rw [hnil]; rfl, h.seqs⟩
  | append time entry => exact h.append time _
  | event seq time e bus =>
      obtain ⟨hnext, hseqs⟩ : (s.append codec time (.event e.event)).Numbered := h.append time _
      exact ⟨hnext, hseqs⟩
  | number => exact ⟨h.next, h.seqs⟩
  | send => exact ⟨h.next, h.seqs⟩

theorem eventsOf_append (time : Timestamp) (entry : JournalEntry α β) (session : Nat) :
    (s.append codec time entry).eventsOf session =
      s.eventsOf session ++ if session = s.session then entry.asEvent.toList else [] := by
  simp only [eventsOf, append, List.filter_append, List.filterMap_append, List.append_cancel_left_eq]
  by_cases h : session = s.session
  · cases entry <;> simp [h, JournalEntry.asEvent]
  · simp [h, Ne.symm h]

/-- The journaled events of the running session come before those that wait. -/
structure InOrder (s : Journaling α β) : Prop where
  sessions : ∀ r ∈ s.appended, r.1 ≤ s.session
  order : ∀ session, (s.eventsOf session).Pairwise fun e e' => e.seq < e'.seq
  journaled : ∀ e ∈ s.eventsOf s.session, e.seq < s.bus.nextSeq
  numbered : ∀ e ∈ s.bus.emits, e.event.seq < s.bus.nextSeq
  waiting : ∀ e ∈ s.bus.emits, e.journaled = false → ∀ d ∈ s.eventsOf s.session, d.seq < e.event.seq

theorem eventsOf_of_gt {session : Nat} (h : ∀ r ∈ s.appended, r.1 < session) : s.eventsOf session = [] := by
  have hnone : s.appended.filter (fun r => r.1 = session) = [] := by
    rw [List.filter_eq_nil_iff]
    intro r hr
    have := h r hr
    simp only [decide_eq_true_eq]
    omega
  rw [eventsOf, hnone]
  rfl

theorem InOrder.openFile (h : s.InOrder) : s.openFile.InOrder := by
  have hnone : s.openFile.eventsOf s.openFile.session = [] := by
    apply eventsOf_of_gt
    intro r hr
    exact Nat.lt_succ_of_le (h.sessions r hr)
  constructor
  · intro r hr
    exact Nat.le_succ_of_le (h.sessions r hr)
  · exact h.order
  · rw [hnone]
    simp
  · simp [Journaling.openFile, EventBus.empty]
  · simp [Journaling.openFile, EventBus.empty]

theorem InOrder.append_other (h : s.InOrder) (time : Timestamp) (entry : β) :
    (s.append codec time (.other entry)).InOrder := by
  have hevents (session : Nat) :
      (s.append codec time (.other entry)).eventsOf session = s.eventsOf session := by
    rw [eventsOf_append]
    simp [JournalEntry.asEvent]
  constructor
  · intro r hr
    obtain hr | hr := List.mem_append.mp hr
    · exact h.sessions r hr
    · rw [List.mem_singleton.mp hr]
      exact Nat.le_refl _
  · intro session
    rw [hevents]
    exact h.order session
  · rw [hevents]
    exact h.journaled
  · exact h.numbered
  · rw [hevents]
    exact h.waiting

theorem InOrder.append_event (h : s.InOrder) {seq : Nat} {e : Emit α} {bus : EventBus α} (time : Timestamp)
    (hmem : e ∈ s.bus.emits) (hseq : e.event.seq = seq) (hj : e.journaled = false)
    (hbus : bus.history = s.bus.history)
    (hemits : bus.emits = s.bus.emits.map fun d => if d.event.seq = seq then { d with journaled := true } else d)
    (hfirst : ∀ d ∈ s.bus.emits, d.journaled = false → seq ≤ d.event.seq) :
    { s.append codec time (.event e.event) with bus := bus }.InOrder := by
  have hevents (session : Nat) :
      ({ s.append codec time (.event e.event) with bus := bus } : Journaling α β).eventsOf session =
        s.eventsOf session ++ if session = s.session then [e.event] else [] := by
    exact @eventsOf_append α β codec s time (.event e.event) session
  have hcurrent : ({ s.append codec time (.event e.event) with bus := bus } : Journaling α β).eventsOf s.session =
      s.eventsOf s.session ++ [e.event] := by
    rw [hevents, if_pos rfl]
  have hnext : bus.nextSeq = s.bus.nextSeq := by rw [EventBus.nextSeq, hbus]; rfl
  constructor
  · intro r hr
    obtain hr | hr := List.mem_append.mp hr
    · exact h.sessions r hr
    · rw [List.mem_singleton.mp hr]
      exact Nat.le_refl _
  · intro session
    rw [hevents]
    split
    · next heq =>
        apply List.pairwise_append.mpr
        refine ⟨h.order session, List.pairwise_singleton _ _, ?_⟩
        intro d hd e' he'
        rw [List.mem_singleton.mp he']
        rw [heq] at hd
        exact h.waiting e hmem hj d hd
    · rw [List.append_nil]
      exact h.order session
  · change ∀ d ∈ Journaling.eventsOf _ s.session, d.seq < bus.nextSeq
    rw [hcurrent, hnext]
    intro d hd
    obtain hd | hd := List.mem_append.mp hd
    · exact h.journaled d hd
    · rw [List.mem_singleton.mp hd]
      exact h.numbered e hmem
  · change ∀ d ∈ bus.emits, d.event.seq < bus.nextSeq
    rw [hemits, hnext]
    intro d hd
    obtain ⟨d', hd', rfl⟩ := List.mem_map.mp hd
    split <;> exact h.numbered d' hd'
  · change ∀ d ∈ bus.emits, d.journaled = false → ∀ d' ∈ Journaling.eventsOf _ s.session, d'.seq < d.event.seq
    rw [hemits, hcurrent]
    intro d hd hwait d' hd'
    obtain ⟨old, hold, rfl⟩ := List.mem_map.mp hd
    split at hwait
    · cases hwait
    · next hne =>
        rw [if_neg hne]
        obtain hd' | hd' := List.mem_append.mp hd'
        · exact h.waiting old hold hwait d' hd'
        · rw [List.mem_singleton.mp hd']
          have := hfirst old hold hwait
          omega

theorem InOrder.number (h : s.InOrder) (time : Timestamp) (payload : α) :
    { s with bus := s.bus.emitAppend time payload }.InOrder := by
  have hnext : (s.bus.emitAppend time payload).nextSeq = s.bus.nextSeq + 1 := by
    simp [EventBus.nextSeq, EventBus.emitAppend]
  refine ⟨h.sessions, h.order, ?_, ?_, ?_⟩
  · intro e he
    rw [hnext]
    exact Nat.lt_succ_of_lt (h.journaled e he)
  · intro e he
    rw [hnext]
    obtain he | he := List.mem_append.mp he
    · exact Nat.lt_succ_of_lt (h.numbered e he)
    · rw [List.mem_singleton.mp he]
      exact Nat.lt_succ_self _
  · intro e he hwait d hd
    obtain he | he := List.mem_append.mp he
    · exact h.waiting e he hwait d hd
    · rw [List.mem_singleton.mp he]
      exact h.journaled d hd

theorem InOrder.next_step {act : Act α β} (h : s.InOrder) (hord : s.journalsInOrder act)
    (hn : s.next codec act = some t) : t.InOrder := by
  cases writes_of_next hn with
  | openFile => exact h.openFile
  | append time entry => exact h.append_other time entry
  | event seq time e bus hmem hseq hj hbus hemits => exact h.append_event time hmem hseq hj hbus hemits hord
  | number time payload => exact h.number time payload
  | send seq bus hbus hemits =>
      have hnext : bus.nextSeq = s.bus.nextSeq := by rw [EventBus.nextSeq, hbus]; rfl
      refine ⟨h.sessions, h.order, ?_, ?_, ?_⟩
      · intro e he
        rw [hnext]
        exact h.journaled e he
      · intro e he
        rw [hnext]
        exact h.numbered e (hemits e he)
      · intro e he
        exact h.waiting e (hemits e he)

theorem numbered_start : (start : Journaling α β).Numbered := by
  constructor <;> simp [start, records]

theorem inOrder_start : (start : Journaling α β).InOrder := by
  constructor <;> simp [start, eventsOf, EventBus.empty]

theorem numbered_of_reachable (hr : (machine codec).ReachableUnder freshPath s) : s.Numbered := by
  apply hr.invariant
  · rintro _ rfl
    exact numbered_start
  · intro s u l h hfresh hn
    exact h.next_step hfresh hn

theorem inOrder_of_reachable (hr : (machine codec).ReachableUnder journalsInOrder s) : s.InOrder := by
  apply hr.invariant
  · rintro _ rfl
    exact inOrder_start
  · intro s u l h hord hn
    exact h.next_step hord hn

theorem readsBack_next {act : Act α β} (h : ∀ record ∈ s.records, codec.ReadsBack record)
    (hback : s.readsBack codec act) (hn : s.next codec act = some t) :
    ∀ record ∈ t.records, codec.ReadsBack record := by
  have happend {time : Timestamp} {entry : JournalEntry α β} (hnew : codec.ReadsBack ⟨s.nextSeq, time, entry⟩) :
      ∀ record ∈ (s.append codec time entry).records, codec.ReadsBack record := by
    intro record hmem
    rw [records_append] at hmem
    rcases List.mem_append.mp hmem with hmem | hmem
    · exact h record hmem
    · rwa [List.mem_singleton.mp hmem]
  cases writes_of_next hn with
  | openFile => exact h
  | append time entry => exact happend hback
  | event seq time e bus hmem hseq => exact happend (hback e hmem hseq)
  | number => exact h
  | send => exact h

theorem readsBack_of_reachable (hr : (machine codec).ReachableUnder (readsBack codec) s) :
    ∀ record ∈ s.records, codec.ReadsBack record := by
  apply hr.invariant (I := fun s => ∀ record ∈ s.records, codec.ReadsBack record)
  · rintro _ rfl
    simp [start, records]
  · intro s u l h hback hn
    exact readsBack_next h hback hn

/-- The records come back if each is read back by itself; they are numbered by position when
no session opens a path that already has records, and the events of a session are in order
when each is journaled before the later ones. -/
theorem journal_ordered_log (codec : Codec (JournalRecord α β)) (hlines : codec.Lines) :
    (∀ s, (machine codec).Reachable s →
      (readJournal codec s.file = some s.records ↔ ∀ record ∈ s.records, codec.ReadsBack record)) ∧
    (∀ s, (machine codec).ReachableUnder freshPath s →
      ∀ (i : Nat) (record : JournalRecord α β), s.records[i]? = some record → record.seq = i) ∧
    (∀ s, (machine codec).ReachableUnder journalsInOrder s →
      ∀ session, (s.eventsOf session).Pairwise fun e e' => e.seq < e'.seq) ∧
    ∀ s, (machine codec).ReachableUnder (Orderly codec) s → OrderedLog codec s := by
  have hread (s : Journaling α β) (hr : (machine codec).Reachable s) :
      readJournal codec s.file = some s.records ↔ ∀ record ∈ s.records, codec.ReadsBack record := by
    rw [file_of_reachable hr]
    exact readJournal_flatMap_iff hlines s.records
  refine ⟨hread, fun s hr => (numbered_of_reachable hr).seqs, fun s hr => (inOrder_of_reachable hr).order, ?_⟩
  intro s hr
  have hback := readsBack_of_reachable (hr.mono fun _ _ h => h.back)
  exact ⟨(hread s hr.reachable).mpr hback, (numbered_of_reachable (hr.mono fun _ _ h => h.fresh)).seqs,
    (inOrder_of_reachable (hr.mono fun _ _ h => h.order)).order⟩

def escape (c : Char) : List Char :=
  if c = '\n' then ['\\', 'n'] else if c = '"' ∨ c = '\\' then ['\\', c] else [c]

def quoted (text : String) : List Char := text.toList.flatMap escape ++ ['"']

def seqKey : List Char := "\x7b\"seq\":".toList

def timeKey : List Char := ",\"time\":\x7b\"logical\":".toList

def entryKey : List Char := "\x7d,".toList

def eventKey : List Char := "\"entry\":\"event\",\"event\":\x7b\"seq\":".toList

def textKey : List Char := "\x7d,\"text\":\"".toList

def messageKey : List Char := "\"entry\":\"lifecycle\",\"message\":\"".toList

def plainEntry : JournalEntry String String → List Char
  | .event e =>
    eventKey ++ (Nat.toDigits 10 e.seq ++ (timeKey ++ (Nat.toDigits 10 e.time.logical ++ (textKey ++
      (quoted e.payload ++ ['}'])))))
  | .other message => messageKey ++ quoted message

def plainText (r : JournalRecord String String) : List Char :=
  seqKey ++ (Nat.toDigits 10 r.seq ++ (timeKey ++ (Nat.toDigits 10 r.time.logical ++ (entryKey ++ plainEntry r.entry)))) ++
    ['}']

def readNat (text : List Char) : Option (Nat × List Char) :=
  let digits := text.takeWhile Char.isDigit
  if digits = [] then none
  else some (digits.foldl (fun n c => 10 * n + (c.toNat - 48)) 0, text.drop digits.length)

def readString : List Char → Option (List Char × List Char)
  | [] => none
  | '"' :: rest => some ([], rest)
  | '\\' :: c :: rest => (readString rest).map fun p => ((if c = 'n' then '\n' else c) :: p.1, p.2)
  | c :: rest => (readString rest).map fun p => (c :: p.1, p.2)

def readEntry (text : List Char) : Option (JournalEntry String String × List Char) :=
  match text.dropPrefix? eventKey with
  | some text => do
    let (seq, text) ← readNat text
    let (logical, text) ← readNat (← text.dropPrefix? timeKey)
    let (payload, text) ← readString (← text.dropPrefix? textKey)
    return (.event ⟨seq, ⟨logical, none⟩, String.ofList payload⟩, ← text.dropPrefix? ['}'])
  | none => do
    let (message, text) ← readString (← text.dropPrefix? messageKey)
    return (.other (String.ofList message), text)

def readRecord (text : List Char) : Option (JournalRecord String String) := do
  let (seq, text) ← readNat (← text.dropPrefix? seqKey)
  let (logical, text) ← readNat (← text.dropPrefix? timeKey)
  let (entry, text) ← readEntry (← text.dropPrefix? entryKey)
  if text = ['}'] then some ⟨seq, ⟨logical, none⟩, entry⟩ else none

def plainCodec : Codec (JournalRecord String String) := ⟨plainText, readRecord⟩

theorem not_mem_quoted (text : String) : '\n' ∉ quoted text := by
  simp only [quoted, List.mem_append, List.mem_flatMap, not_or, not_exists, not_and]
  refine ⟨?_, by decide⟩
  intro c _ hmem
  rw [escape] at hmem
  split at hmem
  · exact absurd hmem (by decide)
  · next hne =>
      have hc : '\n' ≠ c := Ne.symm hne
      split at hmem <;> simp [hc] at hmem

theorem not_mem_toDigits (n : Nat) : '\n' ∉ Nat.toDigits 10 n := fun hmem =>
  absurd (Nat.isDigit_of_mem_toDigits (by decide) (by decide) hmem) (by decide)

theorem not_mem_keys : ∀ key ∈ [seqKey, timeKey, entryKey, eventKey, textKey, messageKey, ['}']], '\n' ∉ key := by
  decide +kernel

theorem lines_plainCodec : plainCodec.Lines := by
  have hkeys := not_mem_keys
  simp only [List.forall_mem_cons, List.not_mem_nil, false_imp_iff, implies_true, and_true] at hkeys
  obtain ⟨hseq, htime, hentry, hevent, htext, hmessage, hbrace⟩ := hkeys
  constructor
  · intro record
    apply List.not_mem_append (List.not_mem_append hseq (List.not_mem_append (not_mem_toDigits _)
      (List.not_mem_append htime (List.not_mem_append (not_mem_toDigits _) (List.not_mem_append hentry ?_))))) hbrace
    cases record.entry with
    | event e =>
        exact List.not_mem_append hevent (List.not_mem_append (not_mem_toDigits _) (List.not_mem_append htime
          (List.not_mem_append (not_mem_toDigits _) (List.not_mem_append htext
            (List.not_mem_append (not_mem_quoted _) hbrace)))))
    | other message => exact List.not_mem_append hmessage (not_mem_quoted message)
  · intro record
    exact List.getLast?_concat

def promptAt (seq time : Nat) (text : String) : JournalEntry String String := .event ⟨seq, ⟨time, none⟩, text⟩

def threeRecords : List (JournalRecord String String) :=
  [⟨0, ⟨0, none⟩, .other "started"⟩, ⟨1, ⟨3, none⟩, promptAt 0 1 "first"⟩, ⟨2, ⟨4, none⟩, promptAt 1 2 "\"second\""⟩]

def comesBack (record : JournalRecord String String) : Bool := decide (readRecord (plainText record) = some record)

def checked (s : Journaling String String) : Act String String → Bool
  | .openFile => s.appended.isEmpty
  | .append time entry => comesBack ⟨s.nextSeq, time, .other entry⟩
  | .emitJournal seq time => s.bus.emits.all fun e =>
    (e.journaled || decide (seq ≤ e.event.seq)) && (e.event.seq != seq || comesBack ⟨s.nextSeq, time, .event e.event⟩)
  | _ => true

theorem of_checked (s : Journaling String String) (l : Act String String) (h : s.checked l = true) :
    Orderly plainCodec s l := by
  cases l with
  | openFile => exact ⟨List.isEmpty_iff.mp h, trivial, trivial⟩
  | append time entry => exact ⟨trivial, trivial, show readRecord _ = some _ from of_decide_eq_true h⟩
  | emitJournal seq time =>
      have hall : ∀ e ∈ s.bus.emits, (e.journaled = true ∨ seq ≤ e.event.seq) ∧
          (e.event.seq = seq → comesBack ⟨s.nextSeq, time, .event e.event⟩ = true) := by
        intro e he
        have hboth := Bool.and_eq_true_iff.mp (List.all_eq_true.mp h e he)
        refine ⟨by simpa using hboth.1, ?_⟩
        intro hseq
        simpa [hseq] using hboth.2
      refine ⟨trivial, ?_, ?_⟩
      · intro e he hwait
        rcases (hall e he).1 with hj | hle
        · rw [hj] at hwait
          cases hwait
        · exact hle
      · intro e he hseq
        exact show readRecord _ = some _ from of_decide_eq_true ((hall e he).2 hseq)
  | _ => exact ⟨trivial, trivial, trivial⟩

theorem journal_ordered_log_three :
    ∃ s, (machine plainCodec).ReachableUnder (Orderly plainCodec) s ∧
      readJournal plainCodec s.file = some threeRecords ∧ OrderedLog plainCodec s := by
  obtain ⟨s, hr, hp⟩ := Machine.exists_of_runChecked checked
    [.openFile, .append ⟨0, none⟩ "started", .emitAppend ⟨1, none⟩ "first", .emitAppend ⟨2, none⟩ "\"second\"",
      .emitJournal 0 ⟨3, none⟩, .emitJournal 1 ⟨4, none⟩, .emitBroadcast 1, .emitBroadcast 0]
    (fun s => decide (s.records = threeRecords)) (s := start) (M := machine plainCodec) rfl (by decide +kernel)
  have hr := hr.mono of_checked
  have hlog := (journal_ordered_log plainCodec lines_plainCodec).2.2.2 s hr
  have hrecords : s.records = threeRecords := of_decide_eq_true hp
  refine ⟨s, hr, ?_, hlog⟩
  rw [hlog.read, hrecords]

/-- A second session on the same path numbers from 0 again. -/
theorem second_session_restarts :
    ∃ s, (machine plainCodec).Reachable s ∧ s.records.map JournalRecord.seq = [0, 0] ∧
      ¬ OrderedLog plainCodec s := by
  obtain ⟨s, hr, hp⟩ := Machine.exists_of_run
    [.openFile, .append ⟨0, none⟩ "started", .openFile, .append ⟨0, none⟩ "started"]
    (fun s => decide (s.records.map JournalRecord.seq = [0, 0])) (s := start) (M := machine plainCodec) rfl
    rfl
  have hseqs : s.records.map JournalRecord.seq = [0, 0] := of_decide_eq_true hp
  refine ⟨s, hr, hseqs, ?_⟩
  intro h
  have hone : (s.records.map JournalRecord.seq)[1]? = some 0 := by rw [hseqs]; rfl
  rw [List.getElem?_map] at hone
  obtain ⟨record, hget, hseq⟩ := Option.map_eq_some_iff.mp hone
  have := h.seqs 1 record hget
  omega

end Silo.Core.Journaling
