import Silo.Codec.App.Event
import Silo.Core.EventBus
import Silo.Lib.KeyedMap

namespace Silo.Codec.App

open Silo.Lib

/-- An event as the app keeps it, with its number in the harness's history. -/
abbrev Received := Core.Event EventPayload

structure QuestionAskedPayload where
  id : String
  agent : String
  question : UserQuestion

structure CostReportPayload where
  backend : String
  usage : UsageSnapshot
  quota : QuotaConfig

/-- The store of events by their numbers, with the busy flag that is kept beside them.
`notified` counts the calls of `notifyListeners`. -/
structure EventStore where
  entries : KeyedMap fun event : Received => event.seq
  busySeq : Int
  busy : Bool
  notified : Nat

namespace EventStore

def empty : EventStore := ⟨.empty, -1, false, 0⟩

def busySignal : EventPayload → Option Bool
  | .userPrompt .. | .assistantText .. | .toolUse .. | .toolResult .. | .agentSpawned .. | .agentCompleted ..
  | .questionAsked .. | .questionAnswered .. => some true
  | .awaitingInput | .interrupted _ | .shutdown _ => some false
  | _ => none

variable (store : EventStore)

def trackBusy (event : Received) : EventStore :=
  match busySignal event.payload with
  | some signal => if store.busySeq < event.seq then { store with busySeq := event.seq, busy := signal } else store
  | none => store

def notifyListeners : EventStore := { store with notified := store.notified + 1 }

def isBusy : Bool := store.busy

def events : List Received := store.entries.entries

def nextSeq : Nat :=
  match store.entries.lastKey with
  | none => 0
  | some seq => seq + 1

/-- `_events[event.seq] = event` with the flag after it. -/
def keep (event : Received) : EventStore := { store with entries := store.entries.put event }.trackBusy event

/-- `insert` returns whether the event was not there. -/
def insert (event : Received) : EventStore × Bool :=
  if store.entries.containsKey event.seq then (store, false) else ((store.keep event).notifyListeners, true)

def insertNext (done : EventStore × Nat) (event : Received) : EventStore × Nat :=
  if done.1.entries.containsKey event.seq then done else (done.1.keep event, done.2 + 1)

def insertAll (batch : List Received) : EventStore × Nat :=
  let done := batch.foldl insertNext (store, 0)
  if done.2 > 0 then (done.1.notifyListeners, done.2) else done

def latestWorkspace : Option String :=
  store.events.foldl (fun workspace event =>
    match event.payload with
    | .harnessStarted _ latest _ _ => some latest
    | _ => workspace) none

def followQuestion (seen : List String × Option QuestionAskedPayload) (event : Received) :
    List String × Option QuestionAskedPayload :=
  match event.payload with
  | .questionAnswered id _ _ => (id :: seen.1, seen.2)
  | .questionAsked id agent question => (seen.1, some ⟨id, agent, question⟩)
  | _ => seen

def liveQuestion : Option QuestionAskedPayload :=
  let seen := store.events.foldl followQuestion ([], none)
  seen.2.filter fun live => !seen.1.contains live.id

def answerFor (id : String) : Option String :=
  store.events.findSome? fun event =>
    match event.payload with
    | .questionAnswered answered _ answer => if answered = id then some answer else none
    | _ => none

def assign (reports : List (String × CostReportPayload)) (report : CostReportPayload) : List (String × CostReportPayload) :=
  if reports.any fun entry => entry.1 = report.backend then
    reports.map fun entry => if entry.1 = report.backend then (entry.1, report) else entry
  else reports ++ [(report.backend, report)]

def latestCostReports : List (String × CostReportPayload) :=
  store.events.foldl (fun reports event =>
    match event.payload with
    | .costReport backend usage quota => assign reports ⟨backend, usage, quota⟩
    | _ => reports) []

inductive Call
  | insert (event : Received)
  | insertAll (batch : List Received)

def Call.events : Call → List Received
  | .insert event => [event]
  | .insertAll batch => batch

def perform : Call → EventStore
  | .insert event => (store.insert event).1
  | .insertAll batch => (store.insertAll batch).1

def after (calls : List Call) : EventStore := calls.foldl perform empty

def inOrder (log : List Received) : List Received := log.mergeSort fun a b => a.seq ≤ b.seq

/-- The store is what the events of the log, delivered in order and once each, make it. -/
structure Agrees (log : List Received) (store : EventStore) : Prop where
  events : store.events = inOrder log
  fresh : ∀ event ∈ log, event.seq < store.nextSeq
  nextSeq : store.nextSeq = 0 ∧ log = [] ∨ ∃ event ∈ log, store.nextSeq = event.seq + 1
  isBusy : store.isBusy = ((inOrder log).reverse.findSome? fun event => busySignal event.payload).getD false
  latestCostReports : store.latestCostReports = (after ((inOrder log).map .insert)).latestCostReports
  latestWorkspace : store.latestWorkspace = (after ((inOrder log).map .insert)).latestWorkspace
  liveQuestion : store.liveQuestion = (after ((inOrder log).map .insert)).liveQuestion
  answerFor : ∀ id, store.answerFor id = (after ((inOrder log).map .insert)).answerFor id

variable {store} {log got : List Received} {event : Received}

/-- The store has the events that came, and its flag is the signal of the last that has one. -/
structure Holds (got : List Received) (store : EventStore) : Prop where
  events : ∀ event, event ∈ store.events ↔ event ∈ got
  busy : (store.busySeq, store.busy) =
    match store.entries.latest fun event => busySignal event.payload with
    | none => (-1, false)
    | some found => ((found.1 : Int), found.2)

def Distinct (log : List Received) : Prop := log.Pairwise fun a b => a.seq ≠ b.seq

theorem Distinct.eq (h : Distinct log) {a b : Received} (ha : a ∈ log) (hb : b ∈ log) (hseq : a.seq = b.seq) : a = b :=
  List.inj_on_of_nodup_map (List.pairwise_map.mpr h) ha hb hseq

@[simp]
theorem entries_keep : (store.keep event).entries = store.entries.put event := by
  rw [keep, trackBusy]
  split
  · split <;> rfl
  · rfl

theorem holds_keep (h : Holds got store) (hnew : store.entries.containsKey event.seq = false) :
    Holds (got ++ [event]) (store.keep event) where
  events other := by
    rw [events, entries_keep, KeyedMap.mem_put hnew, List.mem_append, List.mem_singleton, or_comm]
    exact or_congr_left (h.events other)
  busy := by
    have hbusy := h.busy
    rw [entries_keep, KeyedMap.latest_put hnew]
    cases hsignal : busySignal event.payload with
    | none => simpa only [keep, trackBusy, hsignal] using hbusy
    | some signal =>
        simp only [keep, trackBusy, hsignal]
        cases hlatest : store.entries.latest fun event => busySignal event.payload with
        | none =>
            rw [hlatest, Prod.mk.injEq] at hbusy
            rw [if_pos (by omega), Option.all_none, if_pos rfl]
        | some found =>
            rw [hlatest, Prod.mk.injEq] at hbusy
            simp only [Option.all_some, decide_eq_true_eq]
            by_cases hlt : found.1 < event.seq
            · rw [if_pos (by omega), if_pos hlt]
            · rw [if_neg (by omega), if_neg hlt, Prod.mk.injEq]
              exact hbusy

theorem holds_again (h : Holds got store) (hlog : Distinct log) (hgot : ∀ other ∈ got, other ∈ log) (hevent : event ∈ log)
    (hthere : store.entries.containsKey event.seq = true) : Holds (got ++ [event]) store where
  events other := by
    obtain ⟨same, hsame, hseq⟩ := KeyedMap.containsKey_iff.mp hthere
    have hmem : same ∈ got := (h.events same).mp hsame
    obtain rfl := hlog.eq (hgot same hmem) hevent hseq
    rw [h.events, List.mem_append, List.mem_singleton]
    apply Iff.intro .inl
    rintro (hother | rfl)
    · exact hother
    · exact hmem
  busy := h.busy

theorem holds_notify (h : Holds got store) : Holds got store.notifyListeners := ⟨h.events, h.busy⟩

theorem holds_insert (h : Holds got store) (hlog : Distinct log) (hgot : ∀ other ∈ got, other ∈ log) (hevent : event ∈ log) :
    Holds (got ++ [event]) (store.insert event).1 := by
  rw [insert]
  split
  · exact holds_again h hlog hgot hevent ‹_›
  · exact holds_notify (holds_keep h (Bool.eq_false_iff.mpr ‹_›))

theorem holds_insertNext (hlog : Distinct log) : ∀ {got batch : List Received}
    {done : EventStore × Nat}, Holds got done.1 → (∀ other ∈ got ++ batch, other ∈ log) →
    Holds (got ++ batch) (batch.foldl insertNext done).1
  | got, [], done, h, _ => by simpa using h
  | got, event :: batch, done, h, hgot => by
      have hstep : Holds (got ++ [event]) (insertNext done event).1 := by
        have hbefore : ∀ other ∈ got, other ∈ log := fun other hother => hgot other (List.mem_append_left _ hother)
        rw [insertNext]
        split
        · exact holds_again h hlog hbefore (hgot event (by simp)) ‹_›
        · exact holds_keep h (Bool.eq_false_iff.mpr ‹_›)
      rw [List.append_cons] at hgot ⊢
      exact holds_insertNext hlog hstep hgot

theorem holds_perform {call : Call} (h : Holds got store) (hlog : Distinct log)
    (hgot : ∀ other ∈ got ++ call.events, other ∈ log) : Holds (got ++ call.events) (store.perform call) := by
  cases call with
  | insert event =>
      exact holds_insert h hlog (fun other hother => hgot other (List.mem_append_left _ hother))
        (hgot event (by simp [Call.events]))
  | insertAll batch =>
      have hbatch : Holds (got ++ batch) (batch.foldl insertNext (store, 0)).1 := holds_insertNext hlog h hgot
      rw [perform, insertAll]
      split
      · exact holds_notify hbatch
      · exact hbatch

theorem holds_run (hlog : Distinct log) : ∀ {got : List Received} {store : EventStore} {calls : List Call},
    Holds got store → (∀ other ∈ got ++ calls.flatMap Call.events, other ∈ log) →
    Holds (got ++ calls.flatMap Call.events) (calls.foldl perform store)
  | got, store, [], h, _ => by simpa using h
  | got, store, call :: calls, h, hgot => by
      rw [List.flatMap_cons, ← List.append_assoc] at hgot ⊢
      have hstep : Holds (got ++ call.events) (store.perform call) :=
        holds_perform h hlog fun other hother => hgot other (List.mem_append_left _ hother)
      exact holds_run hlog hstep hgot

theorem holds_after {calls : List Call} (hlog : Distinct log)
    (hcalls : ∀ event, event ∈ calls.flatMap Call.events ↔ event ∈ log) : Holds log (after calls) := by
  have hempty : Holds [] empty := ⟨fun _ => Iff.rfl, rfl⟩
  have hrun : Holds ([] ++ calls.flatMap Call.events) (after calls) :=
    holds_run hlog hempty fun other hother => (hcalls other).mp (by simpa using hother)
  exact ⟨fun event => (hrun.events event).trans (by simpa using hcalls event), hrun.busy⟩

theorem mem_inOrder : event ∈ inOrder log ↔ event ∈ log := List.mem_mergeSort

theorem sorted_inOrder (h : Distinct log) : (inOrder log).Pairwise fun a b => a.seq < b.seq := by
  have hle : (inOrder log).Pairwise fun a b => a.seq ≤ b.seq := by
    have htrans (a b c : Received) (hab : decide (a.seq ≤ b.seq) = true) (hbc : decide (b.seq ≤ c.seq) = true) :
        decide (a.seq ≤ c.seq) = true :=
      decide_eq_true (le_trans (of_decide_eq_true hab) (of_decide_eq_true hbc))
    have htotal (a b : Received) : (decide (a.seq ≤ b.seq) || decide (b.seq ≤ a.seq)) = true := by
      simpa using le_total a.seq b.seq
    exact (List.pairwise_mergeSort htrans htotal log).imp of_decide_eq_true
  have hne : Distinct (inOrder log) := (List.mergeSort_perm log _).symm.pairwise h (fun hne => hne.symm)
  exact hle.imp₂ (fun a b hle hne => lt_of_le_of_ne hle hne) hne

theorem Holds.events_eq (h : Holds log store) (hlog : Distinct log) : store.events = inOrder log :=
  KeyedMap.entries_eq (sorted_inOrder hlog) fun event => (h.events event).trans mem_inOrder.symm

theorem Holds.lt_nextSeq (h : Holds log store) (hevent : event ∈ log) : event.seq < store.nextSeq := by
  rw [nextSeq]
  have hentry : event ∈ store.entries.entries := (h.events event).mpr hevent
  split
  · rename_i hnone
    rw [KeyedMap.lastKey, Option.map_eq_none_iff, List.getLast?_eq_none_iff] at hnone
    rw [hnone] at hentry
    cases hentry
  · exact Nat.lt_succ_of_le (KeyedMap.le_lastKey ‹_› event hentry)

theorem Holds.nextSeq (h : Holds log store) :
    store.nextSeq = 0 ∧ log = [] ∨ ∃ event ∈ log, store.nextSeq = event.seq + 1 := by
  rw [EventStore.nextSeq]
  split
  · rename_i hnone
    rw [KeyedMap.lastKey, Option.map_eq_none_iff, List.getLast?_eq_none_iff] at hnone
    left
    refine ⟨rfl, List.eq_nil_iff_forall_not_mem.mpr fun event hevent => ?_⟩
    have hentry : event ∈ store.entries.entries := (h.events event).mpr hevent
    rw [hnone] at hentry
    cases hentry
  · rename_i seq hlast
    obtain ⟨last, hentry, rfl⟩ := Option.map_eq_some_iff.mp hlast
    exact .inr ⟨last, (h.events last).mp (List.mem_of_getLast? hentry), rfl⟩

theorem Holds.isBusy (h : Holds log store) (hlog : Distinct log) :
    store.isBusy = ((inOrder log).reverse.findSome? fun event => busySignal event.payload).getD false := by
  have hbusy : store.busy = _ := congrArg Prod.snd h.busy
  rw [← h.events_eq hlog, EventStore.events, ← KeyedMap.latest_map_snd, EventStore.isBusy, hbusy]
  cases store.entries.latest fun event => busySignal event.payload <;> rfl

/-- However often and in whatever order and batches the events of a log are delivered, the
store is the same. -/
theorem agrees_after (log : List Received) (hlog : Distinct log) (calls : List Call)
    (hcalls : ∀ event, event ∈ calls.flatMap Call.events ↔ event ∈ log) : Agrees log (after calls) := by
  have hafter : Holds log (after calls) := holds_after hlog hcalls
  have hordered : Holds log (after ((inOrder log).map .insert)) := by
    apply holds_after hlog
    intro event
    simp [Call.events, mem_inOrder]
  have hevents : (after calls).events = (after ((inOrder log).map .insert)).events :=
    (hafter.events_eq hlog).trans (hordered.events_eq hlog).symm
  refine ⟨hafter.events_eq hlog, fun event => hafter.lt_nextSeq, hafter.nextSeq, hafter.isBusy hlog, ?_, ?_, ?_, ?_⟩
  · rw [EventStore.latestCostReports, EventStore.latestCostReports, hevents]
  · rw [EventStore.latestWorkspace, EventStore.latestWorkspace, hevents]
  · rw [EventStore.liveQuestion, EventStore.liveQuestion, hevents]
  · intro id
    rw [EventStore.answerFor, EventStore.answerFor, hevents]

def shortLog : List Received := [⟨0, ⟨0, none⟩, .userPrompt none none "go"⟩, ⟨1, ⟨1, none⟩, .awaitingInput⟩]

/-- The live stream brings the end before the backlog brings both. -/
theorem agrees_after_overlapping :
    Agrees shortLog (after [.insert ⟨1, ⟨1, none⟩, .awaitingInput⟩, .insertAll shortLog]) ∧
      (after [.insert ⟨1, ⟨1, none⟩, .awaitingInput⟩, .insertAll shortLog]).isBusy = false := by
  refine ⟨agrees_after shortLog ?_ _ ?_, by decide⟩
  · simp [shortLog, Distinct]
  · simp [shortLog, Call.events]

end EventStore

end Silo.Codec.App
