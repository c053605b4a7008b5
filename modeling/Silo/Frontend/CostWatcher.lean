import Mathlib.Data.List.Induction
import Mathlib.Data.String.Basic
import Silo.Codec.Protocol
import Silo.Frontend.EventPump
import Silo.Lib.KeyedMap

namespace Silo.Frontend.CostWatcher

open Silo.Lib Silo.Core EventPump
open Silo.Codec (EventPayload CostEntry)

/-- The entry that `apply_cost` makes of a `CostReport`. -/
def entryOf : EventPayload → Option CostEntry
  | .costReport backend usage quota => some ⟨backend, usage, quota⟩
  | _ => none

abbrev CostCache := KeyedMap CostEntry.backend

def applyCost (cost : CostCache) (payload : EventPayload) : CostCache :=
  match entryOf payload with
  | some entry => cost.put entry
  | none => cost

/-- The `cost_watcher` task: its place in the broadcast channel, the lowest sequence number still
to apply, and the cache. -/
structure Watcher where
  pos : Nat
  next : Nat
  cost : CostCache

def Watcher.take (w : Watcher) (event : Event EventPayload) : Watcher :=
  { w with next := event.seq + 1, cost := applyCost w.cost event.payload }

def Watcher.received (w : Watcher) (event : Event EventPayload) : Watcher :=
  if w.next ≤ event.seq then w.take event else w

/-- The events of the history from `next` on. -/
def Watcher.refill (w : Watcher) (bus : EventBus EventPayload) : Watcher := (bus.since w.next).foldl Watcher.take w

def Watcher.fresh : Watcher := ⟨0, 0, .empty⟩

inductive Task
  | unborn
  | subscribed (pos : Nat)
  | watching (w : Watcher)
  | ended (w : Watcher)

structure State where
  bus : EventBus EventPayload
  task : Task

/-- As in the event pumps, which messages the channel has lost is left open. -/
inductive Act
  | emitAppend (time : Timestamp) (payload : EventPayload)
  | emitJournal (seq : Nat)
  | emitBroadcast (seq : Nat)
  | subscribe
  | catchUp
  | receive
  | lag (oldest : Nat)
  | shutdown

def next (s : State) : Act → Option State
  | .emitAppend time payload => some { s with bus := s.bus.emitAppend time payload }
  | .emitJournal seq => (s.bus.emitJournal seq).map fun bus => { s with bus := bus }
  | .emitBroadcast seq => (s.bus.emitBroadcast seq).map fun bus => { s with bus := bus }
  | .subscribe =>
    match s.task with
    | .unborn => some { s with task := .subscribed s.bus.sent.length }
    | _ => none
  | .catchUp =>
    match s.task with
    | .subscribed pos => some { s with task := .watching { Watcher.fresh.refill s.bus with pos := pos } }
    | _ => none
  | .receive =>
    match s.task with
    | .watching w => (s.bus.sent[w.pos]?).map fun event =>
        { s with task := .watching { w.received event with pos := w.pos + 1 } }
    | _ => none
  | .lag oldest =>
    match s.task with
    | .watching w =>
      if w.pos < oldest ∧ oldest ≤ s.bus.sent.length then
        some { s with task := .watching { w.refill s.bus with pos := oldest } }
      else none
    | _ => none
  | .shutdown =>
    match s.task with
    | .watching w => some { s with task := .ended w }
    | _ => none

def machine : Machine State Act := ⟨fun s => s.bus = .empty ∧ s.task = .unborn, next⟩

def inOrder (s : State) : Act → Bool
  | .emitBroadcast seq => s.bus.broadcastsInOrder seq
  | _ => true

/-- The entry is that of its backend's last report among `events`. -/
def LastReport (events : List (Event EventPayload)) (entry : CostEntry) : Prop :=
  ∃ before event after, events = before ++ event :: after ∧ entryOf event.payload = some entry ∧
    ∀ e ∈ after, ∀ d, entryOf e.payload = some d → d.backend ≠ entry.backend

theorem not_lastReport_nil (entry : CostEntry) : ¬ LastReport [] entry := by
  rintro ⟨before, event, after, h, -, -⟩
  cases before <;> cases h

theorem lastReport_concat (events : List (Event EventPayload)) (event : Event EventPayload) (entry : CostEntry) :
    LastReport (events ++ [event]) entry ↔ entryOf event.payload = some entry ∨
      LastReport events entry ∧ ∀ d, entryOf event.payload = some d → d.backend ≠ entry.backend := by
  constructor
  · rintro ⟨before, e, after, h, he, hafter⟩
    rcases List.eq_nil_or_concat after with rfl | ⟨after, last, rfl⟩
    · obtain ⟨-, hlast⟩ := List.append_inj' h rfl
      cases hlast
      exact .inl he
    · rw [List.concat_eq_append, ← List.cons_append, ← List.append_assoc] at h
      obtain ⟨hevents, hlast⟩ := List.append_inj' h rfl
      cases hlast
      rw [List.concat_eq_append] at hafter
      refine .inr ⟨⟨before, e, after, hevents, he, fun e' he' => hafter e' (List.mem_append_left _ he')⟩, ?_⟩
      exact hafter event (List.mem_append_right _ (List.mem_singleton_self _))
  · rintro (h | ⟨⟨before, e, after, rfl, he, hafter⟩, hevent⟩)
    · exact ⟨events, event, [], rfl, h, fun _ he => by cases he⟩
    · refine ⟨before, e, after ++ [event], by simp, he, fun e' he' => ?_⟩
      rcases List.mem_append.mp he' with he' | he'
      · exact hafter e' he'
      · rw [List.mem_singleton.mp he']
        exact hevent

theorem mem_applyCost {cost : CostCache} {payload : EventPayload} {entry : CostEntry} :
    entry ∈ (applyCost cost payload).entries ↔ entryOf payload = some entry ∨
      entry ∈ cost.entries ∧ ∀ d, entryOf payload = some d → d.backend ≠ entry.backend := by
  rw [applyCost]
  split
  · rename_i d hd
    rw [KeyedMap.mem_put_iff, hd]
    constructor
    · rintro (rfl | ⟨h, hne⟩)
      · exact .inl rfl
      · refine .inr ⟨h, fun d' hd' => ?_⟩
        cases hd'
        exact hne.symm
    · rintro (h | ⟨h, hne⟩)
      · cases h
        exact .inl rfl
      · exact .inr ⟨h, (hne d rfl).symm⟩
  · rename_i hnone
    rw [hnone]
    constructor
    · exact fun h => .inr ⟨h, fun d hd => by cases hd⟩
    · rintro (h | ⟨h, -⟩)
      · cases h
      · exact h

def applyAll (cost : CostCache) (events : List (Event EventPayload)) : CostCache :=
  events.foldl (fun cost event => applyCost cost event.payload) cost

theorem applyAll_concat (cost : CostCache) (events : List (Event EventPayload)) (event : Event EventPayload) :
    applyAll cost (events ++ [event]) = applyCost (applyAll cost events) event.payload := by
  rw [applyAll, List.foldl_append]
  rfl

theorem mem_applyAll (events : List (Event EventPayload)) (entry : CostEntry) :
    entry ∈ (applyAll .empty events).entries ↔ LastReport events entry := by
  induction events using List.reverseRecOn with
  | nil =>
      constructor
      · intro h
        cases h
      · exact fun h => (not_lastReport_nil entry h).elim
  | append_singleton events event ih => rw [lastReport_concat, ← ih, applyAll_concat, mem_applyCost]

variable {w : Watcher} {p : Pump EventPayload} {bus bus' : EventBus EventPayload}

/-- What the watcher has applied is what a pump for all events would have sent by now. -/
structure Follows (w : Watcher) (p : Pump EventPayload) : Prop where
  pos : w.pos = p.pos
  next : w.next = p.next
  start : p.start = 0
  cost : w.cost = applyAll .empty p.out

namespace Follows

theorem at_pos (h : Follows w p) (pos : Nat) : Follows { w with pos := pos } { p with pos := pos } :=
  ⟨rfl, h.next, h.start, h.cost⟩

theorem take (h : Follows w p) (event : Event EventPayload) : Follows (w.take event) (p.send event) := by
  refine ⟨h.pos, rfl, h.start, ?_⟩
  rw [Watcher.take, Pump.send, applyAll_concat, ← h.cost]

theorem received (h : Follows w p) (event : Event EventPayload) : Follows (w.received event) (p.received event) := by
  rw [Watcher.received, Pump.received, h.next]
  split
  · exact h.take event
  · exact h

theorem takeAll (h : Follows w p) (events : List (Event EventPayload)) :
    Follows (events.foldl Watcher.take w) (events.foldl Pump.send p) := by
  induction events generalizing w p with
  | nil => exact h
  | cons event events ih => exact ih (h.take event)

theorem refill (h : Follows w p) (bus : EventBus EventPayload) : Follows (w.refill bus) (p.refill bus) := by
  rw [Watcher.refill, Pump.refill, h.next]
  exact h.takeAll _

end Follows

def WatcherOk (bus : EventBus EventPayload) (w : Watcher) : Prop := ∃ p, Follows w p ∧ PumpOk bus p

def TaskOk (bus : EventBus EventPayload) : Task → Prop
  | .unborn => True
  | .subscribed pos => pos ≤ bus.history.length
  | .watching w => WatcherOk bus w
  | .ended w => WatcherOk bus w

structure Inv (s : State) : Prop where
  bus : s.bus.Ordered
  task : TaskOk s.bus s.task

theorem watcherOk_mono (h : bus.history <+: bus'.history) (hw : WatcherOk bus w) : WatcherOk bus' w := by
  obtain ⟨p, hfollows, hp⟩ := hw
  have hclient : ClientOk bus (.pumping p) := hp
  exact ⟨p, hfollows, clientOk_mono h hclient⟩

theorem taskOk_mono (h : bus.history <+: bus'.history) {task : Task} (ht : TaskOk bus task) : TaskOk bus' task := by
  cases task with
  | unborn => trivial
  | subscribed pos => exact Nat.le_trans ht h.length_le
  | watching w => exact watcherOk_mono h ht
  | ended w => exact watcherOk_mono h ht

theorem watcherOk_refill (hbus : bus.Ordered) (hw : WatcherOk bus w) {oldest : Nat} (h : oldest ≤ bus.history.length) :
    WatcherOk bus { w.refill bus with pos := oldest } := by
  obtain ⟨p, hfollows, hp⟩ := hw
  exact ⟨_, (hfollows.refill bus).at_pos oldest, pumpOk_refill hbus hp h⟩

theorem watcherOk_fresh : WatcherOk bus .fresh :=
  ⟨⟨0, 0, 0, [], true⟩, ⟨rfl, rfl, rfl, rfl⟩, Nat.le_refl _, Nat.le_refl _, Nat.zero_le _, rfl⟩

theorem inv_step {s t : State} {l : Act} (h : Inv s) (hok : inOrder s l = true) (hn : next s l = some t) : Inv t := by
  obtain ⟨bus, task⟩ := s
  obtain ⟨hbus, htask⟩ := h
  cases l with
  | emitAppend time payload =>
      cases hn
      exact ⟨EventBus.ordered_append hbus _ _, taskOk_mono (history_append ..) htask⟩
  | emitJournal seq =>
      obtain ⟨bus', hb, rfl⟩ := Option.map_eq_some_iff.mp hn
      exact ⟨EventBus.ordered_journal hbus hb, taskOk_mono (history_journal hb) htask⟩
  | emitBroadcast seq =>
      obtain ⟨bus', hb, rfl⟩ := Option.map_eq_some_iff.mp hn
      exact ⟨EventBus.ordered_broadcast hbus hok hb, taskOk_mono (history_broadcast hb) htask⟩
  | subscribe =>
      simp only [next] at hn
      split at hn <;> cases hn
      exact ⟨hbus, hbus.sent.length_le⟩
  | catchUp =>
      simp only [next] at hn
      split at hn <;> cases hn
      exact ⟨hbus, watcherOk_refill hbus watcherOk_fresh htask⟩
  | receive =>
      simp only [next] at hn
      split at hn
      · rename_i w
        obtain ⟨event, he, rfl⟩ := Option.map_eq_some_iff.mp hn
        obtain ⟨p, hfollows, hp⟩ := htask
        have hpos := hfollows.pos
        rw [hpos] at he
        refine ⟨hbus, _, (hfollows.received event).at_pos (w.pos + 1), ?_⟩
        rw [hpos]
        exact pumpOk_received hbus hp he
      · cases hn
  | lag oldest =>
      simp only [next] at hn
      split at hn
      · rename_i w
        split at hn
        · rename_i hlag
          cases hn
          exact ⟨hbus, watcherOk_refill hbus htask (Nat.le_trans hlag.2 hbus.sent.length_le)⟩
        · cases hn
      · cases hn
  | shutdown =>
      simp only [next] at hn
      split at hn <;> cases hn
      exact ⟨hbus, htask⟩

theorem inv_reachable {s : State} (h : machine.ReachableUnder (fun s l => inOrder s l = true) s) : Inv s := by
  refine h.invariant ?_ inv_step
  rintro s ⟨hbus, htask⟩
  refine ⟨hbus ▸ EventBus.ordered_empty, ?_⟩
  rw [htask]
  trivial

theorem sent_of_idle (hbus : bus.Ordered) (h : bus.emits = []) : bus.sent.length = bus.history.length := by
  by_contra hne
  obtain ⟨e, he, -⟩ := hbus.waiting _ (Nat.le_refl _) (Nat.lt_of_le_of_ne hbus.sent.length_le hne)
  rw [h] at he
  cases he

/-- Whatever the lag, the cache holds the last report of each backend among the events up to `next`, and once the
channel is read to its end after the last emit, among all of them. -/
theorem cost_cache_latest {s : State} (h : machine.ReachableUnder (fun s l => inOrder s l = true) s) {w : Watcher}
    (hw : s.task = .watching w) :
    (∀ entry, entry ∈ w.cost.entries ↔ LastReport (s.bus.history.take w.next) entry) ∧
      (s.bus.emits = [] → w.pos = s.bus.sent.length → ∀ entry, entry ∈ w.cost.entries ↔
        LastReport s.bus.history entry) := by
  have hinv := inv_reachable h
  have htask := hinv.task
  rw [hw] at htask
  obtain ⟨p, hfollows, hp⟩ := htask
  have hout : p.out = s.bus.history.take w.next := by rw [hp.out, hfollows.start, hfollows.next, List.drop_zero]
  have hcost : ∀ entry, entry ∈ w.cost.entries ↔ LastReport (s.bus.history.take w.next) entry := by
    intro entry
    rw [hfollows.cost, mem_applyAll, hout]
  refine ⟨hcost, fun hidle hpos entry => ?_⟩
  have hall := sent_of_idle hinv.bus hidle
  have hle := hp.pos_le
  rw [← hfollows.pos, ← hfollows.next] at hle
  rw [hcost, List.take_of_length_le (by omega)]

def idle : State := ⟨.empty, .unborn⟩

def cached (s : State) : List CostEntry :=
  match s.task with
  | .watching w => w.cost.entries
  | _ => []

/-- A report before the watcher is there, and one after that of which it is told late. -/
def twoReports : List Act :=
  [.emitAppend ⟨0, none⟩ (.costReport "local" ⟨7, 1, 0⟩ ⟨none, none⟩), .subscribe, .emitJournal 0, .catchUp,
   .emitBroadcast 0, .receive, .emitAppend ⟨1, none⟩ (.costReport "local" ⟨9, 2, 0⟩ ⟨none, none⟩), .emitJournal 1,
   .emitBroadcast 1, .receive]

theorem cost_cache_latest_two : ∃ s w, machine.ReachableUnder (fun s l => inOrder s l = true) s ∧
    s.task = .watching w ∧ w.cost.entries.map (fun entry => entry.usage.inputTokens) = [9] ∧
    ∀ entry, entry ∈ w.cost.entries ↔ LastReport (s.bus.history.take w.next) entry := by
  obtain ⟨s, hr, hp⟩ := Machine.exists_of_runChecked (M := machine) inOrder twoReports
    (fun s => (cached s).map (fun entry => entry.usage.inputTokens) = [9]) (s := idle) ⟨rfl, rfl⟩ (by decide)
  have hentries := of_decide_eq_true hp
  rw [cached] at hentries
  split at hentries
  · rename_i w hw
    exact ⟨s, w, hr, hw, hentries, (cost_cache_latest hr hw).1⟩
  · cases hentries

end Silo.Frontend.CostWatcher
