import Silo.Clients.Tui
import Silo.Frontend.Transcript
import Silo.Frontend.Voice

namespace Silo.Clients

open Silo.Lib Silo.Core Silo.Harness Silo.Frontend

/-- The step emits an event, other than a prompt, after which clients show the harness
busy. -/
def speaks : Act → Bool
  | .emit _ payload => busyAfter payload = some true
  | act => act.settles

/-- Where `top_level_loop` is: before `awaiting_input` is emitted, in `next_user_input`,
from a prompt to the last event of its turn, and past its return. -/
inductive LoopPhase
  | idle
  | waiting
  | turn
  | ended
  deriving DecidableEq, Repr

structure TurnLoop where
  front : State
  phase : LoopPhase

/-- `front` are the steps of the frontend's tasks and the events of everything the loop
runs; `endTurn` is a return of `drive` without an interrupt. -/
inductive LoopAct
  | front (act : Act)
  | awaitInput (time : Timestamp)
  | take
  | endTurn
  | interrupted (time : Timestamp)
  | finish

namespace TurnLoop

variable (cfg : Config) (s : TurnLoop)

/-- The prompts are taken, and the events after which clients show the harness idle are
emitted, by the loop alone. -/
def ofLoop : Act → Bool
  | .nextUserInput => true
  | .emit _ payload => busyAfter payload = some false
  | _ => false

def next (s : TurnLoop) : LoopAct → Option TurnLoop
  | .front act =>
    if ofLoop act then none else (s.front.next cfg act).map fun front => { s with front := front }
  | .awaitInput time =>
    if s.phase = .idle then some ⟨s.front.emit time .awaitingInput, .waiting⟩ else none
  | .take =>
    if s.phase = .waiting then (s.front.next cfg .nextUserInput).map fun front => ⟨front, .turn⟩ else none
  | .endTurn => if s.phase = .turn then some { s with phase := .idle } else none
  | .interrupted time =>
    if s.phase = .turn then some ⟨s.front.emit time (.interrupted topLevelAgentId), .idle⟩ else none
  | .finish => some { s with phase := .ended }

def machine : Machine TurnLoop LoopAct :=
  ⟨fun s => (State.machine cfg).init s.front ∧ s.phase = .idle, next cfg⟩

/-- A client that has applied all events emitted so far. -/
def client : App := s.front.bus.history.foldl App.applyEvent .new

def busy : Bool := s.client.busy

/-- The flag is up during turns, and down while the loop waits with no prompt queued. -/
structure Tracks (s : TurnLoop) : Prop where
  turn : s.phase = .turn → s.busy = true
  waiting : s.phase = .waiting → s.front.prompts = [] → s.busy = false

def Outstanding (front : State) : Prop := front.prompts ≠ [] ∨ ∃ c, (front.pending c).isSome = true

/-- The loop asks for input only when no announced prompt is left over, and while it
waits nothing but prompts shows the harness busy. -/
def PromptsOnly (s : TurnLoop) : LoopAct → Prop
  | .awaitInput _ => ¬ Outstanding s.front
  | .front act => s.phase = .waiting → speaks act = false
  | _ => True

structure Inv (s : TurnLoop) : Prop where
  lastSeq : s.client.lastSeq = last s.front.bus.history.length
  turn : s.phase = .turn → s.busy = true
  waiting : s.phase = .waiting → (s.busy = true ↔ Outstanding s.front)

variable {cfg} {s} {t : TurnLoop}

theorem client_emit {time : Timestamp} {payload : EventPayload}
    (hlast : s.client.lastSeq = last s.front.bus.history.length)
    (h : t.front.bus.history = s.front.bus.history ++ [⟨s.front.bus.history.length, time, payload⟩]) :
    t.client.lastSeq = last t.front.bus.history.length ∧ t.busy = (busyAfter payload).getD s.busy := by
  have hskip : (s.client.lastSeq.any fun last => decide (s.front.bus.history.length ≤ last)) = false := by
    rw [hlast]
    cases s.front.bus.history.length with
    | zero => rfl
    | succ n => simp [last]
  have hclient : t.client = s.client.applyEvent ⟨s.front.bus.history.length, time, payload⟩ := by
    rw [client, h, List.foldl_append]
    rfl
  rw [busy, hclient, App.applyEvent, hskip, h]
  simp [last, busy]

theorem client_still (h : t.front.bus.history = s.front.bus.history) : t.client = s.client := by
  rw [client, h, client]

theorem outstanding_congr {front front' : State} (hprompts : front'.prompts = front.prompts)
    (hpending : ∀ d, front'.pending d = front.pending d) : Outstanding front' ↔ Outstanding front := by
  simp only [Outstanding, hprompts, hpending]

theorem prompts_of_enqueued {front front' : State} {texts : List String} (htaken : front'.taken = front.taken)
    (h : front'.enqueued = front.enqueued ++ texts) : front'.prompts = front.prompts ++ texts := by
  rw [State.enqueued, State.enqueued, htaken, List.append_assoc] at h
  exact List.append_cancel_left h

theorem prompts_of_enqueued_eq {front front' : State} (htaken : front'.taken = front.taken)
    (h : front'.enqueued = front.enqueued) : front'.prompts = front.prompts := by
  rw [State.enqueued, State.enqueued, htaken] at h
  exact List.append_cancel_left h

/-- What a step of the frontend does to the events and to the prompts that wait. -/
inductive Hearing (front : State) (act : Act) (front' : State) : Prop
  | still (history : front'.bus.history = front.bus.history) (waits : Outstanding front' ↔ Outstanding front) :
      Hearing front act front'
  | other (time : Timestamp) (payload : EventPayload)
      (history : front'.bus.history = front.bus.history ++ [⟨front.bus.history.length, time, payload⟩])
      (busy : busyAfter payload = none ∨ busyAfter payload = some true ∧ speaks act = true)
      (waits : Outstanding front' ↔ Outstanding front) : Hearing front act front'
  | prompt (time : Timestamp) (payload : EventPayload)
      (history : front'.bus.history = front.bus.history ++ [⟨front.bus.history.length, time, payload⟩])
      (busy : busyAfter payload = some true) (waits : Outstanding front') : Hearing front act front'

theorem busyAfter_of_prompt {payload : EventPayload} {text : String} (h : promptOf payload = some text) :
    busyAfter payload = some true := by
  cases payload <;> first | rfl | cases h

theorem speaks_of_source {act : Act} {time : Timestamp} {payload : EventPayload}
    (h : act.Source time payload) (hbusy : busyAfter payload = some true) (hprompt : promptOf payload = none) :
    speaks act = true := by
  cases h with
  | prompt clientId clientName text => cases hprompt
  | file name contentB64 origin => cases hbusy
  | asked id agent question hact => cases act <;> first | exact hact | cases hact
  | answered id clientId answer hact => cases act <;> first | exact hact | cases hact
  | free => simp [speaks, hbusy]

theorem hearing_still {front front' : State} {act : Act} (he : State.PromptEffect front act front')
    (hhistory : front'.bus.history = front.bus.history) (htaken : front'.taken = front.taken) :
    Hearing front act front' := by
  cases he with
  | quiet h => exact .still hhistory (outstanding_congr (prompts_of_enqueued_eq htaken h.enqueued) h.pending)
  | other time payload htext hb hq hp =>
      rw [hb] at hhistory
      simp [EventBus.emitAppend] at hhistory
  | prompt c time payload text htext hb hq hp =>
      rw [hb] at hhistory
      simp [EventBus.emitAppend] at hhistory
  | enqueue c seq text hc hf hb hq hp =>
      -- The prompt was announced before and is queued now.
      have hbefore : Outstanding front := .inr ⟨c, by rw [hc]; rfl⟩
      have hafter : Outstanding front' := .inl (by simp [prompts_of_enqueued htaken hq])
      exact .still hhistory (iff_of_true hafter hbefore)
  | journal seq hb hq hp => exact .still hhistory (outstanding_congr (prompts_of_enqueued_eq htaken hq) hp)
  | broadcast seq hb hq hp => exact .still hhistory (outstanding_congr (prompts_of_enqueued_eq htaken hq) hp)

theorem hearing_said {front front' : State} {act : Act} {time : Timestamp} {payload : EventPayload}
    (he : State.PromptEffect front act front')
    (hhistory : front'.bus.history = front.bus.history ++ [⟨front.bus.history.length, time, payload⟩])
    (htaken : front'.taken = front.taken) (hidle : busyAfter payload ≠ some false)
    (hsource : act.Source time payload) : Hearing front act front' := by
  have hgrown (h : front'.bus.history = front.bus.history) : False := by
    rw [hhistory] at h
    simp at h
  cases he with
  | quiet h => exact (hgrown (by rw [h.bus])).elim
  | other time' payload' htext hb hq hp =>
      have heq : payload' = payload := by
        rw [hb] at hhistory
        simp [EventBus.emitAppend] at hhistory
        exact hhistory.2
      have htext : promptOf payload = none := by rw [← heq]; exact htext
      refine .other time payload hhistory ?_ (outstanding_congr (prompts_of_enqueued_eq htaken hq) hp)
      cases hafter : busyAfter payload with
      | none => exact .inl rfl
      | some flag =>
          cases flag with
          | false => exact absurd hafter hidle
          | true => exact .inr ⟨rfl, speaks_of_source hsource hafter htext⟩
  | prompt c time' payload' text htext hb hq hp =>
      have hafter : busyAfter payload' = some true := busyAfter_of_prompt htext
      have hpending : (front'.pending c).isSome = true := by simp [hp]
      exact .prompt time' payload' (by rw [hb]; rfl) hafter (.inr ⟨c, hpending⟩)
  | enqueue c seq text hc hf hb hq hp => exact (hgrown (by rw [hb])).elim
  | journal seq hb hq hp =>
      obtain ⟨e, -, hb⟩ := Option.map_eq_some_iff.mp hb
      exact (hgrown (by rw [← hb])).elim
  | broadcast seq hb hq hp =>
      obtain ⟨e, -, hb⟩ := Option.map_eq_some_iff.mp hb
      exact (hgrown (by rw [← hb])).elim

theorem hearing_of_next {front front' : State} {act : Act} (hloop : ofLoop act = false)
    (hn : front.next cfg act = some front') : Hearing front act front' := by
  have hact : act ≠ .nextUserInput := by
    rintro rfl
    cases hloop
  cases State.voice_of_next hact hn with
  | still history taken => exact hearing_still (State.promptEffect_of_next hn) history taken
  | said time payload history taken source announced =>
      apply hearing_said (State.promptEffect_of_next hn) history taken _ source
      intro hidle
      cases source with
      | free => simp [ofLoop, hidle] at hloop
      | _ => cases hidle

theorem Inv.front {front : State} {act : Act} (h : Inv s) (hloop : ofLoop act = false)
    (hpromptsOnly : s.phase = .waiting → speaks act = false) (hn : s.front.next cfg act = some front) :
    Inv { s with front := front } := by
  cases hearing_of_next hloop hn with
  | still history waits =>
      have hclient : client { s with front := front } = s.client := client_still history
      constructor
      · rw [hclient, history]
        exact h.lastSeq
      · rw [busy, hclient]
        exact h.turn
      · rw [busy, hclient, waits]
        exact h.waiting
  | other time payload history hbusy waits =>
      obtain ⟨hlast, hflag⟩ := client_emit (t := { s with front := front }) h.lastSeq history
      refine ⟨hlast, ?_, ?_⟩
      · intro hturn
        rw [hflag]
        obtain hbusy | ⟨hbusy, -⟩ := hbusy
        · rw [hbusy]
          exact h.turn hturn
        · rw [hbusy]
          rfl
      · intro hwaiting
        rw [hflag, waits]
        obtain hbusy | ⟨-, hspeaks⟩ := hbusy
        · rw [hbusy]
          exact h.waiting hwaiting
        · rw [hpromptsOnly hwaiting] at hspeaks
          cases hspeaks
  | prompt time payload history hbusy waits =>
      obtain ⟨hlast, hflag⟩ := client_emit (t := { s with front := front }) h.lastSeq history
      rw [hbusy] at hflag
      exact ⟨hlast, fun _ => hflag, fun _ => iff_of_true hflag waits⟩

theorem Inv.next {act : LoopAct} (h : Inv s) (hpromptsOnly : PromptsOnly s act) (hn : s.next cfg act = some t) : Inv t := by
  cases act with
  | front act =>
      simp only [TurnLoop.next] at hn
      split at hn
      · cases hn
      · next hloop =>
          obtain ⟨front, hfront, rfl⟩ := Option.map_eq_some_iff.mp hn
          exact h.front (by simpa using hloop) hpromptsOnly hfront
  | awaitInput time =>
      simp only [TurnLoop.next] at hn
      split at hn <;> cases hn
      obtain ⟨hlast, hflag⟩ := client_emit (t := ⟨s.front.emit time .awaitingInput, .waiting⟩) h.lastSeq rfl
      refine ⟨hlast, ?_, ?_⟩
      · rintro ⟨⟩
      · intro _
        rw [hflag]
        exact iff_of_false (by simp [busyAfter]) hpromptsOnly
  | take =>
      simp only [TurnLoop.next] at hn
      split at hn
      · next hwaiting =>
          obtain ⟨front, hfront, rfl⟩ := Option.map_eq_some_iff.mp hn
          simp only [State.next, State.nextUserInput] at hfront
          split at hfront
          · next text prompts hprompts =>
              split at hfront <;> cases hfront
              -- The prompt was outstanding, so the flag is up.
              have hbusy : s.busy = true := (h.waiting hwaiting).mpr (.inl (by simp [hprompts]))
              exact ⟨h.lastSeq, fun _ => hbusy, by rintro ⟨⟩⟩
          · cases hfront
      · cases hn
  | endTurn =>
      simp only [TurnLoop.next] at hn
      split at hn <;> cases hn
      exact ⟨h.lastSeq, by rintro ⟨⟩, by rintro ⟨⟩⟩
  | interrupted time =>
      simp only [TurnLoop.next] at hn
      split at hn <;> cases hn
      obtain ⟨hlast, -⟩ :=
        client_emit (t := ⟨s.front.emit time (.interrupted topLevelAgentId), .idle⟩) h.lastSeq rfl
      exact ⟨hlast, by rintro ⟨⟩, by rintro ⟨⟩⟩
  | finish =>
      cases hn
      exact ⟨h.lastSeq, by rintro ⟨⟩, by rintro ⟨⟩⟩

theorem inv_of_init (h : (machine cfg).init s) : Inv s := by
  obtain ⟨⟨records, now, issue, hfront⟩, hphase⟩ := h
  constructor
  · rw [client, hfront]
    rfl
  · rw [hphase]
    rintro ⟨⟩
  · rw [hphase]
    rintro ⟨⟩

/-- In runs where no announced prompt is left over when input is asked for, and nothing
but prompts is heard while the loop waits, the flag tracks turns; a prompt raises it as
soon as it is announced. -/
theorem busy_tracks_turns (hr : (machine cfg).ReachableUnder PromptsOnly s) :
    (s.phase = .turn → s.busy = true) ∧
      (s.phase = .waiting → s.front.prompts = [] →
        (s.busy = false ↔ ∀ c, s.front.pending c = none)) := by
  have h : Inv s := hr.invariant inv_of_init Inv.next
  refine ⟨h.turn, ?_⟩
  intro hwaiting hprompts
  rw [← Bool.not_eq_true, h.waiting hwaiting, Outstanding]
  simp [hprompts]

/-- A token holder logs in and sends a prompt, which is taken. The prompt is the event
numbered 1. -/
def opening : List LoopAct :=
  (State.joins 0 ++ [State.asks 0 "first"] ++ State.delivers 1 ++ [Act.conn 0 .resume]).map .front ++ [LoopAct.take]

def promptsOnlyCheck (s : TurnLoop) : LoopAct → Bool
  | .awaitInput _ => false
  | .front act => s.phase ≠ .waiting || !speaks act
  | _ => true

theorem promptsOnly_of_check {act : LoopAct} (h : promptsOnlyCheck s act = true) : PromptsOnly s act := by
  cases act with
  | awaitInput time => cases h
  | front act =>
      intro hwaiting
      simpa [promptsOnlyCheck, hwaiting] using h
  | _ => trivial

theorem busy_tracks_turns_first_prompt :
    ∃ s, (machine State.tokenOnly).ReachableUnder PromptsOnly s ∧ s.phase = .turn ∧ s.busy = true := by
  let first : TurnLoop := ⟨(State.start [] 0 none).emit ⟨0, none⟩ .awaitingInput, .waiting⟩
  have hrun : (((machine State.tokenOnly).runChecked promptsOnlyCheck first opening).any fun s => s.phase = .turn) = true := by
    decide
  obtain ⟨s, hs, hturn⟩ := (Option.any_eq_true ..).mp hrun
  have hr : (machine State.tokenOnly).ReachableUnder PromptsOnly s := by
    refine ⟨⟨State.start [] 0 none, .idle⟩, ⟨⟨[], 0, none, rfl⟩, rfl⟩, ?_⟩
    apply Machine.RunsTo.head (l := .awaitInput ⟨0, none⟩) (t := first)
    · rintro (h | ⟨c, h⟩)
      · exact h rfl
      · cases h
    · rfl
    · exact (Machine.runsTo_of_runChecked hs).mono fun _ _ => promptsOnly_of_check
  exact ⟨s, hr, of_decide_eq_true hturn, (busy_tracks_turns hr).1 (of_decide_eq_true hturn)⟩

/-- A prompt sent during a turn is announced before the `awaiting_input` that ends it, so
its own turn runs with the flag down. -/
theorem queued_turn_looks_idle : ¬ ∀ s, (machine State.tokenOnly).Reachable s → Tracks s := by
  intro h
  obtain ⟨s, hr, hp⟩ := Machine.exists_of_run (M := machine State.tokenOnly)
    ([LoopAct.awaitInput ⟨0, none⟩] ++ (State.delivers 0).map .front ++ opening ++
      ([State.asks 0 "second"] ++ State.delivers 2 ++ [Act.conn 0 .resume,
        Act.emit ⟨0, none⟩ (.assistantText topLevelAgentId "done")] ++ State.delivers 3).map .front ++
      [LoopAct.endTurn, .awaitInput ⟨0, none⟩] ++ (State.delivers 4).map .front ++ [LoopAct.take])
    (fun s => decide (s.phase = .turn) && !s.busy) (s := ⟨State.start [] 0 none, .idle⟩)
    ⟨⟨[], 0, none, rfl⟩, rfl⟩ rfl
  rw [Bool.and_eq_true, decide_eq_true_eq, Bool.not_eq_true'] at hp
  rw [(h s hr).turn hp.1] at hp
  cases hp.2

end TurnLoop

end Silo.Clients
