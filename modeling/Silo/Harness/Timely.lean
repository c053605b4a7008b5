import Silo.Harness.Feed
import Silo.Harness.Places

namespace Silo.Harness

open Silo.Core Silo.Lib

def Agent.polling (x : Agent) : Bool :=
  !x.suspended &&
    match x.phase with
    | .unborn | .over _ | .completed _ | .dropped => false
    | _ => true

/-- The wait in the `select` a task stands at. -/
def Phase.waitKind (generation : Nat) : Phase → Option WaitKind
  | .input => some .shutdown
  | .driving .asking _ => some (.abort generation)
  | .driving (.running _ _) .sandbox | .driving (.running _ _) (.frontend _)
  | .driving (.running _ _) (.anyWait _) | .driving (.running _ _) (.join _) =>
    some (.abort generation)
  | _ => none

def Phase.usesRx : Phase → Bool
  | .driving _ (.anyWait _) | .driving _ (.anyPut _ _) | .driving _ (.anyAbort _ _) => true
  | _ => false

def Record.command : Record → Option FrontendCommand
  | .journal (.frontendCommand command) => some command
  | _ => none

namespace Session

/-- Each poll of a task is one step: nothing else happens during a poll but
that commands are sent. -/
def atomic (s : Session) : Act → Bool
  | .send _ | .hangUp => true
  | .request _ | .drop _ => (List.range s.counter).all fun b => !(s.agents b).polling
  | .step a _ => (List.range s.counter).all fun b => !(s.agents b).polling || decide (b = a)

variable (s : Session) (a : AgentId)

def generation : Nat := (s.agents a).turn.generation

/-- The turn is to stop: a shutdown has been requested, or an interrupt applied
after the turn's snapshot. -/
def Due : Prop := s.signal.state.isSome = true ∨ s.generation a < s.signal.interrupts

structure Kin (c : AgentId) : Prop where
  younger : a < c
  born : (s.agents c).phase ≠ .unborn
  generation : s.generation c ≤ s.generation a

def Meant : AbortReason → Prop
  | .shutdown _ => s.signal.state.isSome = true
  | .interrupted => s.generation a < s.signal.interrupts

def Justified : Except HarnessError ToolDisposition → Prop
  | .ok .shutdown => s.signal.state.isSome = true
  | .ok .interrupted => s.generation a < s.signal.interrupts
  | _ => True

def Concluded : Except HarnessError TurnOutcome → Prop
  | .ok .shutdownRequested => s.signal.state.isSome = true
  | .ok .interrupted => s.generation a < s.signal.interrupts
  | _ => True

/-- The ways the session ends: with the first shutdown request's message, or
for a failure of its own. -/
def Closed (e : SessionEnd) : Prop :=
  (e = .normal e.message ∧ s.signal.state = some e.message) ∨
    e.llmFailure.isSome = true ∨ e.scriptMismatch.isSome = true ∨
    (e = .normal (some "frontend script exhausted") ∧
      ∃ detail, .journal (.lifecycle ("frontend script exhausted: " ++ detail)) ∈ s.log)

def HasChan (chan : Nat) : Prop :=
  (s.agents a).aborted = false → ∃ pool, s.registry a = some pool ∧ pool.chan = chan

def HasPool : Prop := (s.agents a).aborted = false → (s.registry a).isSome = true

def ToolOk : ToolPc → Prop
  | .idle => False
  | .spawnEntry child _ generation =>
    (s.agents a).suspended = false ∧ s.signal.state = none ∧
      s.generation a = s.signal.interrupts ∧ generation = s.signal.interrupts ∧
      (s.agents child.id).phase = .unborn ∧ a < child.id ∧ child.id < s.counter
  | .spawnInsert child | .join child => s.Kin a child.id
  | .reinsert child reason => s.Kin a child.id ∧ s.Meant a reason
  | .anyFinished | .anyTakeRx | .anyStill _ => s.HasPool a
  | .anyWait chan => s.HasChan a chan
  | .anyPut chan signalled => s.HasChan a chan ∧ signalled.isSome = true
  | .anyAbort chan reason => s.HasChan a chan ∧ s.Meant a reason
  | .done result => s.Justified a result
  | _ => True

structure FrameOk (f : Frame) : Prop where
  rest : ∀ c ∈ f.rest, s.Kin a c.id
  current : ∀ c, f.current = some c → s.Kin a c.id ∧
    ((s.agents c.id).aborted = true ∨ (s.agents c.id).finished = true)

structure WalkOk (walk : Walk) : Prop where
  entering : ∀ e, walk.entering = some e → e = a ∨ (s.Kin a e ∧ (s.agents e).aborted = true)
  frames : ∀ f ∈ walk.frames, s.FrameOk a f

def PhaseOk : Phase → Prop
  | .unborn => s.registry a = none
  | .head | .input | .interrupting | .over (.error _) => a = topLevelAgentId
  | .over (.ok e) => a = topLevelAgentId ∧ s.Closed e
  | .driving (.running r rs) tool => rs.length < r.toolCalls.length ∧ s.ToolOk a tool
  | .driving (.calling r rs) tool => rs.length < r.toolCalls.length ∧ tool = .idle
  | .driving .top tool | .driving .asking tool => tool = .idle
  | .driving (.ended _) _ => False
  | .cancelling result walk => s.Concluded a result ∧ s.WalkOk a walk
  | .returned result => s.Concluded a result
  | .finishing result | .completed result => result.shutdown = true → s.signal.state.isSome = true
  | .dropped => (s.agents a).aborted = true

structure WaitOk (w : Wait) : Prop where
  kind : (s.agents a).phase.waitKind (s.generation a) = some w.kind
  state : w.stateSeen = false
  interrupts : ∀ g, w.kind = .abort g → w.interruptsSeen ≤ g

structure PoolOk (pool : ChildPool) : Prop where
  children : ∀ c ∈ pool.children, s.Kin a c.id
  chan : ∀ chan, pool.doneRx = some chan → chan = pool.chan
  doneRx : (s.agents a).aborted = false → pool.doneRx = none → (s.agents a).phase.usesRx = true

structure AgentOk : Prop where
  phase : s.PhaseOk a (s.agents a).phase
  wait : ∀ w, (s.agents a).wait = some w → s.WaitOk a w
  pool : ∀ pool, s.registry a = some pool → s.PoolOk a pool
  aborted : (s.agents a).aborted = true → (s.agents a).polling = false
  snapshot : s.generation a ≤ s.signal.interrupts
  root : (s.agents a).phase ≠ .unborn → (s.agents a).parent = none → a = topLevelAgentId
  own : (s.agents a).phase ≠ .unborn → (s.agents a).turn.agent = a

structure Timely : Prop where
  ok : ∀ a, s.AgentOk a
  fresh : ∀ a, s.counter ≤ a → (s.agents a).phase = .unborn
  solo : ∀ a b, (s.agents a).polling = true → (s.agents b).polling = true → a = b
  tidy : s.signal.Tidy
  journal : s.log.filterMap Record.command = s.signal.applied

variable {s a} {t : Session} {b : AgentId}

/-- How a step of `a` looks to another task, which is not in a poll then. -/
structure StaysPut (s t : Session) (b : AgentId) : Prop where
  phase : (t.agents b).phase = (s.agents b).phase
  turn : (t.agents b).turn = (s.agents b).turn
  parent : (t.agents b).parent = (s.agents b).parent
  messages : (t.agents b).messages = (s.agents b).messages
  wait : (t.agents b).wait = (s.agents b).wait
  suspended : (t.agents b).suspended = (s.agents b).suspended
  aborted : (s.agents b).aborted = true → (t.agents b).aborted = true
  pool : t.registry b = s.registry b ∨ (t.registry b = none ∧ (t.agents b).aborted = true)

/-- What other tasks rely on in a task `c` that is born. -/
structure Lasts (s t : Session) (c : AgentId) : Prop where
  born : (t.agents c).phase ≠ .unborn
  generation : c ≠ topLevelAgentId → t.generation c = s.generation c
  aborted : (s.agents c).aborted = true → (t.agents c).aborted = true
  finished : (s.agents c).finished = true → (t.agents c).finished = true

structure Evolves (s t : Session) : Prop where
  lasts : ∀ c, (s.agents c).phase ≠ .unborn → Lasts s t c
  grows : s.signal.Grows t.signal
  log : ∃ more, t.log = s.log ++ more
  counter : s.counter ≤ t.counter

structure Untouched (s t : Session) : Prop where
  agents : t.agents = s.agents
  counter : t.counter = s.counter
  state : t.signal.state = s.signal.state
  interrupts : t.signal.interrupts = s.signal.interrupts

theorem StaysPut.generation (h : StaysPut s t b) : t.generation b = s.generation b := by
  rw [Session.generation, h.turn, Session.generation]

theorem StaysPut.lasts (h : StaysPut s t b) (hborn : (s.agents b).phase ≠ .unborn) : Lasts s t b := by
  refine ⟨by rw [h.phase]; exact hborn, fun _ => h.generation, h.aborted, ?_⟩
  rw [Agent.finished, Agent.finished, h.phase]
  exact id

theorem staysPut_of_eq (h : t.agents b = s.agents b) (hpool : t.registry b = s.registry b) :
    StaysPut s t b :=
  ⟨by rw [h], by rw [h], by rw [h], by rw [h], by rw [h], by rw [h], by rw [h]; exact id, .inl hpool⟩

theorem Kin.evolves {c : AgentId} (h : s.Kin b c) (ha : Evolves s t) (hb : StaysPut s t b) :
    t.Kin b c := by
  have hne : c ≠ topLevelAgentId := Nat.ne_of_gt (Nat.lt_of_le_of_lt (Nat.zero_le b) h.younger)
  have hc := ha.lasts c h.born
  refine ⟨h.younger, hc.born, ?_⟩
  rw [hc.generation hne, hb.generation]
  exact h.generation

theorem isSome_of_grows {sig sig' : Signal AgentId} (h : sig.Grows sig') (hs : sig.state.isSome = true) :
    sig'.state.isSome = true := by
  obtain ⟨message, hm⟩ := Option.isSome_iff_exists.mp hs
  rw [h.state message hm]
  rfl

theorem Meant.grows (hg : s.signal.Grows t.signal) (hgen : t.generation a = s.generation a)
    {reason : AbortReason} (h : s.Meant a reason) : t.Meant a reason := by
  cases reason with
  | shutdown message => exact isSome_of_grows hg h
  | interrupted =>
      simp only [Meant, hgen] at h ⊢
      exact Nat.lt_of_lt_of_le h hg.interrupts

theorem Justified.grows (hg : s.signal.Grows t.signal) (hgen : t.generation a = s.generation a)
    {result : Except HarnessError ToolDisposition} (h : s.Justified a result) : t.Justified a result := by
  cases result with
  | error error => trivial
  | ok disposition =>
      cases disposition with
      | shutdown => exact isSome_of_grows hg h
      | interrupted =>
          simp only [Justified, hgen] at h ⊢
          exact Nat.lt_of_lt_of_le h hg.interrupts
      | output | scriptFailed => trivial

theorem Concluded.grows (hg : s.signal.Grows t.signal) (hgen : t.generation a = s.generation a)
    {result : Except HarnessError TurnOutcome} (h : s.Concluded a result) : t.Concluded a result := by
  cases result with
  | error error => trivial
  | ok outcome =>
      cases outcome with
      | shutdownRequested => exact isSome_of_grows hg h
      | interrupted =>
          simp only [Concluded, hgen] at h ⊢
          exact Nat.lt_of_lt_of_le h hg.interrupts
      | completed | llmFailed | scriptFailed => trivial

theorem Closed.grows (hg : s.signal.Grows t.signal) {more : List Record} (hlog : t.log = s.log ++ more)
    {e : SessionEnd} (h : s.Closed e) : t.Closed e := by
  rcases h with ⟨he, hs⟩ | hllm | hscript | ⟨he, detail, hmem⟩
  · exact .inl ⟨he, hg.state _ hs⟩
  · exact .inr (.inl hllm)
  · exact .inr (.inr (.inl hscript))
  · refine .inr (.inr (.inr ⟨he, detail, ?_⟩))
    rw [hlog]
    exact List.mem_append_left _ hmem

theorem Due.grows (hg : s.signal.Grows t.signal) (hgen : t.generation a = s.generation a)
    (h : s.Due a) : t.Due a := by
  rcases h with hs | hi
  · exact .inl (isSome_of_grows hg hs)
  · refine .inr ?_
    rw [hgen]
    exact Nat.lt_of_lt_of_le hi hg.interrupts

theorem due_congr (hs : t.signal.state = s.signal.state) (hi : t.signal.interrupts = s.signal.interrupts)
    (hgen : t.generation a = s.generation a) : t.Due a ↔ s.Due a := by
  rw [Due, Due, hs, hi, hgen]

section Frame

variable (ha : Evolves s t) (hb : StaysPut s t b)

include hb in
theorem StaysPut.unaborted (hab : (t.agents b).aborted = false) :
    (s.agents b).aborted = false ∧ t.registry b = s.registry b := by
  constructor
  · by_contra hs
    rw [hb.aborted (by simpa using hs)] at hab
    cases hab
  · apply hb.pool.resolve_right
    rintro ⟨-, habt⟩
    rw [hab] at habt
    cases habt

include hb in
theorem HasPool.staysPut (h : s.HasPool b) : t.HasPool b := by
  intro hab
  obtain ⟨hbefore, hpool⟩ := hb.unaborted hab
  rw [hpool]
  exact h hbefore

include hb in
theorem HasChan.staysPut {chan : Nat} (h : s.HasChan b chan) : t.HasChan b chan := by
  intro hab
  obtain ⟨hbefore, hpool⟩ := hb.unaborted hab
  rw [hpool]
  exact h hbefore

include ha hb

theorem ToolOk.staysPut {tool : ToolPc} (hpoll : (s.agents b).suspended = true ∨ Untouched s t)
    (h : s.ToolOk b tool) : t.ToolOk b tool := by
  cases tool with
  | idle => exact h
  | spawnEntry child prompt generation =>
      rcases hpoll with hpoll | ⟨hagents, hcounter, hstate, hint⟩
      · have hs := h.1
        rw [hpoll] at hs
        cases hs
      · simpa only [ToolOk, Session.generation, hagents, hcounter, hstate, hint] using h
  | spawnInsert child => exact Kin.evolves h ha hb
  | join child => exact Kin.evolves h ha hb
  | reinsert child reason => exact ⟨h.1.evolves ha hb, h.2.grows ha.grows hb.generation⟩
  | anyFinished => exact HasPool.staysPut hb h
  | anyTakeRx => exact HasPool.staysPut hb h
  | anyStill child => exact HasPool.staysPut hb h
  | anyWait chan => exact HasChan.staysPut hb h
  | anyPut chan signalled => exact ⟨h.1.staysPut hb, h.2⟩
  | anyAbort chan reason => exact ⟨h.1.staysPut hb, h.2.grows ha.grows hb.generation⟩
  | done result => exact Justified.grows ha.grows hb.generation h
  | _ => trivial

theorem FrameOk.staysPut {f : Frame} (h : s.FrameOk b f) : t.FrameOk b f := by
  refine ⟨fun c hc => (h.rest c hc).evolves ha hb, ?_⟩
  intro c hc
  obtain ⟨hkin, hend⟩ := h.current c hc
  have hlasts := ha.lasts c.id hkin.born
  exact ⟨hkin.evolves ha hb, hend.imp hlasts.aborted hlasts.finished⟩

theorem PhaseOk.staysPut {phase : Phase} (hphase : (s.agents b).phase = phase)
    (hpoll : (s.agents b).polling = false ∨ Untouched s t) (h : s.PhaseOk b phase) :
    t.PhaseOk b phase := by
  cases phase with
  | unborn =>
      rcases hb.pool with heq | ⟨hnone, -⟩
      · exact heq.trans h
      · exact hnone
  | head | input | interrupting => exact h
  | «over» result =>
      cases result with
      | error error => exact h
      | ok e =>
          obtain ⟨more, hmore⟩ := ha.log
          exact ⟨h.1, h.2.grows ha.grows hmore⟩
  | driving stage tool =>
      cases stage with
      | running r rs =>
          refine ⟨h.1, h.2.staysPut ha hb (hpoll.imp_left fun hp => ?_)⟩
          simpa [Agent.polling, hphase] using hp
      | calling | top | asking | ended => exact h
  | cancelling result walk =>
      refine ⟨h.1.grows ha.grows hb.generation, ?_, fun f hf => (h.2.frames f hf).staysPut ha hb⟩
      intro e he
      rcases h.2.entering e he with heq | ⟨hkin, hab⟩
      · exact .inl heq
      · exact .inr ⟨hkin.evolves ha hb, (ha.lasts e hkin.born).aborted hab⟩
  | returned result => exact Concluded.grows ha.grows hb.generation h
  | finishing result | completed result => exact fun hs => isSome_of_grows ha.grows (h hs)
  | dropped => exact hb.aborted h

theorem AgentOk.staysPut (hpoll : (s.agents b).polling = false ∨ Untouched s t) (h : s.AgentOk b) :
    t.AgentOk b := by
  constructor
  case phase =>
    rw [hb.phase]
    exact h.phase.staysPut ha hb rfl hpoll
  case wait =>
    intro w hw
    rw [hb.wait] at hw
    obtain ⟨hkind, hstate, hint⟩ := h.wait w hw
    refine ⟨?_, hstate, hint⟩
    rw [hb.phase, hb.generation]
    exact hkind
  case pool =>
    intro pool hpool
    rcases hb.pool with heq | ⟨hnone, -⟩
    · rw [heq] at hpool
      obtain ⟨hchildren, hchan, hrx⟩ := h.pool pool hpool
      refine ⟨fun c hc => (hchildren c hc).evolves ha hb, hchan, ?_⟩
      intro hab hnone
      rw [hb.phase]
      refine hrx ?_ hnone
      by_contra hs
      rw [hb.aborted (by simpa using hs)] at hab
      cases hab
    · rw [hnone] at hpool
      cases hpool
  case aborted =>
    intro hab
    rw [Agent.polling, hb.phase, hb.suspended]
    rcases hpoll with hpoll | ⟨hagents, -⟩
    · exact hpoll
    · rw [hagents] at hab
      exact h.aborted hab
  case snapshot =>
    rw [hb.generation]
    exact Nat.le_trans h.snapshot ha.grows.interrupts
  case root =>
    rw [hb.phase, hb.parent]
    exact h.root
  case own =>
    rw [hb.phase, hb.turn]
    exact h.own

end Frame

end Session

end Silo.Harness
