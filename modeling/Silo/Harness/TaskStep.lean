import Mathlib.Algebra.GroupWithZero.Nat
import Silo.Harness.Timely

namespace Silo.Harness

open Silo.Core Silo.Lib

/-- The agent in whose name a record adds to the conversation or starts a tool
call. -/
def Record.speaker : Record → Option AgentId
  | .journal (.llmResponse agent _ _) | .event (.assistantText agent _) | .event (.toolUse agent _) =>
    some agent
  | _ => none

namespace Session

variable {s t u : Session} {a b : AgentId}

def Silent (records : List Record) : Prop := ∀ r ∈ records, r.command = none ∧ r.speaker = none

def Notes (s t : Session) : Prop :=
  ∃ more, t.log = s.log ++ more ∧ t.signal.applied = s.signal.applied ++ more.filterMap Record.command ∧
    ∀ r ∈ more, r.speaker = none

/-- What happens before a task moves on: it may only have looked at the signal,
and noted things in the log. -/
structure OnlyLooks (s t : Session) (a : AgentId) : Prop where
  others : ∀ b, b ≠ a → t.agents b = s.agents b
  agent : t.agents a = { s.agents a with wait := (t.agents a).wait }
  registry : t.registry = s.registry
  counter : t.counter = s.counter
  feeds : s.signal.Feeds t.signal
  notes : Notes s t

theorem Notes.refl (s : Session) : Notes s s := ⟨[], by simp, by simp, by simp⟩

theorem Notes.trans (h : Notes s t) (h' : Notes t u) : Notes s u := by
  obtain ⟨more, hlog, happ, hsilent⟩ := h
  obtain ⟨more', hlog', happ', hsilent'⟩ := h'
  refine ⟨more ++ more', ?_, ?_, ?_⟩
  · rw [hlog', hlog, List.append_assoc]
  · rw [happ', happ, List.filterMap_append, List.append_assoc]
  · intro r hr
    exact (List.mem_append.mp hr).elim (hsilent r) (hsilent' r)

theorem notes_records {records : List Record} (hlog : t.log = s.log ++ records)
    (happ : t.signal.applied = s.signal.applied) (h : Silent records) : Notes s t := by
  refine ⟨records, hlog, ?_, fun r hr => (h r hr).2⟩
  have hnone : records.filterMap Record.command = [] :=
    List.filterMap_eq_nil_iff.mpr fun r hr => (h r hr).1
  rw [hnone, List.append_nil, happ]

theorem notes_same (hlog : t.log = s.log) (happ : t.signal.applied = s.signal.applied) : Notes s t :=
  ⟨[], by simp [hlog], by simp [happ], by simp⟩

theorem notes_setSignal {sig : Signal AgentId} (h : s.signal.Feeds sig) :
    Notes s (s.setSignal sig) := by
  obtain ⟨new, hnew⟩ := h.news
  have hdrop : sig.applied.drop s.signal.applied.length = new := by
    rw [hnew]
    exact List.drop_left
  refine ⟨new.map fun command => .journal (.frontendCommand command), ?_, ?_, ?_⟩
  · rw [← hdrop]
    rfl
  · have hall : (Record.command ∘ fun command => .journal (.frontendCommand command)) = some := rfl
    rw [List.filterMap_map, hall, List.filterMap_some]
    exact hnew
  · intro r hr
    obtain ⟨command, -, rfl⟩ := List.mem_map.mp hr
    rfl

theorem OnlyLooks.refl (s : Session) (a : AgentId) : OnlyLooks s s a :=
  ⟨fun _ _ => rfl, rfl, rfl, rfl, .refl _, .refl s⟩

theorem OnlyLooks.trans (h : OnlyLooks s t a) (h' : OnlyLooks t u a) : OnlyLooks s u a := by
  refine ⟨fun b hb => (h'.others b hb).trans (h.others b hb), ?_, h'.registry.trans h.registry,
    h'.counter.trans h.counter, h.feeds.trans h'.feeds, h.notes.trans h'.notes⟩
  rw [h'.agent, h.agent]

theorem onlyLooks_record {records : List Record} (h : Silent records) (a : AgentId) :
    OnlyLooks s (s.record records) a :=
  ⟨fun _ _ => rfl, rfl, rfl, rfl, .refl _, notes_records rfl rfl h⟩

theorem onlyLooks_setSignal {sig : Signal AgentId} (h : s.signal.Feeds sig) (a : AgentId) :
    OnlyLooks s (s.setSignal sig) a :=
  ⟨fun _ _ => rfl, rfl, rfl, rfl, h, notes_setSignal h⟩

theorem onlyLooks_check (s : Session) (a : AgentId) : OnlyLooks s (s.setSignal s.signal.check.1) a :=
  onlyLooks_setSignal (Signal.feeds_drain s.signal) a

theorem onlyLooks_setWait (s : Session) (a : AgentId) (w : Option Wait) :
    OnlyLooks s (s.setAgent a { s.agents a with wait := w }) a := by
  refine ⟨?_, ?_, rfl, rfl, .refl _, notes_same rfl rfl⟩
  · intro b hb
    simp [setAgent, hb]
  · simp [setAgent]

theorem onlyLooks_dropWait (s : Session) (a : AgentId) : OnlyLooks s (s.dropWait a) a := by
  have hsig : OnlyLooks s { s with signal := s.signal.dropWait a } a := by
    refine ⟨fun _ _ => rfl, rfl, rfl, rfl, Signal.feeds_dropWait _ _, notes_same rfl ?_⟩
    simp only [Signal.dropWait]
    split <;> rfl
  exact hsig.trans (onlyLooks_setWait _ a none)

theorem onlyLooks_permits (s : Session) (a : AgentId) (permits : Nat) :
    OnlyLooks s { s with permits := permits } a :=
  ⟨fun _ _ => rfl, rfl, rfl, rfl, .refl _, .refl s⟩

theorem onlyLooks_chans (s : Session) (a : AgentId) (chans : Nat → List AgentId) :
    OnlyLooks s { s with chans := chans } a :=
  ⟨fun _ _ => rfl, rfl, rfl, rfl, .refl _, .refl s⟩

@[simp] theorem dropWait_wait (s : Session) (a : AgentId) : ((s.dropWait a).agents a).wait = none := by
  simp [dropWait, setAgent]

section Facts

variable (h : OnlyLooks s t a)

include h

theorem OnlyLooks.phase : (t.agents a).phase = (s.agents a).phase := by rw [h.agent]

theorem OnlyLooks.turn : (t.agents a).turn = (s.agents a).turn := by rw [h.agent]

theorem OnlyLooks.aborted : (t.agents a).aborted = (s.agents a).aborted := by rw [h.agent]

theorem OnlyLooks.messages : (t.agents a).messages = (s.agents a).messages := by rw [h.agent]

theorem OnlyLooks.generation : t.generation a = s.generation a := by
  rw [Session.generation, h.turn, Session.generation]

end Facts

/-- What the poll of a `select`'s wait finds, for a task whose wait is in
order: a reason to stop, or that there is none. -/
inductive Looked (s : Session) (a : AgentId) (kind : WaitKind) : Session × Option AbortReason → Prop
  | stop {u : Session} {reason : AbortReason} (onlyLooks : OnlyLooks s u a) (wait : (u.agents a).wait = none)
      (shutdown : ∀ message, reason = .shutdown message → u.signal.state = some message)
      (interrupted : reason = .interrupted → ∃ g, kind = .abort g ∧ g < u.signal.interrupts) :
      Looked s a kind (u, some reason)
  | clear {u : Session} {w : Wait} (onlyLooks : OnlyLooks s u a) (wait : (u.agents a).wait = some w)
      (state : u.signal.state = none) (interrupts : ∀ g, kind = .abort g → u.signal.interrupts ≤ g)
      (kindEq : w.kind = kind) (stateSeen : w.stateSeen = false)
      (interruptsSeen : ∀ g, kind = .abort g → w.interruptsSeen ≤ g) : Looked s a kind (u, none)

theorem looked_pollWait {kind : WaitKind} (command : Bool) (hok : s.AgentOk a)
    (hkind : (s.agents a).phase.waitKind (s.generation a) = some kind) :
    Looked s a kind (s.pollWait a kind command) := by
  have honlyLooks : ∀ sig w, s.signal.Feeds sig →
      OnlyLooks s ((s.setSignal sig).setAgent a { s.agents a with wait := w }) a := fun sig w hfeeds =>
    (onlyLooks_setSignal hfeeds a).trans (onlyLooks_setWait (s.setSignal sig) a w)
  have hready : ∀ sig reason, s.signal.Feeds sig → Signal.Heard kind sig (.ready reason) →
      Looked s a kind ((s.setSignal sig).setAgent a { s.agents a with wait := none }, some reason) := by
    intro sig reason hfeeds hheard
    cases hheard with
    | shutdown state =>
        refine .stop (honlyLooks sig none hfeeds) (by simp [setAgent]) ?_ (by simp)
        intro message hm
        cases hm
        exact state
    | interrupted kindEq due =>
        exact .stop (honlyLooks sig none hfeeds) (by simp [setAgent]) (by simp) fun _ => ⟨_, kindEq, due⟩
  have hpending : ∀ sig w, s.signal.Feeds sig → Signal.Heard kind sig (.pending w) →
      Looked s a kind ((s.setSignal sig).setAgent a { s.agents a with wait := some w }, none) := by
    intro sig w hfeeds hheard
    cases hheard with
    | pending state clear kindEq stateSeen interruptsSeen =>
        exact .clear (honlyLooks sig _ hfeeds) (by simp [setAgent]) state clear kindEq stateSeen interruptsSeen
  rw [pollWait]
  cases hw : (s.agents a).wait with
  | none =>
      have hfeeds := Signal.feeds_loop s.signal a kind
      have hheard := Signal.heard_loop s.signal a kind
      cases hloop : s.signal.loop a kind with
      | mk sig polled =>
          rw [hloop] at hfeeds hheard
          cases polled with
          | ready reason => exact hready sig reason hfeeds hheard
          | pending w => exact hpending sig w hfeeds hheard
  | some w =>
      obtain ⟨hk, hstate, hint⟩ := hok.wait w hw
      rw [hkind] at hk
      cases hk
      have hfeeds := Signal.feeds_poll s.signal a w command
      have hheard := Signal.heard_poll s.signal a command hstate hint
      dsimp only
      cases hpoll : s.signal.poll a w command with
      | mk sig polled =>
          rw [hpoll] at hfeeds hheard
          cases polled with
          | ready reason => exact hready sig reason hfeeds hheard
          | pending w => exact hpending sig w hfeeds hheard

end Session

def ToolPc.rank : ToolPc → Nat
  | .idle => 0
  | .done _ => 1
  | .sandboxDrain | .frontendDrain _ | .anyAbort _ _ | .reinsert _ _ | .spawnInsert _ => 2
  | .sandboxInterrupt | .frontendInterrupt _ | .anyWait _ | .join _ | .spawnEntry _ _ _ => 3
  | .sandbox | .frontend _ | .anyTakeRx | .collect _ => 4
  | .read _ | .anyFinished | .awaitKnown _ => 5
  | .anyStill _ | .awaitHas => 6
  | .anyPut _ _ => 7

def Frame.cost (f : Frame) : Nat := 1 + 5 * f.rest.length + f.current.toList.length

namespace Phase

/-- How far a turn that is to stop is from its end. A handle costs less with
every hand it goes through on its way out of the registry. -/
def cost : Phase → Nat
  | .driving (.running _ _) tool => 20 * (1 + tool.rank)
  | .driving _ _ => 20
  | .cancelling _ walk =>
    3 + 2 * walk.entering.toList.length + (walk.frames.map Frame.cost).sum
  | .returned _ => 2
  | .finishing _ => 1
  | _ => 0

/-- The answer is one of the future the task stands at, where there is nothing
else to wait for. -/
def fits : Phase → Answer → Bool
  | .driving _ .sandboxInterrupt, .sandboxInterrupt _ => true
  | .driving _ .sandboxInterrupt, _ => false
  | .driving _ .sandboxDrain, .sandbox _ | .driving _ (.read _), .sandbox _ => true
  | .driving _ .sandboxDrain, _ | .driving _ (.read _), _ => false
  | .driving _ (.frontendInterrupt _), .frontendInterrupt _ => true
  | .driving _ (.frontendInterrupt _), _ => false
  | .driving _ (.frontendDrain _), .frontend _ => true
  | .driving _ (.frontendDrain _), _ => false
  | _, _ => true

def joining : Phase → Option AgentId
  | .cancelling _ ⟨none, f :: _⟩ => f.current.map ChildHandle.id
  | _ => none

end Phase

def poolCost : Option ChildPool → Nat
  | none => 0
  | some pool => 3 + 6 * pool.children.length

def assistants (messages : List Message) : Nat := messages.countP fun m => m.role = .assistant

namespace Session

variable {s t u : Session} {a b : AgentId}

def weight (s : Session) (a : AgentId) : Nat := (s.agents a).phase.cost + poolCost (s.registry a)

/-- What a step of `a` adds to the log and to its own conversation: once the
turn is to stop, no assistant message and no tool call. -/
structure Words (s t : Session) (a : AgentId) : Prop where
  log : ∃ more, t.log = s.log ++ more ∧
    t.signal.applied = s.signal.applied ++ more.filterMap Record.command ∧
    ∀ r ∈ more, ∀ b, r.speaker = some b → b = a ∧ ¬ t.Due a
  messages : t.Due a → assistants (t.agents a).messages = assistants (s.agents a).messages

/-- What a step of `a` does for the end of its turn. -/
inductive Effort (s t : Session) (a : AgentId) (answer : Answer) : Prop
  | idle (phase : (t.agents a).phase = (s.agents a).phase) (pool : t.registry a = s.registry a)
      (excuse : (s.agents a).phase.inTurn = true → ¬ t.Due a ∨ (s.agents a).phase.fits answer = false ∨
        ∃ c, (s.agents a).phase.joining = some c ∧ (s.agents c).finished = false)
  | between (phase : (s.agents a).phase.inTurn = false) (lighter : t.weight a ≤ s.weight a)
  | free (undue : ¬ t.Due a)
  | lighter (lighter : t.weight a < s.weight a)
  | entered {e : AgentId} (kin : s.Kin a e) (lighter : t.weight a + t.weight e < s.weight a + s.weight e)

structure Newborn (t : Session) (b : AgentId) : Prop where
  ok : t.AgentOk b
  polling : (t.agents b).polling = false
  undue : ¬ t.Due b

structure TaskStep (s t : Session) (a : AgentId) (answer : Answer) : Prop where
  evolves : Evolves s t
  feeds : s.signal.Feeds t.signal
  staysPut : ∀ b, b ≠ a → (s.agents b).phase ≠ .unborn → StaysPut s t b
  ok : t.AgentOk a
  unborn : ∀ b, b ≠ a → (s.agents b).phase = .unborn →
    StaysPut s t b ∨ (Newborn t b ∧ b < t.counter)
  later : s.generation a ≤ t.generation a
  sameTurn : (s.agents a).phase.inTurn = true → t.generation a = s.generation a
  words : Words s t a
  effort : Effort s t a answer

structure Acting (s : Session) (a : AgentId) : Prop where
  ok : s.AgentOk a
  aborted : (s.agents a).aborted = false
  born : (s.agents a).phase ≠ .unborn
  unfinished : (s.agents a).finished = false

/-- A step of `a` that leaves the other tasks where they are. -/
structure Alone (s t : Session) (a : AgentId) : Prop where
  staysPut : ∀ b, b ≠ a → StaysPut s t b
  turn : (t.agents a).turn = (s.agents a).turn
  parent : (t.agents a).parent = (s.agents a).parent
  aborted : (t.agents a).aborted = (s.agents a).aborted
  counter : s.counter ≤ t.counter
  feeds : s.signal.Feeds t.signal

theorem Alone.generation (h : Alone s t a) : t.generation a = s.generation a := by
  rw [Session.generation, h.turn, Session.generation]

theorem Alone.evolves (h : Alone s t a) (hwords : Words s t a) (hact : Acting s a)
    (hborn : (t.agents a).phase ≠ .unborn) : Evolves s t := by
  obtain ⟨more, hlog, -⟩ := hwords.log
  refine ⟨?_, h.feeds.grows, ⟨more, hlog⟩, h.counter⟩
  intro c hc
  by_cases hca : c = a
  · subst hca
    refine ⟨hborn, fun _ => h.generation, by rw [h.aborted]; exact id, ?_⟩
    rw [hact.unfinished]
    intro hf
    cases hf
  · exact (h.staysPut c hca).lasts hc

theorem Kin.alone {c : AgentId} (hk : s.Kin a c) (h : Alone s t a) : t.Kin a c := by
  have hc : c ≠ a := Nat.ne_of_gt hk.younger
  refine ⟨hk.younger, ?_, ?_⟩
  · rw [(h.staysPut c hc).phase]
    exact hk.born
  · rw [(h.staysPut c hc).generation, h.generation]
    exact hk.generation

/-- A pool that stays is right after a step from where its receiver is not in use. -/
theorem poolOk_alone (hact : Acting s a) (hal : Alone s t a) (hreg : t.registry a = s.registry a)
    (hrx : (s.agents a).phase.usesRx = false) (pool : ChildPool) (hp : t.registry a = some pool) : t.PoolOk a pool := by
  rw [hreg] at hp
  obtain ⟨hkin, hchan, hdone⟩ := hact.ok.pool pool hp
  refine ⟨fun c hc => (hkin c hc).alone hal, hchan, fun _ hnone => ?_⟩
  have := hdone hact.aborted hnone
  rw [hrx] at this
  cases this

theorem Notes.words (h : Notes s t) (hmess : (t.agents a).messages = (s.agents a).messages) :
    Words s t a := by
  obtain ⟨more, hlog, happ, hsilent⟩ := h
  refine ⟨⟨more, hlog, happ, ?_⟩, fun _ => by rw [hmess]⟩
  intro r hr b hb
  rw [hsilent r hr] at hb
  cases hb

theorem taskStep_alone {answer : Answer} (hact : Acting s a) (hal : Alone s t a) (hwords : Words s t a)
    (hborn : (t.agents a).phase ≠ .unborn) (hphase : t.PhaseOk a (t.agents a).phase)
    (hwait : ∀ w, (t.agents a).wait = some w → t.WaitOk a w)
    (hpool : ∀ pool, t.registry a = some pool → t.PoolOk a pool)
    (heffort : Effort s t a answer) : TaskStep s t a answer := by
  refine ⟨hal.evolves hwords hact hborn, hal.feeds, fun b hb _ => hal.staysPut b hb, ⟨hphase, hwait, hpool, ?_, ?_, ?_, ?_⟩, fun b hb _ => .inl (hal.staysPut b hb),
    Nat.le_of_eq hal.generation.symm, fun _ => hal.generation, hwords, heffort⟩
  · rw [hal.aborted, hact.aborted]
    intro hab
    cases hab
  · rw [hal.generation]
    exact Nat.le_trans hact.ok.snapshot hal.feeds.grows.interrupts
  · intro _ hp
    rw [hal.parent] at hp
    exact hact.ok.root hact.born hp
  · intro _
    rw [hal.turn]
    exact hact.ok.own hact.born

/-- The task has noted what it saw, and goes to another place with another
pool. -/
theorem alone_goto (h : OnlyLooks s u a) (pool : Option ChildPool) (phase : Phase) :
    Alone s ((u.setPool a pool).goto a phase) a := by
  refine ⟨?_, ?_, ?_, ?_, Nat.le_of_eq h.counter.symm, h.feeds⟩
  · intro b hb
    apply staysPut_of_eq
    · simp [goto, setAgent, setPool, hb, h.others b hb]
    · simp [goto, setAgent, setPool, hb, h.registry]
  · simp [goto, setAgent, setPool, h.turn]
  · simp only [goto, setAgent, setPool, Function.update_self]
    rw [h.agent]
  · simp [goto, setAgent, setPool, h.aborted]

end Session

end Silo.Harness
