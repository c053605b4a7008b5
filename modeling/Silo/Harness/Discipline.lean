import Silo.Harness.Kinship

namespace Silo.Harness

open Silo.Core Silo.Lib Silo.Lib.TaskTree

/-- The next step of the tool call starts a child, or moves a child handle into
or out of the child registry. -/
def ToolPc.movesHandles : ToolPc → Bool
  | .spawnEntry _ _ _ | .spawnInsert _ | .collect _ | .reinsert _ _ => true
  | _ => false

def ToolPc.usesRx : ToolPc → Bool
  | .anyWait _ | .anyPut _ _ | .anyAbort _ _ => true
  | _ => false

def ToolPc.spawning : ToolPc → Option AgentId
  | .spawnEntry child _ _ => some child.id
  | _ => none

namespace Phase

def movesHandles : Phase → Bool
  | .driving _ tool => tool.movesHandles
  | .cancelling _ walk => walk.entering.isSome
  | _ => false

/-- The task holds no child handle outside the registry. -/
def released : Phase → Bool
  | .driving _ tool => tool.held.isNone
  | .cancelling _ walk => walk.frames.isEmpty
  | _ => true

def aborts (pick : AgentId) : Phase → Option AgentId
  | .cancelling _ ⟨none, ⟨_, rest, none, _, _⟩ :: _⟩ =>
    (rest.find? fun c => c.id = pick).map ChildHandle.id
  | _ => none

def topLevel : Phase → Bool
  | .head | .input | .interrupting | .over _ => true
  | _ => false

def closed (a : AgentId) : Phase → Bool
  | .cancelling _ walk => decide (walk.entering ≠ some a)
  | .returned _ | .finishing _ | .unborn => true
  | phase => phase.topLevel

def spawning : Phase → Option AgentId
  | .driving _ tool => tool.spawning
  | _ => none

def toolOk : Phase → Bool
  | .driving (.running _ _) _ => true
  | .driving _ .idle => true
  | .driving _ _ => false
  | _ => true

end Phase

namespace Session

/-- Where cancellation is safe: a child is aborted only while it holds no child
handle itself, and an aborted task moves none any more. -/
def disciplined (s : Session) : Act → Bool
  | .step a choice =>
    !((s.agents a).aborted && (s.agents a).phase.movesHandles) &&
      ((s.agents a).phase.aborts choice.pick).all fun c => (s.agents c).phase.released
  | _ => true

structure Kept (s : Session) : Prop where
  sound : s.tree.Sound
  tools : ∀ a, (s.agents a).phase.toolOk = true
  fresh : ∀ a, s.counter ≤ a → (s.agents a).phase = .unborn
  spawning : ∀ a c, (s.agents a).phase.spawning = some c →
    (s.agents c).phase = .unborn ∧ c < s.counter
  spawnOnce : ∀ a b c, (s.agents a).phase.spawning = some c → (s.agents b).phase.spawning = some c →
    a = b
  doneRx : ∀ a stage tool pool, (s.agents a).phase = .driving stage tool → tool.usesRx = false →
    s.registry a = some pool → pool.doneRx.isSome = true
  closed : ∀ a, (s.agents a).phase.closed a = true → s.registry a = none
  top : ∀ a, (s.agents a).phase.topLevel = true → (s.agents a).parent = none
  child : ∀ a, (s.agents a).aborted = true → (s.agents a).parent ≠ none

variable {s t : Session} {a : AgentId}

structure Same (s t : Session) : Prop where
  phase : ∀ b, (t.agents b).phase = (s.agents b).phase
  parent : ∀ b, (t.agents b).parent = (s.agents b).parent
  aborted : ∀ b, (t.agents b).aborted = (s.agents b).aborted
  registry : t.registry = s.registry
  counter : t.counter = s.counter

theorem Local.same (h : Local s t a) (hp : (t.agents a).phase = (s.agents a).phase) : Same s t := by
  have hall : ∀ b, (t.agents b).phase = (s.agents b).phase ∧ (t.agents b).parent = (s.agents b).parent ∧
      (t.agents b).aborted = (s.agents b).aborted := by
    intro b
    by_cases hb : b = a
    · subst hb
      exact ⟨hp, h.parent, h.aborted⟩
    · rw [h.others b hb]
      exact ⟨rfl, rfl, rfl⟩
  exact ⟨fun b => (hall b).1, fun b => (hall b).2.1, fun b => (hall b).2.2, h.registry, h.counter⟩

theorem Same.tree_eq (h : Same s t) : t.tree = s.tree := by
  have hchildren : ∀ b, t.children b = s.children b := children_congr h.registry
  simp only [tree, h.phase, h.parent, h.aborted, hchildren]

theorem Same.kept (h : Same s t) (hk : Kept s) : Kept t := by
  refine ⟨?_, ?_, ?_, ?_, ?_, ?_, ?_, ?_, ?_⟩
  · rw [h.tree_eq]
    exact hk.sound
  all_goals simp only [h.phase, h.parent, h.aborted, h.registry, h.counter]
  · exact hk.tools
  · exact hk.fresh
  · exact hk.spawning
  · exact hk.spawnOnce
  · exact hk.doneRx
  · exact hk.closed
  · exact hk.top
  · exact hk.child

theorem Same.trans {u : Session} (h : Same s t) (h' : Same t u) : Same s u :=
  ⟨fun b => (h'.phase b).trans (h.phase b), fun b => (h'.parent b).trans (h.parent b),
    fun b => (h'.aborted b).trans (h.aborted b), h'.registry.trans h.registry,
    h'.counter.trans h.counter⟩

theorem same_record (s : Session) (records : List Record) : Same s (s.record records) :=
  ⟨fun _ => rfl, fun _ => rfl, fun _ => rfl, rfl, rfl⟩

theorem same_setSignal (s : Session) (sig : Signal AgentId) : Same s (s.setSignal sig) :=
  ⟨fun _ => rfl, fun _ => rfl, fun _ => rfl, rfl, rfl⟩

theorem same_signal (s : Session) (sig : Signal AgentId) : Same s { s with signal := sig } :=
  ⟨fun _ => rfl, fun _ => rfl, fun _ => rfl, rfl, rfl⟩

theorem same_permits (s : Session) (permits : Nat) : Same s { s with permits := permits } :=
  ⟨fun _ => rfl, fun _ => rfl, fun _ => rfl, rfl, rfl⟩

theorem same_chans (s : Session) (chans : Nat → List AgentId) : Same s { s with chans := chans } :=
  ⟨fun _ => rfl, fun _ => rfl, fun _ => rfl, rfl, rfl⟩

theorem same_pend (s : Session) (a : AgentId) : Same s (s.pend a) :=
  (local_pend s a).same (pend_phase s a)

theorem same_dropWait (s : Session) (a : AgentId) : Same s (s.dropWait a) :=
  (local_dropWait s a).same (dropWait_phase s a)

theorem same_pollWait (s : Session) (a : AgentId) (kind : WaitKind) (command : Bool) :
    Same s (s.pollWait a kind command).1 :=
  (local_pollWait s a kind command).1.same (local_pollWait s a kind command).2

/-- A step of the task `a` as the others see it: they stay where they are, and
can at most lose their pool or, having a parent, be aborted. -/
structure Moved (s t : Session) (a : AgentId) : Prop where
  phase : ∀ b, b ≠ a → (t.agents b).phase = (s.agents b).phase
  parent : ∀ b, (t.agents b).parent = (s.agents b).parent
  aborted : ∀ b, (t.agents b).aborted = true → (s.agents b).aborted = true ∨ (s.agents b).parent ≠ none
  pools : ∀ b, b ≠ a → t.registry b = s.registry b ∨ t.registry b = none
  counter : t.counter = s.counter

/-- What a step of the task `a` has to see to for itself. -/
structure Admits (s t : Session) (a : AgentId) : Prop where
  was : (s.agents a).phase ≠ .unborn
  tools : (t.agents a).phase.toolOk = true
  spawning : (t.agents a).phase.spawning = none
  doneRx : ∀ stage tool pool, (t.agents a).phase = .driving stage tool → tool.usesRx = false →
    t.registry a = some pool → pool.doneRx.isSome = true
  closed : (t.agents a).phase.closed a = true → t.registry a = none
  top : (t.agents a).phase.topLevel = true → (s.agents a).parent = none
  moves : t.tree = s.tree ∨ s.tree.Step t.tree

theorem kept_moved (h : Kept s) (hm : Moved s t a) (ha : Admits s t a) : Kept t := by
  have hcase : ∀ b, (b = a) ∨ (b ≠ a ∧ (t.agents b).phase = (s.agents b).phase) := by
    intro b
    by_cases hb : b = a
    · exact .inl hb
    · exact .inr ⟨hb, hm.phase b hb⟩
  have hspawn : ∀ b c, (t.agents b).phase.spawning = some c → (s.agents b).phase.spawning = some c := by
    intro b c hc
    rcases hcase b with rfl | ⟨-, hb⟩
    · rw [ha.spawning] at hc
      cases hc
    · rwa [hb] at hc
  constructor
  case sound =>
    rcases ha.moves with heq | hstep
    · rw [heq]
      exact h.sound
    · exact h.sound.step hstep
  case tools =>
    intro b
    rcases hcase b with rfl | ⟨-, hb⟩
    · exact ha.tools
    · rw [hb]
      exact h.tools b
  case fresh =>
    intro b hb
    rw [hm.counter] at hb
    rcases hcase b with rfl | ⟨-, hba⟩
    · exact absurd (h.fresh b hb) ha.was
    · rw [hba]
      exact h.fresh b hb
  case spawning =>
    intro b c hc
    obtain ⟨hu, hlt⟩ := h.spawning b c (hspawn b c hc)
    rcases hcase c with rfl | ⟨-, hca⟩
    · exact absurd hu ha.was
    · rw [hca, hm.counter]
      exact ⟨hu, hlt⟩
  case spawnOnce =>
    intro b b' c hb hb'
    exact h.spawnOnce b b' c (hspawn b c hb) (hspawn b' c hb')
  case doneRx =>
    intro b stage tool pool hphase huses hreg
    rcases hcase b with rfl | ⟨hb, hba⟩
    · exact ha.doneRx stage tool pool hphase huses hreg
    · rw [hba] at hphase
      rcases hm.pools b hb with heq | hnone
      · exact h.doneRx b stage tool pool hphase huses (heq.symm.trans hreg)
      · rw [hnone] at hreg
        cases hreg
  case closed =>
    intro b hclosed
    rcases hcase b with rfl | ⟨hb, hba⟩
    · exact ha.closed hclosed
    · rw [hba] at hclosed
      rcases hm.pools b hb with heq | hnone
      · exact heq.trans (h.closed b hclosed)
      · exact hnone
  case top =>
    intro b hb
    rw [hm.parent]
    rcases hcase b with rfl | ⟨-, hba⟩
    · exact ha.top hb
    · rw [hba] at hb
      exact h.top b hb
  case child =>
    intro b hb
    rw [hm.parent]
    exact (hm.aborted b hb).elim (h.child b) id

/-- The two sessions differ in the task `a` and its pool alone, and not in its
place in the tree. -/
structure Near (s t : Session) (a : AgentId) : Prop where
  others : ∀ b, b ≠ a → t.agents b = s.agents b
  pools : ∀ b, b ≠ a → t.registry b = s.registry b
  parent : (t.agents a).parent = (s.agents a).parent
  aborted : (t.agents a).aborted = (s.agents a).aborted
  counter : t.counter = s.counter

theorem Near.moved (h : Near s t a) : Moved s t a := by
  refine ⟨fun b hb => by rw [h.others b hb], ?_, ?_, fun b hb => .inl (h.pools b hb), h.counter⟩
  · intro b
    by_cases hb : b = a
    · rw [hb, h.parent]
    · rw [h.others b hb]
  · intro b hab
    by_cases hb : b = a
    · rw [hb, h.aborted] at hab
      rw [hb]
      exact .inl hab
    · rw [h.others b hb] at hab
      exact .inl hab

theorem Local.near (h : Local s t a) : Near s t a :=
  ⟨h.others, fun b _ => by rw [h.registry], h.parent, h.aborted, h.counter⟩

theorem kept_near (h : Kept s) (hn : Near s t a) (ha : Admits s t a) : Kept t :=
  kept_moved h hn.moved ha

theorem life_eq (s : Session) (a : AgentId) : s.tree.life a = (s.agents a).phase.life := rfl

theorem kept_driving {stage stage' : Stage} {tool tool' : ToolPc} (h : Kept s) (hl : Local s t a)
    (hphase : (s.agents a).phase = .driving stage tool)
    (hphase' : (t.agents a).phase = .driving stage' tool') (hheld : tool'.held = tool.held)
    (hok : (Phase.driving stage' tool').toolOk = true) (hspawn : tool'.spawning = none)
    (hrx : tool'.usesRx = false → tool.usesRx = false) : Kept t := by
  refine kept_near h hl.near ⟨by simp [hphase], by rw [hphase']; exact hok,
    by rw [hphase']; exact hspawn, ?_, ?_, ?_, .inl ?_⟩
  · intro st tl pool hp huses hreg
    rw [hphase'] at hp
    cases hp
    rw [hl.registry] at hreg
    exact h.doneRx a stage tool pool hphase (hrx huses) hreg
  · simp [hphase', Phase.closed, Phase.topLevel]
  · simp [hphase', Phase.topLevel]
  · apply hl.tree_same
    rw [hphase, hphase', Phase.life, Phase.life, hheld]

theorem kept_cancelling {stage : Stage} {tool : ToolPc} {result : Except HarnessError TurnOutcome}
    (h : Kept s) (hl : Local s t a) (hphase : (s.agents a).phase = .driving stage tool)
    (hphase' : (t.agents a).phase = .cancelling result ⟨some a, []⟩) (hheld : tool.held = none) :
    Kept t := by
  refine kept_near h hl.near ⟨by simp [hphase], by rw [hphase']; rfl, by rw [hphase']; rfl, ?_, ?_, ?_,
    .inr ?_⟩
  · simp [hphase']
  · simp [hphase', Phase.closed]
  · simp [hphase', Phase.topLevel]
  · rw [hl.tree_eq, hphase']
    refine .close ?_
    rw [life_eq, hphase, Phase.life, hheld]

theorem kept_toTool {stage stage' : Stage} {tool tool' : ToolPc} (h : Kept s)
    (hphase : (s.agents a).phase = .driving stage tool) (hheld : tool'.held = tool.held)
    (hok : (Phase.driving stage' tool').toolOk = true) (hspawn : tool'.spawning = none)
    (hrx : tool'.usesRx = false → tool.usesRx = false) : Kept (s.toTool a stage' tool') :=
  kept_driving h (local_goto s a _) hphase (toTool_phase _ _ _ _) hheld hok hspawn hrx

theorem kept_advance {stage : Stage} {tool : ToolPc} (h : Kept s)
    (hphase : (s.agents a).phase = .driving stage tool) (hheld : tool.held = none)
    (hrx : tool.usesRx = false) (step : Advance) : Kept (s.advance a step) := by
  have hl := local_advance s a step
  have hphase' := advance_phase s a step
  cases hs : step.1.stage with
  | ended result =>
      rw [hs] at hphase'
      exact kept_cancelling h hl hphase hphase' hheld
  | top | asking | calling | running =>
      rw [hs] at hphase'
      exact kept_driving h hl hphase hphase' hheld.symm rfl rfl fun _ => hrx

end Session

end Silo.Harness
