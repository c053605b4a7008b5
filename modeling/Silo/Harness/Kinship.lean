import Silo.Lib.TaskTreeSteps
import Silo.Harness.Places

namespace Silo.Harness

open Silo.Core Silo.Lib Silo.Lib.TaskTree

def ToolPc.held : ToolPc → Option AgentId
  | .spawnInsert child | .join child | .reinsert child _ => some child.id
  | _ => none

def Frame.toTree (f : Frame) : TaskTree.Frame AgentId :=
  ⟨f.owner, f.rest.map ChildHandle.id, f.current.map ChildHandle.id⟩

def Phase.life : Phase → Life AgentId
  | .unborn => .unborn
  | .head | .input | .interrupting | .over _ | .returned _ | .finishing _ => .returned
  | .driving _ tool => .accepting tool.held
  | .cancelling _ walk => .walking walk.entering (walk.frames.map Frame.toTree)
  | .completed _ | .dropped => .gone

namespace Session

/-- The session as a tree of tasks and child handles. -/
def tree (s : Session) : TaskTree.Tree AgentId where
  parent a := (s.agents a).parent
  life a := (s.agents a).phase.life
  aborted a := (s.agents a).aborted
  pool a := (s.children a).map ChildHandle.id

/-- The two sessions differ in the task `a` alone, and not in its place in the
tree. -/
structure Local (s t : Session) (a : AgentId) : Prop where
  others : ∀ b, b ≠ a → t.agents b = s.agents b
  parent : (t.agents a).parent = (s.agents a).parent
  aborted : (t.agents a).aborted = (s.agents a).aborted
  registry : t.registry = s.registry
  counter : t.counter = s.counter

variable {s t u : Session} {a : AgentId}

theorem Local.refl (s : Session) (a : AgentId) : Local s s a := ⟨fun _ _ => rfl, rfl, rfl, rfl, rfl⟩

theorem Local.trans (h : Local s t a) (h' : Local t u a) : Local s u a :=
  ⟨fun b hb => (h'.others b hb).trans (h.others b hb), h'.parent.trans h.parent,
    h'.aborted.trans h.aborted, h'.registry.trans h.registry, h'.counter.trans h.counter⟩

theorem local_setAgent (s : Session) {x : Agent} (hp : x.parent = (s.agents a).parent)
    (ha : x.aborted = (s.agents a).aborted) : Local s (s.setAgent a x) a :=
  ⟨fun b hb => by simp [setAgent, hb], by simpa [setAgent] using hp, by simpa [setAgent] using ha,
    rfl, rfl⟩

theorem local_record (s : Session) (a : AgentId) (records : List Record) :
    Local s (s.record records) a := ⟨fun _ _ => rfl, rfl, rfl, rfl, rfl⟩

theorem local_setSignal (s : Session) (a : AgentId) (sig : Signal AgentId) :
    Local s (s.setSignal sig) a := ⟨fun _ _ => rfl, rfl, rfl, rfl, rfl⟩

theorem local_goto (s : Session) (a : AgentId) (phase : Phase) : Local s (s.goto a phase) a :=
  local_setAgent s rfl rfl

theorem local_pend (s : Session) (a : AgentId) : Local s (s.pend a) a := local_setAgent s rfl rfl

theorem local_dropWait (s : Session) (a : AgentId) : Local s (s.dropWait a) a := by
  refine ⟨fun b hb => ?_, ?_, ?_, rfl, rfl⟩ <;> simp [dropWait, setAgent, *]

theorem local_advance (s : Session) (a : AgentId) (step : Advance) : Local s (s.advance a step) a := by
  refine ⟨fun b hb => ?_, ?_, ?_, rfl, rfl⟩ <;> simp [advance, record, setAgent, *]

theorem local_follow (s : Session) (a : AgentId) (step : TopLevel × List Record) :
    Local s (s.follow a step) a := by
  refine ⟨fun b hb => ?_, ?_, ?_, rfl, rfl⟩ <;> simp [follow, record, setAgent, *]

theorem local_pollWait (s : Session) (a : AgentId) (kind : WaitKind) (command : Bool) :
    Local s (s.pollWait a kind command).1 a ∧
      ((s.pollWait a kind command).1.agents a).phase = (s.agents a).phase := by
  rw [pollWait]
  simp only
  split <;> refine ⟨⟨fun b hb => ?_, ?_, ?_, rfl, rfl⟩, ?_⟩ <;> simp [setSignal, setAgent, *]

theorem children_congr (h : t.registry = s.registry) (b : AgentId) : t.children b = s.children b := by
  rw [children, children, h]

/-- A local step changes the life of its task and nothing else in the tree. -/
theorem Local.tree_eq (h : Local s t a) : t.tree = s.tree.setLife a (t.agents a).phase.life := by
  have hagents : ∀ b, (t.agents b).parent = (s.agents b).parent ∧
      (t.agents b).aborted = (s.agents b).aborted ∧
      (t.agents b).phase.life = Function.update s.tree.life a (t.agents a).phase.life b := by
    intro b
    by_cases hb : b = a
    · subst hb
      exact ⟨h.parent, h.aborted, by simp⟩
    · rw [h.others b hb, Function.update_of_ne hb]
      exact ⟨rfl, rfl, rfl⟩
  simp only [tree, Tree.setLife, Tree.mk.injEq]
  refine ⟨?_, ?_, ?_, ?_⟩
  · funext b
    exact (hagents b).1
  · funext b
    exact (hagents b).2.2
  · funext b
    exact (hagents b).2.1
  · funext b
    rw [children_congr h.registry]

theorem Local.tree_same (h : Local s t a) (hlife : (t.agents a).phase.life = (s.agents a).phase.life) :
    t.tree = s.tree := by
  rw [h.tree_eq, hlife]
  simp [Tree.setLife, tree]

end Session

end Silo.Harness
