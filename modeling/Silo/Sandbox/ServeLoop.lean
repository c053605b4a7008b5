import Silo.Sandbox.ServeExecs

namespace Silo.Sandbox.Serve

open Silo.Lib

variable {cfg : Config} {s t : State} {task : Task} {k j : Nat} {id : UInt64} {signal : Signal}

def Config.lineId (cfg : Config) (bytes : List UInt8) : Option UInt64 :=
  match (decodeLine bytes).map cfg.classify with
  | some (.malformed id _) => some id
  | some (.request request) => some request.id
  | _ => none

def Config.isShutdown (cfg : Config) (bytes : List UInt8) : Bool :=
  match (decodeLine bytes).map cfg.classify with
  | some (.request ⟨_, .shutdown⟩) => true
  | _ => false

def Task.owes (id : UInt64) (task : Task) : Bool := decide (task.id = id) && decide (task.stage ≠ .answered)

def Loop.owes : Loop → Option UInt64
  | replying response => some response.id
  | acking id => some id
  | reading | awaitingDone | ended | failed _ => none

/-- The responses with `id` that are on their way. -/
def State.owed (s : State) (id : UInt64) : Nat :=
  s.tasks.countP (Task.owes id) + s.loop.owes.toList.count id + (s.queue.map fun o => o.response.id).count id

/-- Each line that asks for a response has one, written or on its way; those in
`hand` are between two places. -/
def Balanced (cfg : Config) (s : State) (hand : List UInt64) : Prop :=
  s.writing = true → ∀ id, (s.written.map HelperResponse.id).count id + s.owed id + hand.count id =
    (s.seen.filterMap cfg.lineId).count id

@[simp] theorem removeExec_owes (s : State) (id id' : UInt64) (signal : Signal) :
    (s.removeExec id signal).tasks.countP (Task.owes id') = s.tasks.countP (Task.owes id') := by
  rw [State.removeExec]
  split
  · rfl
  · exact countP_modify (p := Task.owes id') (g := fun task => { task with signal := signal }) (fun _ => rfl) s.tasks _

theorem removeExec_same (s : State) (id : UInt64) (signal : Signal) :
    s.removeExec id signal = { s with
      tasks := (s.removeExec id signal).tasks, execs := (s.removeExec id signal).execs } := by
  rw [State.removeExec]
  split <;> rfl

theorem balanced_send {outgoing : Outgoing} (h : Balanced cfg s [outgoing.response.id])
    (hs : s.send outgoing = some t) : Balanced cfg t [] := by
  rw [State.send] at hs
  split at hs
  · simp only [Option.ite_none_right_eq_some, Option.some.injEq] at hs
    obtain ⟨-, rfl⟩ := hs
    intro hw id
    have hb := h hw id
    simp only [State.owed, List.map_append, List.map_cons, List.map_nil, List.count_append, List.count_nil] at hb ⊢
    omega
  · next hw =>
      cases hs
      intro hw'
      exact absurd hw' hw

theorem balanced_setTask (h : Balanced cfg s []) (hk : s.tasks[k]? = some task) {task' : Task}
    (hid : task'.id = task.id) (hold : task.stage ≠ .answered) (hnew : task'.stage ≠ .answered) :
    Balanced cfg (s.setTask k task') [] := by
  intro hw id
  have hb := h hw id
  have hc := countP_set (p := Task.owes id) (b := task') hk
  simp only [Task.owes, hid, hold, hnew, ne_eq, not_false_eq_true, decide_true, Bool.and_true] at hc
  simp only [State.owed, State.setTask] at hb ⊢
  split at hc <;> omega

theorem balanced_answered (h : Balanced cfg s []) (hk : s.tasks[k]? = some task) (hold : task.stage ≠ .answered) :
    Balanced cfg (s.setTask k { task with stage := .answered }) [task.id] := by
  intro hw id
  have hb := h hw id
  have hc := countP_set (p := Task.owes id) (b := { task with stage := .answered }) hk
  simp only [Task.owes, hold, ne_eq, not_false_eq_true, decide_true, Bool.and_true, not_true_eq_false,
    decide_false, Bool.and_false] at hc
  simp only [State.owed, State.setTask, List.count_cons, List.count_nil, beq_iff_eq] at hb ⊢
  grind

theorem balanced_removeExec (h : Balanced cfg s []) (id : UInt64) (signal : Signal) :
    Balanced cfg (s.removeExec id signal) [] := by
  rw [removeExec_same]
  intro hw id'
  have hb := h hw id'
  simpa [State.owed] using hb

theorem lineId_cases {bytes : List UInt8} {line : String} (hd : decodeLine bytes = some line) :
    cfg.lineId bytes = match cfg.classify line with
      | .skipped => none
      | .malformed id _ => some id
      | .request request => some request.id := by
  simp only [Config.lineId, hd, Option.map_some]
  cases cfg.classify line <;> rfl

theorem balanced_spawnTask {request : HelperRequest} (h : Balanced cfg s [request.id]) :
    Balanced cfg (s.spawnTask request) [] := by
  have hpush (s' : State) (hw : s'.writing = s.writing) (hwr : s'.written = s.written) (hq : s'.queue = s.queue)
      (hse : s'.seen = s.seen) (hl : s'.loop = s.loop)
      (ht : ∀ id, s'.tasks.countP (Task.owes id) = s.tasks.countP (Task.owes id) + [request.id].count id) :
      Balanced cfg s' [] := by
    intro hw' id
    have hb := h (hw ▸ hw') id
    simp only [State.owed, hwr, hq, hse, hl, ht, List.count_nil] at hb ⊢
    omega
  have hone (id : UInt64) (stage : TaskStage) (hs : stage ≠ .answered) :
      [Task.mk request.id request.op .idle stage].countP (Task.owes id) = [request.id].count id := by
    by_cases hid : request.id = id <;> simp [Task.owes, hs, hid]
  rw [State.spawnTask]
  split
  · have hsame := removeExec_same s request.id .dropped
    apply hpush _
    · dsimp only
      rw [hsame]
    · dsimp only
      rw [hsame]
    · dsimp only
      rw [hsame]
    · dsimp only
      rw [hsame]
    · dsimp only
      rw [hsame]
    · intro id
      simp only [List.countP_append, removeExec_owes]
      rw [hone id .spawning (by simp)]
  · refine hpush _ rfl rfl rfl rfl rfl ?_
    intro id
    simp only [List.countP_append]
    rw [hone id .working (by simp)]

theorem balanced_read (h : Balanced cfg s []) (hl : s.loop = .reading) : Balanced cfg (s.read cfg) [] := by
  rw [State.read]
  cases hi : s.input with
  | nil =>
      intro hw id
      have hb := h hw id
      simpa [State.owed, hl, Loop.owes] using hb
  | cons bytes rest =>
      have hnext (s' : State) (hs : s' = { s with input := rest, seen := s.seen ++ [bytes] }) :
          Balanced cfg s' (cfg.lineId bytes).toList := by
        subst hs
        intro hw id
        have hb := h hw id
        simp only [State.owed, List.filterMap_append, List.count_append] at hb ⊢
        cases hline : cfg.lineId bytes <;> simp [hline] at hb ⊢ <;> omega
      have hnext := hnext _ rfl
      dsimp only
      cases hd : decodeLine bytes with
      | none =>
          intro hw id
          have hb := hnext hw id
          simpa [Config.lineId, hd, State.owed, hl, Loop.owes] using hb
      | some line =>
          dsimp only
          rw [lineId_cases hd] at hnext
          rw [State.handleLine.eq_def]
          split
          · next hc =>
              rw [hc] at hnext
              exact hnext
          · next hc =>
              rw [hc] at hnext
              intro hw id
              have hb := hnext hw id
              simp only [State.owed, hl, Loop.owes, Option.toList_none, Option.toList_some, List.count_nil] at hb ⊢
              omega
          · next hc =>
              rw [hc] at hnext
              intro hw id
              have hb := hnext hw id
              simp only [State.owed, hl, Loop.owes, Option.toList_none, Option.toList_some, List.count_nil] at hb ⊢
              omega
          · next hc =>
              rw [hc] at hnext
              exact balanced_spawnTask hnext

theorem balanced_next {l : Label} (h : Balanced cfg s []) (hn : s.next cfg l = some t) : Balanced cfg t [] := by
  cases l with
  | read =>
      simp only [State.next, Option.ite_none_right_eq_some, Option.some.injEq] at hn
      obtain ⟨hl, rfl⟩ := hn
      exact balanced_read h hl
  | reply =>
      simp only [State.next, State.reply] at hn
      split at hn
      · next hl =>
          refine balanced_send ?_ hn
          intro hw id
          have hb := h hw id
          simpa [State.owed, hl, Loop.owes, Nat.add_assoc, Nat.add_comm, Nat.add_left_comm] using hb
      · next hl =>
          refine balanced_send ?_ hn
          intro hw id
          have hb := h hw id
          simpa [State.owed, hl, Loop.owes, Nat.add_assoc, Nat.add_comm, Nat.add_left_comm] using hb
      · cases hn
  | leave =>
      simp only [State.next, Option.ite_none_right_eq_some, Option.some.injEq] at hn
      obtain ⟨⟨hl, -⟩, rfl⟩ := hn
      intro hw id
      have hb := h hw id
      simpa [State.owed, hl, Loop.owes] using hb
  | handleOp k result =>
      obtain ⟨task, hk, hn⟩ := Option.bind_eq_some_iff.mp hn
      simp only [Option.ite_none_right_eq_some, Option.some.injEq] at hn
      obtain ⟨hs, rfl⟩ := hn
      rw [State.handleOp]
      split
      · exact balanced_setTask h hk rfl (by simp [hs]) (by simp)
      · exact balanced_setTask h hk rfl (by simp [hs]) (by simp)
      · split
        · obtain ⟨signal', hk'⟩ := getElem?_removeExec hk ‹UInt64› .fired
          exact balanced_setTask (balanced_removeExec h _ _) hk' rfl (by simp [hs]) (by simp)
        · exact balanced_setTask h hk rfl (by simp [hs]) (by simp)
      · exact balanced_setTask h hk rfl (by simp [hs]) (by simp)
  | exec k event =>
      obtain ⟨task, hk, hn⟩ := Option.bind_eq_some_iff.mp hn
      obtain ⟨stage, he, rfl⟩ := Option.map_eq_some_iff.mp hn
      obtain ⟨hold, hnew⟩ := exec_registered he
      refine balanced_setTask h hk rfl ?_ ?_
      · intro hs
        simp [hs, TaskStage.registered] at hold
      · intro hs
        simp only at hs
        simp [hs, TaskStage.registered] at hnew
  | unregister k =>
      obtain ⟨task, hk, hn⟩ := Option.bind_eq_some_iff.mp hn
      obtain ⟨signal', hk'⟩ := getElem?_removeExec hk task.id .dropped
      simp only [State.unregister, hk'] at hn
      split at hn
      · next hs =>
          cases hn
          exact balanced_setTask (balanced_removeExec h _ _) hk' rfl (by simp [hs]) (by simp)
      · next hs =>
          cases hn
          exact balanced_setTask (balanced_removeExec h _ _) hk' rfl (by simp [hs]) (by simp)
      · cases hn
  | collect k stdout stderr truncated =>
      obtain ⟨task, hk, hn⟩ := Option.bind_eq_some_iff.mp hn
      rw [State.collect] at hn
      split at hn
      · next hs =>
          cases hn
          exact balanced_setTask h hk rfl (by simp [hs]) (by simp)
      · cases hn
  | answer k =>
      obtain ⟨task, hk, hn⟩ := Option.bind_eq_some_iff.mp hn
      rw [State.answer] at hn
      split at hn
      · next hs => exact balanced_send (balanced_answered h hk (by simp [hs])) hn
      · cases hn
  | write =>
      simp only [State.next, State.write] at hn
      split at hn
      · next hq =>
          cases hn
          intro hw id
          have hb := h hw id
          simp only [State.owed, hq, List.map_append, List.map_cons, List.map_nil, List.count_append,
            List.count_cons, List.count_nil] at hb ⊢
          omega
      · cases hn
  | writeError =>
      simp only [State.next, State.writeError] at hn
      split at hn
      · cases hn
        intro hw
        cases hw
      · cases hn

end Silo.Sandbox.Serve
