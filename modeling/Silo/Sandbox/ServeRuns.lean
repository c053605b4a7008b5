import Mathlib.Algebra.GroupWithZero.Nat
import Silo.Sandbox.ServeLoop

namespace Silo.Sandbox.Serve

open Silo.Lib

variable {cfg : Config} {s t : State} {task : Task} {k j : Nat} {id : UInt64} {signal : Signal} {l : Label}

def TaskStage.rank : TaskStage → Nat
  | spawning => 7
  | running => 6
  | ending .. | failing _ => 5
  | working | collecting .. => 4
  | ready _ => 3
  | answered => 0

def Task.rank (task : Task) : Nat := task.stage.rank

def Loop.rank : Loop → Nat
  | acking _ => 4
  | replying _ => 3
  | reading | awaitingDone => 1
  | ended | failed _ => 0

def State.work (s : State) : Nat :=
  12 * s.input.length + s.loop.rank + (s.tasks.map Task.rank).sum + s.queue.length +
    s.writing.toNat

theorem work_removeExec (s : State) (id : UInt64) (signal : Signal) : (s.removeExec id signal).work = s.work := by
  rw [State.removeExec]
  split
  · rfl
  · next k _ =>
      have hmap := map_modify (f := Task.rank) (g := fun task => { task with signal := signal }) (fun _ => rfl) s.tasks k
      simp [State.work, State.signal, hmap]

theorem work_setTask (hk : s.tasks[k]? = some task) (task' : Task) :
    (s.setTask k task').work + task.rank = s.work + task'.rank := by
  have hs := sum_map_set (n := Task.rank) (b := task') hk
  simp only [State.work, State.setTask]
  omega

theorem work_send {outgoing : Outgoing} (h : s.send outgoing = some t) : t.work ≤ s.work + 1 := by
  rw [State.send] at h
  split at h
  · simp only [Option.ite_none_right_eq_some, Option.some.injEq] at h
    obtain ⟨-, rfl⟩ := h
    simp only [State.work, List.length_append, List.length_singleton]
    omega
  · cases h
    exact Nat.le_succ _

theorem work_spawnTask (s : State) (request : HelperRequest) : (s.spawnTask request).work ≤ s.work + 7 := by
  rw [State.spawnTask]
  split
  · rw [← work_removeExec s request.id .dropped]
    simp only [State.work, List.map_append, List.map_cons, List.map_nil, List.sum_append, List.sum_cons, List.sum_nil,
      Task.rank, TaskStage.rank]
    omega
  · simp only [State.work, List.map_append, List.map_cons, List.map_nil, List.sum_append, List.sum_cons, List.sum_nil,
      Task.rank, TaskStage.rank]
    omega

theorem work_read (hl : s.loop = .reading) : (s.read cfg).work < s.work := by
  rw [State.read]
  cases hi : s.input with
  | nil =>
      simp only [State.work, hl, hi, Loop.rank]
      omega
  | cons bytes rest =>
      have hdrop : ({ s with input := rest, seen := s.seen ++ [bytes] } : State).work + 12 = s.work := by
        simp only [State.work, hi, List.length_cons]
        omega
      dsimp only
      split
      · simp only [State.work, hl, Loop.rank] at hdrop ⊢
        omega
      · rw [State.handleLine.eq_def]
        split
        · omega
        · simp only [State.work, hl, Loop.rank] at hdrop ⊢
          omega
        · simp only [State.work, hl, Loop.rank] at hdrop ⊢
          omega
        · next request _ _ =>
            have hs := work_spawnTask { s with input := rest, seen := s.seen ++ [bytes] } request
            omega

theorem exec_rank {event : ExecEvent} {stage : TaskStage} (he : task.exec event = some stage) :
    stage.rank < task.stage.rank := by
  cases event with
  | spawned | spawnError | stdioUnavailable | exited | waitError | timedOut =>
      simp only [Task.exec, Option.ite_none_right_eq_some, Option.some.injEq] at he
      obtain ⟨hs, rfl⟩ := he
      simp [hs, TaskStage.rank]
  | cancelled =>
      simp only [Task.exec, Option.ite_none_right_eq_some, Option.some.injEq] at he
      obtain ⟨⟨hs, -⟩, rfl⟩ := he
      simp [hs, TaskStage.rank]

theorem work_lt_of_setTask (hk : s.tasks[k]? = some task) {task' : Task} (hrank : task'.rank < task.rank) :
    (s.setTask k task').work < s.work := by
  have hw := work_setTask hk task'
  omega

theorem work_handleOp (hk : s.tasks[k]? = some task) (hs : task.stage = .working)
    (result : Except String HelperPayload) : (s.handleOp cfg k task result).work < s.work := by
  have hready {s' : State} {task' : Task} {result' : Except String HelperPayload}
      (hk' : s'.tasks[k]? = some task') (hs' : task'.stage = .working) :
      (s'.setTask k { task with stage := .ready result' }).work < s'.work :=
    work_lt_of_setTask hk' (by simp [Task.rank, hs', TaskStage.rank])
  rw [State.handleOp]
  split
  · exact hready hk hs
  · exact hready hk hs
  · split
    · next target _ _ =>
        obtain ⟨signal', hk'⟩ := getElem?_removeExec hk ‹UInt64› .fired
        have hw : ((s.removeExec _ _).setTask k { task with stage := .ready (.ok .ack) }).work < _ := hready hk' hs
        rwa [work_removeExec s] at hw
    · exact hready hk hs
  · exact hready hk hs

theorem work_unregister (hk : s.tasks[k]? = some task) (hu : s.unregister k task = some t) : t.work < s.work := by
  obtain ⟨signal', hk'⟩ := getElem?_removeExec hk task.id .dropped
  rw [← work_removeExec s task.id .dropped]
  simp only [State.unregister, hk'] at hu
  split at hu
  · next hs =>
      cases hu
      exact work_lt_of_setTask hk' (by simp [Task.rank, hs, TaskStage.rank])
  · next hs =>
      cases hu
      exact work_lt_of_setTask hk' (by simp [Task.rank, hs, TaskStage.rank])
  · cases hu

theorem work_reply (h : s.reply = some t) : t.work < s.work := by
  rw [State.reply] at h
  split at h
  · next hl =>
      have hw := work_send h
      simp only [State.work, hl, Loop.rank] at hw ⊢
      omega
  · next hl =>
      have hw := work_send h
      simp only [State.work, hl, Loop.rank] at hw ⊢
      omega
  · cases h

theorem work_next (hn : s.next cfg l = some t) : t.work < s.work := by
  cases l with
  | read =>
      simp only [State.next, Option.ite_none_right_eq_some, Option.some.injEq] at hn
      obtain ⟨hl, rfl⟩ := hn
      exact work_read hl
  | reply => exact work_reply hn
  | leave =>
      simp only [State.next, Option.ite_none_right_eq_some, Option.some.injEq] at hn
      obtain ⟨⟨hl, -⟩, rfl⟩ := hn
      simp only [State.work, hl, Loop.rank]
      omega
  | handleOp k result =>
      obtain ⟨task, hk, hn⟩ := Option.bind_eq_some_iff.mp hn
      simp only [Option.ite_none_right_eq_some, Option.some.injEq] at hn
      obtain ⟨hs, rfl⟩ := hn
      exact work_handleOp hk hs result
  | exec k event =>
      obtain ⟨task, hk, hn⟩ := Option.bind_eq_some_iff.mp hn
      obtain ⟨stage, he, rfl⟩ := Option.map_eq_some_iff.mp hn
      exact work_lt_of_setTask hk (exec_rank he)
  | unregister k =>
      obtain ⟨task, hk, hn⟩ := Option.bind_eq_some_iff.mp hn
      exact work_unregister hk hn
  | collect k stdout stderr truncated =>
      obtain ⟨task, hk, hn⟩ := Option.bind_eq_some_iff.mp hn
      rw [State.collect] at hn
      split at hn
      · next hs =>
          cases hn
          exact work_lt_of_setTask hk (by simp [Task.rank, hs, TaskStage.rank])
      · cases hn
  | answer k =>
      obtain ⟨task, hk, hn⟩ := Option.bind_eq_some_iff.mp hn
      rw [State.answer] at hn
      split at hn
      · next hs =>
          have hsend := work_send hn
          have hset := work_setTask hk { task with stage := .answered }
          simp only [Task.rank, hs, TaskStage.rank] at hset
          omega
      · cases hn
  | write =>
      simp only [State.next, State.write] at hn
      split at hn
      · next hq =>
          cases hn
          simp only [State.work, hq, List.length_cons]
          omega
      · cases hn
  | writeError =>
      simp only [State.next, State.writeError] at hn
      split at hn
      · next hw hq =>
          cases hn
          simp only [State.work, hw, hq, List.length_cons, List.length_nil, Bool.toNat_true, Bool.toNat_false]
          omega
      · cases hn

def Process.work (p : Process) : Nat := p.state.work + (!p.exited).toNat

theorem process_work_next {p q : Process} {m : Move} (hn : p.next cfg m = some q) : q.work < p.work := by
  cases m with
  | serve l =>
      rw [Process.next] at hn
      split at hn
      · cases hn
      · next hover =>
          obtain ⟨s, hs, rfl⟩ := Option.map_eq_some_iff.mp hn
          have hlt := work_next hs
          simp only [Process.work, Bool.not_eq_true] at hover ⊢
          rw [hover]
          omega
  | exit =>
      simp only [Process.next, Option.ite_none_right_eq_some, Option.some.injEq] at hn
      obtain ⟨⟨hover, -⟩, rfl⟩ := hn
      simp [Process.work, hover]

/-- The loop has left nothing to itself: it ends only after a `Shutdown` or the
last line, and what it awaits can come. -/
structure Afoot (cfg : Config) (s : State) : Prop where
  whole : ∀ message, s.loop ≠ .failed message
  ended : s.loop = .ended → s.input = [] ∨ ∃ bytes ∈ s.seen, cfg.isShutdown bytes = true
  stopping : (∃ id, s.loop = .acking id) ∨ s.loop = .awaitingDone → ∃ bytes ∈ s.seen, cfg.isShutdown bytes = true
  dropped : s.writing = false → s.queue = []
  awaits : s.loop = .awaitingDone → s.done = true ∨ ∃ outgoing ∈ s.queue, outgoing.done = true

/-- A line that is read is text. -/
def Legible (s : State) (l : Label) : Prop :=
  l = .read → ∀ bytes, s.input.head? = some bytes → (decodeLine bytes).isSome = true

/-- Every request that was read is answered, and the answer written. -/
def State.finished (s : State) : Bool :=
  decide (s.loop = .ended) && s.tasks.all (fun task => decide (task.stage = .answered)) && s.queue.isEmpty

/-- A line is text, and no request is in flight when the process ends. -/
def Answerable (p : Process) : Move → Prop
  | .serve l => Legible p.state l
  | .exit => p.state.finished = true

theorem afoot_start (cfg : Config) (stream : List UInt8) : Afoot cfg (start stream) := by
  constructor <;> simp [start]

theorem Afoot.tasks (h : Afoot cfg s) (tasks : List Task) (execs : List (UInt64 × Nat)) :
    Afoot cfg { s with tasks := tasks, execs := execs } :=
  ⟨h.whole, h.ended, h.stopping, h.dropped, h.awaits⟩

theorem afoot_removeExec (h : Afoot cfg s) (id : UInt64) (signal : Signal) (k : Nat) (task : Task) :
    Afoot cfg ((s.removeExec id signal).setTask k task) := by
  rw [removeExec_same]
  exact h.tasks ..

theorem afoot_send {outgoing : Outgoing} (hwhole : ∀ message, s.loop ≠ .failed message)
    (hended : s.loop = .ended → s.input = [] ∨ ∃ bytes ∈ s.seen, cfg.isShutdown bytes = true)
    (hstopping : (∃ id, s.loop = .acking id) ∨ s.loop = .awaitingDone →
      ∃ bytes ∈ s.seen, cfg.isShutdown bytes = true)
    (hdropped : s.writing = false → s.queue = [])
    (hawaits : s.loop = .awaitingDone →
      (s.done = true ∨ ∃ outgoing ∈ s.queue, outgoing.done = true) ∨ outgoing.done = true)
    (hs : s.send outgoing = some t) : Afoot cfg t := by
  rw [State.send] at hs
  split at hs
  · next hw =>
      simp only [Option.ite_none_right_eq_some, Option.some.injEq] at hs
      obtain ⟨-, rfl⟩ := hs
      refine ⟨hwhole, hended, hstopping, ?_, ?_⟩
      · intro hw'
        simp [hw] at hw'
      · intro hl
        obtain (hd | ⟨o, ho, hd⟩) | hd := hawaits hl
        · exact .inl hd
        · exact .inr ⟨o, List.mem_append_left _ ho, hd⟩
        · exact .inr ⟨outgoing, by simp, hd⟩
  · cases hs
    refine ⟨hwhole, hended, hstopping, hdropped, ?_⟩
    intro hl
    obtain (hd | hq) | hd := hawaits hl
    · exact .inl (by simp [hd])
    · exact .inr hq
    · exact .inl (by simp [hd])

theorem afoot_read (h : Afoot cfg s) (hl : s.loop = .reading) (hc : Legible s .read) : Afoot cfg (s.read cfg) := by
  rw [State.read]
  cases hi : s.input with
  | nil =>
      refine ⟨by simp, ?_, by simp, h.dropped, by simp⟩
      intro _
      exact .inl rfl
  | cons bytes rest =>
      obtain ⟨line, hd⟩ := Option.isSome_iff_exists.mp (hc rfl bytes (by simp [hi]))
      have hreading (s' : State) (hloop : s'.loop = .reading ∨ ∃ response, s'.loop = .replying response)
          (hw : s'.writing = s.writing) (hq : s'.queue = s.queue) : Afoot cfg s' := by
        obtain hloop | ⟨response, hloop⟩ := hloop
        · exact ⟨by simp [hloop], by simp [hloop], by simp [hloop], by rw [hw, hq]; exact h.dropped, by simp [hloop]⟩
        · exact ⟨by simp [hloop], by simp [hloop], by simp [hloop], by rw [hw, hq]; exact h.dropped, by simp [hloop]⟩
      simp only [hd]
      rw [State.handleLine.eq_def]
      split
      · exact hreading _ (.inl hl) rfl rfl
      · exact hreading _ (.inr ⟨_, rfl⟩) rfl rfl
      · next hcl =>
          refine ⟨by simp, by simp, ?_, h.dropped, by simp⟩
          intro _
          exact ⟨bytes, by simp, by simp [Config.isShutdown, hd, hcl]⟩
      · rw [State.spawnTask]
        split
        · have hsame := removeExec_same { s with input := rest, seen := s.seen ++ [bytes] }
          refine hreading _ (.inl ?_) ?_ ?_
          · dsimp only
            rw [hsame]
            exact hl
          · dsimp only
            rw [hsame]
          · dsimp only
            rw [hsame]
        · exact hreading _ (.inl hl) rfl rfl

theorem afoot_next (h : Afoot cfg s) (hc : Legible s l) (hn : s.next cfg l = some t) : Afoot cfg t := by
  cases l with
  | read =>
      simp only [State.next, Option.ite_none_right_eq_some, Option.some.injEq] at hn
      obtain ⟨hl, rfl⟩ := hn
      exact afoot_read h hl hc
  | reply =>
      simp only [State.next, State.reply] at hn
      split at hn
      · exact afoot_send (s := { s with loop := .reading }) (by simp) (by simp) (by simp) h.dropped (by simp) hn
      · next hl =>
          refine afoot_send (s := { s with loop := .awaitingDone }) (by simp) (by simp) ?_ h.dropped (by simp) hn
          intro _
          exact h.stopping (.inl ⟨_, hl⟩)
      · cases hn
  | leave =>
      simp only [State.next, Option.ite_none_right_eq_some, Option.some.injEq] at hn
      obtain ⟨⟨hl, -⟩, rfl⟩ := hn
      refine ⟨by simp, ?_, by simp, h.dropped, by simp⟩
      intro _
      exact .inr (h.stopping (.inr hl))
  | handleOp k result =>
      obtain ⟨task, hk, hn⟩ := Option.bind_eq_some_iff.mp hn
      simp only [Option.ite_none_right_eq_some, Option.some.injEq] at hn
      obtain ⟨hs, rfl⟩ := hn
      rw [State.handleOp]
      split
      · exact h.tasks ..
      · exact h.tasks ..
      · split
        · exact afoot_removeExec h ..
        · exact h.tasks ..
      · exact h.tasks ..
  | exec k event =>
      obtain ⟨task, hk, hn⟩ := Option.bind_eq_some_iff.mp hn
      obtain ⟨stage, he, rfl⟩ := Option.map_eq_some_iff.mp hn
      exact h.tasks ..
  | unregister k =>
      obtain ⟨task, hk, hn⟩ := Option.bind_eq_some_iff.mp hn
      obtain ⟨signal', hk'⟩ := getElem?_removeExec hk task.id .dropped
      simp only [State.unregister, hk'] at hn
      split at hn
      · cases hn
        exact afoot_removeExec h ..
      · cases hn
        exact afoot_removeExec h ..
      · cases hn
  | collect k stdout stderr truncated =>
      obtain ⟨task, hk, hn⟩ := Option.bind_eq_some_iff.mp hn
      rw [State.collect] at hn
      split at hn
      · cases hn
        exact h.tasks ..
      · cases hn
  | answer k =>
      obtain ⟨task, hk, hn⟩ := Option.bind_eq_some_iff.mp hn
      rw [State.answer] at hn
      split at hn
      · refine afoot_send (s := s.setTask k { task with stage := .answered }) h.whole h.ended h.stopping h.dropped ?_ hn
        intro hl
        exact .inl (h.awaits hl)
      · cases hn
  | write =>
      simp only [State.next, State.write] at hn
      split at hn
      · next hw hq =>
          cases hn
          refine ⟨h.whole, h.ended, h.stopping, ?_, ?_⟩
          · intro hw'
            simp [hw] at hw'
          · intro hl
            obtain hd | ⟨o, ho, hd⟩ := h.awaits hl
            · exact .inl (by simp [hd])
            · rw [hq] at ho
              obtain rfl | ho := List.mem_cons.mp ho
              · exact .inl (by simp [hd])
              · exact .inr ⟨o, ho, hd⟩
      · cases hn
  | writeError =>
      simp only [State.next, State.writeError] at hn
      split at hn
      · cases hn
        refine ⟨h.whole, h.ended, h.stopping, fun _ => rfl, ?_⟩
        intro hl
        obtain hd | ⟨o, ho, hd⟩ := h.awaits hl
        · exact .inl (by simp [hd])
        · refine .inl ?_
          simp only [Bool.or_eq_true, List.any_eq_true]
          exact .inr ⟨o, ho, hd⟩
      · cases hn

theorem send_enabled (hroom : s.queue = []) (outgoing : Outgoing) : ∃ t, s.send outgoing = some t := by
  rw [State.send]
  split
  · simp [hroom, capacity]
  · exact ⟨_, rfl⟩

theorem task_enabled (hroom : s.queue = []) (hk : s.tasks[k]? = some task) (hs : task.stage ≠ .answered) :
    ∃ l t, s.next cfg l = some t := by
  cases hstage : task.stage with
  | working => exact ⟨.handleOp k (.ok .ack), Option.isSome_iff_exists.mp (by simp [State.next, hk, hstage])⟩
  | spawning => exact ⟨.exec k .spawned, Option.isSome_iff_exists.mp (by simp [State.next, hk, Task.exec, hstage])⟩
  | running => exact ⟨.exec k .timedOut, Option.isSome_iff_exists.mp (by simp [State.next, hk, Task.exec, hstage])⟩
  | ending code timedOut cancelled =>
      obtain ⟨signal', hk'⟩ := getElem?_removeExec hk task.id .dropped
      exact ⟨.unregister k, Option.isSome_iff_exists.mp (by simp [State.next, hk, State.unregister, hk', hstage])⟩
  | failing message =>
      obtain ⟨signal', hk'⟩ := getElem?_removeExec hk task.id .dropped
      exact ⟨.unregister k, Option.isSome_iff_exists.mp (by simp [State.next, hk, State.unregister, hk', hstage])⟩
  | collecting code timedOut cancelled =>
      exact ⟨.collect k "" "" false, Option.isSome_iff_exists.mp (by simp [State.next, hk, State.collect, hstage])⟩
  | ready result =>
      obtain ⟨t, ht⟩ := send_enabled (s := s.setTask k { task with stage := .answered }) hroom ⟨⟨task.id, result⟩, false⟩
      exact ⟨.answer k, t, by simpa [State.next, hk, State.answer, hstage] using ht⟩
  | answered => exact absurd hstage hs

theorem loop_enabled (h : Afoot cfg s) (hroom : s.queue = []) (hl : s.loop ≠ .ended) :
    ∃ l t, s.next cfg l = some t := by
  cases hloop : s.loop with
  | reading => exact ⟨.read, Option.isSome_iff_exists.mp (by simp [State.next, hloop])⟩
  | replying response =>
      obtain ⟨t, ht⟩ := send_enabled (s := { s with loop := .reading }) hroom ⟨response, false⟩
      exact ⟨.reply, t, by simpa [State.next, State.reply, hloop] using ht⟩
  | acking id =>
      obtain ⟨t, ht⟩ := send_enabled (s := { s with loop := .awaitingDone }) hroom ⟨⟨id, .ok .ack⟩, true⟩
      exact ⟨.reply, t, by simpa [State.next, State.reply, hloop] using ht⟩
  | awaitingDone =>
      have hdone : s.done = true := by simpa [hroom] using h.awaits hloop
      exact ⟨.leave, Option.isSome_iff_exists.mp (by simp [State.next, hloop, hdone])⟩
  | ended => exact absurd hloop hl
  | failed message => exact absurd hloop (h.whole message)

theorem progresses (h : Afoot cfg s) (hf : s.finished = false) : ∃ l t, s.next cfg l = some t := by
  cases hq : s.queue with
  | cons outgoing rest =>
      cases hw : s.writing with
      | true => exact ⟨.write, Option.isSome_iff_exists.mp (by simp [State.next, State.write, hw, hq])⟩
      | false => simp [h.dropped hw] at hq
  | nil =>
      by_cases hall : s.tasks.all (fun task => decide (task.stage = .answered)) = true
      · apply loop_enabled h hq
        intro hl
        simp [State.finished, hl, hall, hq] at hf
      · simp only [List.all_eq_true, decide_eq_true_eq, not_forall] at hall
        obtain ⟨task, hmem, hs⟩ := hall
        obtain ⟨k, hk⟩ := List.mem_iff_getElem?.mp hmem
        exact task_enabled hq hk hs

theorem process_progresses {p : Process} (h : Afoot cfg p.state) (hover : p.exited = false) :
    ∃ m q, p.next cfg m = some q := by
  cases hf : p.state.finished with
  | true =>
      have hended : p.state.loop = .ended := by
        simp only [State.finished, Bool.and_eq_true, decide_eq_true_eq] at hf
        exact hf.1.1
      exact ⟨.exit, _, if_pos ⟨hover, by rw [hended]; rfl⟩⟩
  | false =>
      obtain ⟨l, t, hn⟩ := progresses h hf
      exact ⟨.serve l, ⟨t, false⟩, by simp [Process.next, hover, hn]⟩

/-- What the helper promises. Every run is finite (each step leaves less to do) and can stop only
when the process has ended, so `answers` says that each line asking for a response gets exactly
one. -/
structure Serves (cfg : Config) (p : Process) : Prop where
  survives : (∀ message, p.state.loop ≠ .failed message) ∧
    (p.state.loop = .ended → p.state.input = [] ∨ ∃ bytes ∈ p.state.seen, cfg.isShutdown bytes = true)
  answers : p.state.writing = true →
    (∀ id, (p.state.written.map HelperResponse.id).count id ≤ (p.state.seen.filterMap cfg.lineId).count id) ∧
    (p.exited = true → (p.state.written.map HelperResponse.id).Perm (p.state.seen.filterMap cfg.lineId))
  runs : (p.exited = false → ∃ m q, p.next cfg m = some q) ∧ ∀ m q, p.next cfg m = some q → q.work < p.work
  cancels : p.exited = false → ∀ (k : Nat) (task : Task) (j : Nat) (exec : Task),
    p.state.tasks[k]? = some task → task.stage = .working → task.op = .cancel exec.id →
    p.state.tasks[j]? = some exec → (exec.stage = .spawning ∨ exec.stage = .running) → exec.signal = .idle →
    ∀ result, ∃ q, p.next cfg (.serve (.handleOp k result)) = some q ∧
      q.state.tasks[k]? = some { task with stage := .ready (.ok .ack) }
  forgets : ∀ (k : Nat) (task : Task), p.state.tasks[k]? = some task → task.stage = .answered →
    ∀ e ∈ p.state.execs, e.1 ≠ task.id

theorem Registered.forgets (h : Registered cfg s) (hk : s.tasks[k]? = some task) (hs : task.stage = .answered)
    {e : UInt64 × Nat} (he : e ∈ s.execs) : e.1 ≠ task.id := by
  intro heq
  obtain ⟨owner, howner, hid⟩ := h.owned e he
  have hindex := h.index hk howner (heq.symm.trans hid.symm)
  have hnot := h.unheld hk (by rw [hs]; rfl)
  exact hnot (by rwa [← heq, hindex])

theorem Registered.cancels {exec : Task} (h : Registered cfg s) (hk : s.tasks[k]? = some task)
    (hw : task.stage = .working) (hop : task.op = .cancel exec.id) (hj : s.tasks[j]? = some exec)
    (hlive : exec.stage = .spawning ∨ exec.stage = .running) (hidle : exec.signal = .idle)
    (result : Except String HelperPayload) : ∃ t, s.next cfg (.handleOp k result) = some t ∧
      t.tasks[k]? = some { task with stage := .ready (.ok .ack) } := by
  have hreg : exec.stage.registered = true := by
    obtain hs | hs := hlive <;> (rw [hs]; rfl)
  have hmem := (h.held j exec hj).mp ⟨hreg, hidle⟩
  obtain ⟨i, hl⟩ : ∃ i, s.execs.lookup exec.id = some i := by
    apply Option.isSome_iff_exists.mp
    exact List.lookup_isSome_iff.mpr ⟨_, hmem, by simp⟩
  have hlt : k < (s.removeExec exec.id .fired).tasks.length :=
    (List.getElem?_eq_some_iff.mp (removeExec_other h hk (h.unheld hk (by rw [hw]; rfl)))).1
  have hn : s.next cfg (.handleOp k result) = some (s.handleOp cfg k task result) := by
    simp [State.next, hk, hw]
  refine ⟨_, hn, ?_⟩
  simp [State.handleOp, hop, hl, State.setTask, hlt]

theorem owed_of_finished (h : s.finished = true) (id : UInt64) : s.owed id = 0 := by
  simp only [State.finished, Bool.and_eq_true, decide_eq_true_eq, List.all_eq_true, List.isEmpty_iff] at h
  obtain ⟨⟨hl, ht⟩, hq⟩ := h
  have hcount : s.tasks.countP (Task.owes id) = 0 := by
    apply List.countP_eq_zero.mpr
    intro task hmem
    simp [Task.owes, ht task hmem]
  simp [State.owed, hl, hq, hcount, Loop.owes]

theorem Balanced.answers (h : Balanced cfg s []) (hw : s.writing = true) :
    (∀ id, (s.written.map HelperResponse.id).count id ≤ (s.seen.filterMap cfg.lineId).count id) ∧
    (s.finished = true → (s.written.map HelperResponse.id).Perm (s.seen.filterMap cfg.lineId)) := by
  constructor
  · intro id
    have hb := h hw id
    omega
  · intro hf
    apply List.perm_iff_count.mpr
    intro id
    have hb := h hw id
    simpa [owed_of_finished hf] using hb

/-- What every run keeps: the loop's bookkeeping, and an end with nothing in flight. -/
structure Kept (cfg : Config) (p : Process) : Prop where
  registered : Registered cfg p.state
  balanced : Balanced cfg p.state []
  afoot : Afoot cfg p.state
  finished : p.exited = true → p.state.finished = true

theorem kept_start {stream : List UInt8} (h : ((lines stream).filterMap cfg.requestId).Nodup) :
    Kept cfg ⟨start stream, false⟩ := by
  refine ⟨⟨?_, by simp [start], by simp [start]⟩, ?_, afoot_start cfg stream, by simp⟩
  · simpa [start] using h
  · intro _ id
    simp [start, State.owed, Loop.owes]

theorem kept_next {p q : Process} {m : Move} (h : Kept cfg p) (hm : Answerable p m) (hn : p.next cfg m = some q) :
    Kept cfg q := by
  cases m with
  | serve l =>
      rw [Process.next] at hn
      split at hn
      · cases hn
      · obtain ⟨s, hs, rfl⟩ := Option.map_eq_some_iff.mp hn
        exact ⟨registered_next h.registered hs, balanced_next h.balanced hs, afoot_next h.afoot hm hs, by simp⟩
  | exit =>
      simp only [Process.next, Option.ite_none_right_eq_some, Option.some.injEq] at hn
      obtain ⟨-, rfl⟩ := hn
      exact ⟨h.registered, h.balanced, h.afoot, fun _ => hm⟩

/-- The helper keeps its promises in every run in which its lines are text and it does not end with a
request in flight. -/
theorem serves_of_answerable {p : Process} (h : (machine cfg).ReachableUnder Answerable p) : Serves cfg p := by
  have hkept : Kept cfg p := by
    refine h.invariant (I := Kept cfg) ?_ fun h hm hn => kept_next h hm hn
    rintro _ ⟨stream, hdistinct, rfl⟩
    exact kept_start hdistinct
  constructor
  · exact ⟨hkept.afoot.whole, hkept.afoot.ended⟩
  · intro hw
    obtain ⟨hle, hperm⟩ := hkept.balanced.answers hw
    exact ⟨hle, fun hover => hperm (hkept.finished hover)⟩
  · exact ⟨process_progresses hkept.afoot, fun m q hn => process_work_next hn⟩
  · intro hover k task j exec hk hw hop hj hlive hidle result
    obtain ⟨t, ht, htask⟩ := hkept.registered.cancels hk hw hop hj hlive hidle result
    exact ⟨⟨t, false⟩, by simp [Process.next, hover, ht], htask⟩
  · intro k task hk hs e he
    exact hkept.registered.forgets hk hs he

/-- `serde_json` on the lines of the runs below. -/
def helloOnly : Config where
  fromStr := fun line =>
    if line = "\x7b\"id\":1,\"op\":\"hello\"\x7d\n" then
      some (.object [("id", .number (.posInt 1)), ("op", .string "hello")])
    else none
  fromValue := fun value =>
    match (value.get "id").bind asU64, (value.get "op").bind Core.Json.asStr with
    | some id, some "hello" => .ok ⟨id, .hello⟩
    | _, _ => .error "missing field"
  version := "0.1.0"
  pid := 42

def helloLine : List UInt8 := "\x7b\"id\":1,\"op\":\"hello\"\x7d\n".toUTF8.toList

def answerable (p : Process) : Move → Bool
  | .serve .read => p.state.input.head?.all fun bytes => (decodeLine bytes).isSome
  | .serve _ => true
  | .exit => p.state.finished

theorem of_answerable (p : Process) (m : Move) (h : answerable p m = true) : Answerable p m := by
  cases m with
  | serve l =>
      rintro rfl bytes hb
      simpa [answerable, hb] using h
  | exit => exact h

/-- A line that is not JSON is skipped, and the request after it answered before the end. -/
theorem serves_of_answerable_hello : ∃ p, (machine helloOnly).ReachableUnder Answerable p ∧
    (p.exited = true ∧ p.state.written = [⟨1, .ok (.hello "0.1.0" 42)⟩]) ∧ Serves helloOnly p := by
  obtain ⟨p, hr, hp⟩ := Machine.exists_of_runChecked (M := machine helloOnly)
    (s := ⟨start ([104, 105, 10] ++ helloLine), false⟩) answerable
    [.serve .read, .serve .read, .serve (.handleOp 0 (.ok .ack)), .serve (.answer 0), .serve .write, .serve .read, .exit]
    (fun p => p.exited && decide (p.state.written = [⟨1, .ok (.hello "0.1.0" 42)⟩]))
    ⟨_, by decide +kernel, rfl⟩ (by decide +kernel)
  have hr := hr.mono of_answerable
  exact ⟨p, hr, by simpa using hp, serves_of_answerable hr⟩

/-- A byte that is no UTF-8 ends the loop before a request. -/
theorem illegible_line_ends_loop : ∃ p, (machine helloOnly).Reachable p ∧ ¬ Serves helloOnly p := by
  obtain ⟨p, hr, hp⟩ := Machine.exists_of_run (M := machine helloOnly) (s := ⟨start ([255, 10] ++ helloLine), false⟩)
    [.serve .read]
    (fun p => decide (p.state.loop = .failed "read error: stream did not contain valid UTF-8"))
    ⟨_, by decide +kernel, rfl⟩ rfl
  refine ⟨p, hr, ?_⟩
  intro h
  exact h.survives.1 _ (of_decide_eq_true hp)

/-- The end of the stream right after a request takes its response along. -/
example : ∃ p, (machine helloOnly).Reachable p ∧
    (p.exited && p.state.written.isEmpty && decide (p.state.seen = [helloLine])) = true :=
  Machine.exists_of_run (M := machine helloOnly) (s := ⟨start helloLine, false⟩)
    [.serve .read, .serve .read, .exit] _ ⟨_, by decide +kernel, rfl⟩ (by decide +kernel)

end Silo.Sandbox.Serve
