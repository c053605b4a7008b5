import Silo.Lib.Lists
import Silo.Sandbox.Serve

namespace Silo.Sandbox.Serve

open Silo.Lib

variable {cfg : Config} {s t : State} {task : Task} {k j : Nat} {id : UInt64} {signal : Signal}
  {e : UInt64 × Nat}

/-- The execution has its cancellation channel: `unregister_exec` is ahead. -/
def TaskStage.registered : TaskStage → Bool
  | spawning | running | ending .. | failing _ => true
  | working | collecting .. | ready _ | answered => false

structure Registered (cfg : Config) (s : State) : Prop where
  distinct : (s.tasks.map Task.id ++ s.input.filterMap cfg.requestId).Nodup
  held : ∀ k task, s.tasks[k]? = some task →
    (task.stage.registered = true ∧ task.signal = .idle ↔ (task.id, k) ∈ s.execs)
  owned : ∀ e ∈ s.execs, ∃ task, s.tasks[e.2]? = some task ∧ task.id = e.1

theorem Registered.index (h : Registered cfg s) {task' : Task} (hk : s.tasks[k]? = some task)
    (hj : s.tasks[j]? = some task') (hid : task.id = task'.id) : k = j := by
  have hnodup := (List.nodup_append.mp h.distinct).1
  obtain ⟨hlt, hget⟩ := List.getElem?_eq_some_iff.mp hk
  obtain ⟨hlt', hget'⟩ := List.getElem?_eq_some_iff.mp hj
  have heq : (s.tasks.map Task.id)[k]? = (s.tasks.map Task.id)[j]? := by simp [hk, hj, hid]
  exact (List.getElem?_inj (by simpa using hlt) hnodup).mp heq

theorem Registered.congr (h : Registered cfg s) (ht : t.tasks = s.tasks) (he : t.execs = s.execs)
    (hi : t.input = s.input) : Registered cfg t := by
  constructor
  · rw [ht, hi]
    exact h.distinct
  · rw [ht, he]
    exact h.held
  · rw [ht, he]
    exact h.owned

theorem getElem?_signal (s : State) (k j : Nat) (signal : Signal) :
    (s.signal k signal).tasks[j]? =
      s.tasks[j]?.map fun task => if k = j then { task with signal := signal } else task := by
  simp only [State.signal, List.getElem?_modify]
  cases s.tasks[j]? <;> by_cases h : k = j <;> simp [h]

theorem signal_ids (s : State) (k : Nat) (signal : Signal) :
    (s.signal k signal).tasks.map Task.id = s.tasks.map Task.id := by
  apply List.ext_getElem?
  intro j
  rw [List.getElem?_map, getElem?_signal, List.getElem?_map]
  cases s.tasks[j]? with
  | none => rfl
  | some task =>
      by_cases h : k = j <;> simp [h]

theorem setTask_ids (hk : s.tasks[k]? = some task) (task' : Task) (hid : task'.id = task.id) :
    (s.setTask k task').tasks.map Task.id = s.tasks.map Task.id := by
  obtain ⟨hlt, hget⟩ := List.getElem?_eq_some_iff.mp hk
  apply List.ext_getElem?
  intro j
  simp only [State.setTask, List.getElem?_map, List.getElem?_set]
  split
  · subst j
    simp [hid, hlt, hget]
  · rfl

theorem mem_of_lookup (h : s.execs.lookup id = some j) : (id, j) ∈ s.execs := by
  obtain ⟨before, after, heq, -⟩ := List.lookup_eq_some_iff.mp h
  simp [heq]

theorem registered_removeExec (h : Registered cfg s) {signal : Signal} (hs : signal ≠ .idle) (id : UInt64) :
    Registered cfg (s.removeExec id signal) := by
  rw [State.removeExec]
  cases hl : s.execs.lookup id with
  | none => exact h
  | some k =>
      have hmem := mem_of_lookup hl
      obtain ⟨owner, howner, hid⟩ := h.owned _ hmem
      constructor
      · dsimp only
        rw [signal_ids]
        exact h.distinct
      · intro j task hj
        change (s.signal k signal).tasks[j]? = _ at hj
        rw [getElem?_signal] at hj
        obtain ⟨old, hold, rfl⟩ := Option.map_eq_some_iff.mp hj
        have hheld := h.held j old hold
        by_cases hkj : k = j
        · subst hkj
          have heq : owner = old := Option.some.inj (howner.symm.trans hold)
          subst heq
          simp [hs, hid]
        · have hne : (old.id, j) ∈ s.execs → old.id ≠ id := by
            intro _ heq
            exact hkj (h.index howner hold (hid.trans heq.symm))
          simp only [hkj, if_false, hheld, List.mem_filter, decide_eq_true_eq]
          exact ⟨fun he => ⟨he, hne he⟩, fun he => he.1⟩
      · intro e he
        obtain ⟨he, -⟩ := List.mem_filter.mp he
        obtain ⟨task, htask, hid⟩ := h.owned e he
        change ∃ task, (s.signal k signal).tasks[e.2]? = some task ∧ task.id = e.1
        rw [getElem?_signal, htask]
        by_cases hke : k = e.2 <;> simp [hke, hid]

theorem registered_setTask (h : Registered cfg s) (hk : s.tasks[k]? = some task) {stage : TaskStage}
    (hstage : stage.registered = true ∧ task.signal = .idle ↔ (task.id, k) ∈ s.execs) :
    Registered cfg (s.setTask k { task with stage := stage }) := by
  obtain ⟨hlt, hget⟩ := List.getElem?_eq_some_iff.mp hk
  constructor
  · rw [setTask_ids hk { task with stage := stage } rfl]
    exact h.distinct
  · intro j other hj
    simp only [State.setTask, List.getElem?_set] at hj
    split at hj
    · subst j
      simp only [Option.some.injEq] at hj
      subst other
      exact hstage
    · exact h.held j other hj
  · intro e he
    obtain ⟨other, hother, hid⟩ := h.owned e he
    simp only [State.setTask, List.getElem?_set]
    split
    · next heq =>
        subst heq
        rw [hk] at hother
        cases hother
        simp [hid]
    · exact ⟨other, hother, hid⟩

theorem removeExec_own (s : State) (task : Task) (signal : Signal) (k : Nat) :
    (task.id, k) ∉ (s.removeExec task.id signal).execs := by
  intro hmem
  rw [State.removeExec] at hmem
  cases hl : s.execs.lookup task.id with
  | none =>
      rw [hl] at hmem
      have hne := List.lookup_eq_none_iff.mp hl _ hmem
      simp at hne
  | some j =>
      rw [hl] at hmem
      have hne := (List.mem_filter.mp hmem).2
      simp at hne

theorem getElem?_removeExec (hk : s.tasks[k]? = some task) (id : UInt64) (signal : Signal) :
    ∃ signal', (s.removeExec id signal).tasks[k]? = some { task with signal := signal' } := by
  rw [State.removeExec]
  split
  · exact ⟨task.signal, hk⟩
  · next j _ =>
      change ∃ signal', (s.signal j signal).tasks[k]? = _
      rw [getElem?_signal, hk]
      by_cases h : j = k
      · exact ⟨signal, by simp [h]⟩
      · exact ⟨task.signal, by simp [h]⟩

theorem registered_unregister (h : Registered cfg s) (hk : s.tasks[k]? = some task)
    (hu : s.unregister k task = some t) : Registered cfg t := by
  have hr := registered_removeExec h (by simp : Signal.dropped ≠ .idle) task.id
  have hnot := removeExec_own s task .dropped k
  obtain ⟨signal', hk'⟩ := getElem?_removeExec hk task.id .dropped
  simp only [State.unregister, hk'] at hu
  split at hu
  · cases hu
    exact registered_setTask hr hk' (by simp [TaskStage.registered, hnot])
  · cases hu
    exact registered_setTask hr hk' (by simp [TaskStage.registered, hnot])
  · cases hu

theorem Registered.unheld (h : Registered cfg s) (hk : s.tasks[k]? = some task)
    (hs : task.stage.registered = false) : (task.id, k) ∉ s.execs := by
  intro hmem
  have hheld := ((h.held k task hk).mpr hmem).1
  rw [hs] at hheld
  cases hheld

theorem removeExec_other (h : Registered cfg s) (hk : s.tasks[k]? = some task) (hnot : (task.id, k) ∉ s.execs) :
    (s.removeExec id signal).tasks[k]? = some task := by
  rw [State.removeExec]
  split
  · exact hk
  · next j hl =>
      change (s.signal j signal).tasks[k]? = _
      have hne : j ≠ k := by
        rintro rfl
        obtain ⟨owner, howner, hid⟩ := h.owned _ (mem_of_lookup hl)
        rw [hk] at howner
        cases howner
        exact hnot (hid ▸ mem_of_lookup hl)
      simp [getElem?_signal, hk, hne]

theorem removeExec_execs (h : e ∈ (s.removeExec id signal).execs) : e ∈ s.execs := by
  rw [State.removeExec] at h
  split at h
  · exact h
  · exact (List.mem_filter.mp h).1

theorem registered_handleOp (h : Registered cfg s) (hk : s.tasks[k]? = some task) (hs : task.stage = .working)
    (result : Except String HelperPayload) : Registered cfg (s.handleOp cfg k task result) := by
  have hnot := h.unheld hk (by rw [hs]; rfl)
  have hready {stage : TaskStage} (hst : stage.registered = false) :
      Registered cfg (s.setTask k { task with stage := stage }) :=
    registered_setTask h hk (by simp [hst, hnot])
  rw [State.handleOp]
  split
  · exact hready rfl
  · exact hready rfl
  · split
    · have hr := registered_removeExec h (by simp : Signal.fired ≠ .idle) ‹UInt64›
      apply registered_setTask hr (removeExec_other h hk hnot)
      simpa [TaskStage.registered] using fun he => hnot (removeExec_execs he)
    · exact hready rfl
  · exact hready rfl

theorem exec_registered {event : ExecEvent} {stage : TaskStage} (he : task.exec event = some stage) :
    task.stage.registered = true ∧ stage.registered = true := by
  cases event with
  | spawned | spawnError | stdioUnavailable | exited | waitError | timedOut =>
      simp only [Task.exec, Option.ite_none_right_eq_some, Option.some.injEq] at he
      obtain ⟨hs, rfl⟩ := he
      simp [hs, TaskStage.registered]
  | cancelled =>
      simp only [Task.exec, Option.ite_none_right_eq_some, Option.some.injEq] at he
      obtain ⟨⟨hs, -⟩, rfl⟩ := he
      simp [hs, TaskStage.registered]

theorem registered_exec (h : Registered cfg s) (hk : s.tasks[k]? = some task) {event : ExecEvent}
    {stage : TaskStage} (he : task.exec event = some stage) :
    Registered cfg (s.setTask k { task with stage := stage }) := by
  obtain ⟨hold, hnew⟩ := exec_registered he
  apply registered_setTask h hk
  have hheld := h.held k task hk
  simpa [hold, hnew] using hheld

theorem registered_send {outgoing : Outgoing} (h : Registered cfg s) (hs : s.send outgoing = some t) :
    Registered cfg t := by
  rw [State.send] at hs
  split at hs
  · simp only [Option.ite_none_right_eq_some, Option.some.injEq] at hs
    obtain ⟨-, rfl⟩ := hs
    exact h.congr rfl rfl rfl
  · cases hs
    exact h.congr rfl rfl rfl

theorem requestId_of_classify {bytes : List UInt8} {line : String} {request : HelperRequest}
    (hd : decodeLine bytes = some line) (hc : cfg.classify line = .request request) :
    cfg.requestId bytes = some request.id := by
  simp [Config.requestId, hd, hc]

theorem registered_push {op : HelperOp} {stage : TaskStage} (h : Registered cfg s)
    (hn : (s.tasks.map Task.id ++ id :: s.input.filterMap cfg.requestId).Nodup)
    (ht : t.tasks = s.tasks ++ [⟨id, op, .idle, stage⟩]) (hi : t.input = s.input)
    (he : t.execs = if stage.registered then (id, s.tasks.length) :: s.execs else s.execs) :
    Registered cfg t := by
  have hold {e : UInt64 × Nat} (hmem : e ∈ s.execs) : e.2 < s.tasks.length := by
    obtain ⟨task, htask, -⟩ := h.owned e hmem
    exact (List.getElem?_eq_some_iff.mp htask).1
  constructor
  · rw [ht, hi]
    simpa using hn
  · intro k task hk
    rw [ht] at hk
    obtain hlt | ⟨rfl, rfl⟩ := getElem?_snoc_cases hk
    · have hk' : k < s.tasks.length := (List.getElem?_eq_some_iff.mp hlt).1
      rw [h.held k task hlt, he]
      split
      · simp [Nat.ne_of_lt hk']
      · rfl
    · rw [he]
      split
      · next hr => simp [hr]
      · next hr =>
          have hnot : (id, s.tasks.length) ∉ s.execs := fun hmem => Nat.lt_irrefl _ (hold hmem)
          simp [hr, hnot]
  · intro e hmem
    rw [he] at hmem
    have hcases : e = (id, s.tasks.length) ∨ e ∈ s.execs := by
      split at hmem
      · simpa using hmem
      · exact .inr hmem
    obtain rfl | hmem := hcases
    · exact ⟨_, by rw [ht]; exact List.getElem?_concat_length .., rfl⟩
    · obtain ⟨task, htask, hid⟩ := h.owned e hmem
      refine ⟨task, ?_, hid⟩
      rw [ht, List.getElem?_append_left (hold hmem), htask]

theorem registered_spawnTask {request : HelperRequest} (h : Registered cfg s)
    (hn : (s.tasks.map Task.id ++ request.id :: s.input.filterMap cfg.requestId).Nodup) :
    Registered cfg (s.spawnTask request) := by
  rw [State.spawnTask]
  split
  · have hnone : s.execs.lookup request.id = none := by
      apply List.lookup_eq_none_iff.mpr
      intro e he
      obtain ⟨task, htask, hid⟩ := h.owned e he
      have hmem : e.1 ∈ s.tasks.map Task.id := by
        rw [← hid]
        exact List.mem_map_of_mem (List.mem_of_getElem? htask)
      have hne := (List.nodup_append.mp hn).2.2 e.1 hmem request.id List.mem_cons_self
      simpa using Ne.symm hne
    have hsame : s.removeExec request.id .dropped = s := by rw [State.removeExec, hnone]
    rw [hsame]
    exact registered_push h hn rfl rfl rfl
  · exact registered_push h hn rfl rfl rfl

theorem registered_read (h : Registered cfg s) : Registered cfg (s.read cfg) := by
  rw [State.read]
  cases hi : s.input with
  | nil => exact h.congr rfl rfl hi.symm
  | cons bytes rest =>
      have hdrop : Registered cfg { s with input := rest, seen := s.seen ++ [bytes] } := by
        refine ⟨?_, h.held, h.owned⟩
        have hsub : (rest.filterMap cfg.requestId).Sublist (s.input.filterMap cfg.requestId) := by
          rw [hi]
          exact (List.sublist_cons_self ..).filterMap _
        exact h.distinct.sublist (hsub.append_left _)
      dsimp only
      cases hd : decodeLine bytes with
      | none => exact hdrop.congr rfl rfl rfl
      | some line =>
          dsimp only
          rw [State.handleLine.eq_def]
          split
          · exact hdrop
          · exact hdrop.congr rfl rfl rfl
          · exact hdrop.congr rfl rfl rfl
          · next request _ hc =>
              apply registered_spawnTask hdrop
              have hd := h.distinct
              rwa [hi, List.filterMap_cons, requestId_of_classify ‹_› hc] at hd

theorem registered_next {l : Label} (h : Registered cfg s) (hn : s.next cfg l = some t) : Registered cfg t := by
  cases l with
  | read =>
      simp only [State.next, Option.ite_none_right_eq_some, Option.some.injEq] at hn
      obtain ⟨-, rfl⟩ := hn
      exact registered_read h
  | reply =>
      simp only [State.next, State.reply] at hn
      split at hn
      · exact registered_send (s := { s with loop := .reading }) (h.congr rfl rfl rfl) hn
      · exact registered_send (s := { s with loop := .awaitingDone }) (h.congr rfl rfl rfl) hn
      · cases hn
  | leave =>
      simp only [State.next, Option.ite_none_right_eq_some, Option.some.injEq] at hn
      obtain ⟨-, rfl⟩ := hn
      exact h.congr rfl rfl rfl
  | handleOp k result =>
      obtain ⟨task, hk, hn⟩ := Option.bind_eq_some_iff.mp hn
      simp only [Option.ite_none_right_eq_some, Option.some.injEq] at hn
      obtain ⟨hs, rfl⟩ := hn
      exact registered_handleOp h hk hs result
  | exec k event =>
      obtain ⟨task, hk, hn⟩ := Option.bind_eq_some_iff.mp hn
      obtain ⟨stage, he, rfl⟩ := Option.map_eq_some_iff.mp hn
      exact registered_exec h hk he
  | unregister k =>
      obtain ⟨task, hk, hn⟩ := Option.bind_eq_some_iff.mp hn
      exact registered_unregister h hk hn
  | collect k stdout stderr truncated =>
      obtain ⟨task, hk, hn⟩ := Option.bind_eq_some_iff.mp hn
      rw [State.collect] at hn
      split at hn
      · next hs =>
          cases hn
          exact registered_setTask h hk (by simpa [TaskStage.registered] using h.unheld hk (by rw [hs]; rfl))
      · cases hn
  | answer k =>
      obtain ⟨task, hk, hn⟩ := Option.bind_eq_some_iff.mp hn
      rw [State.answer] at hn
      split at hn
      · next hs =>
          refine registered_send (registered_setTask h hk ?_) hn
          simpa [TaskStage.registered] using h.unheld hk (by rw [hs]; rfl)
      · cases hn
  | write =>
      simp only [State.next, State.write] at hn
      split at hn
      · cases hn
        exact h.congr rfl rfl rfl
      · cases hn
  | writeError =>
      simp only [State.next, State.writeError] at hn
      split at hn
      · cases hn
        exact h.congr rfl rfl rfl
      · cases hn

end Silo.Sandbox.Serve
