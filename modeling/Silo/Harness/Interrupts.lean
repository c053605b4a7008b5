import Silo.Harness.Returns

namespace Silo.Harness

open Silo.Core Silo.Lib

def ToolPc.answer : ToolPc → Answer
  | .sandboxInterrupt => .sandboxInterrupt none
  | .sandboxDrain | .read _ => .sandbox (.ok (.ok ""))
  | .frontendInterrupt _ => .frontendInterrupt none
  | .frontendDrain _ => .frontend (.ok (.ok ""))
  | _ => .pending

namespace Session

variable {ctx : SessionCtx} {s t : Session} {a b c : AgentId} {g : Nat}

theorem tool_enabled (ctx : SessionCtx) (r : CompletionResponse) (rs : List ContentBlock) {tool : ToolPc}
    (call : ToolCall)
    (h : s.ToolOk a tool) (hdone : ∀ result, tool ≠ .done result) :
    ∃ pick t, (s.outsideStep ctx a (.running r rs) call ⟨tool.answer, false, pick⟩ tool).or
      (s.childStep a (.running r rs) ⟨tool.answer, false, pick⟩ tool) = some t := by
  cases tool with
  | idle => cases h
  | done result => exact absurd rfl (hdone result)
  | anyFinished =>
      simp only [outsideStep, childStep, Option.none_or]
      cases hf : (s.children a).filter fun c => (s.agents c.id).finished with
      | nil => exact ⟨a, _, rfl⟩
      | cons c rest => exact ⟨c.id, s.toTool a (.running r rs) (.collect c.id), by simp⟩
  | anyPut chan signalled => cases signalled <;> exact ⟨a, _, rfl⟩
  | anyTakeRx | awaitKnown | awaitHas | anyStill | collect =>
      simp only [outsideStep, childStep, Option.none_or]
      refine ⟨a, ?_⟩
      repeat' split
      all_goals exact ⟨_, rfl⟩
  | _ => exact ⟨a, _, rfl⟩

theorem fits_answer (stage : Stage) (tool : ToolPc) : (Phase.driving stage tool).fits tool.answer = true := by
  cases tool <;> rfl

theorem step_enabled (ctx : SessionCtx) (hok : s.AgentOk a) (hturn : (s.agents a).phase.inTurn = true) :
    ∃ choice t, (s.agents a).phase.fits choice.answer = true ∧ s.step ctx a choice = some t := by
  have hphase := hok.phase
  unfold step
  cases hp : (s.agents a).phase with
  | driving stage tool =>
      rw [hp] at hphase
      cases stage with
      | top =>
          cases hphase
          refine ⟨⟨.pending, false, a⟩, ?_⟩
          simp only [driveStep, checkpointStep, drive, Drive.advance, Option.map_some]
          exact ⟨_, rfl, rfl⟩
      | asking =>
          cases hphase
          exact ⟨⟨.pending, false, a⟩, _, rfl, rfl⟩
      | calling r rs =>
          obtain ⟨hlen, rfl⟩ := hphase
          refine ⟨⟨.pending, false, a⟩, ?_⟩
          simp only [driveStep, checkpointStep, drive, Drive.advance, List.getElem?_eq_getElem hlen,
            Option.map_some]
          exact ⟨_, rfl, rfl⟩
      | running r rs =>
          obtain ⟨hlen, htool⟩ := hphase
          simp only [driveStep, currentCall, List.getElem?_eq_getElem hlen, Option.bind_some]
          by_cases hdone : ∃ result, tool = .done result
          · obtain ⟨result, rfl⟩ := hdone
            exact ⟨⟨.pending, false, a⟩, _, rfl, rfl⟩
          · have hne : ∀ result, tool ≠ .done result := fun result h => hdone ⟨result, h⟩
            obtain ⟨pick, t, ht⟩ := tool_enabled ctx r rs
              (r.toolCalls.get ⟨rs.length, hlen⟩) htool hne
            refine ⟨⟨tool.answer, false, pick⟩, t, fits_answer _ _, ?_⟩
            split
            · exact absurd rfl (hne _)
            · exact ht
      | ended result => exact hphase.elim
  | cancelling result walk =>
      obtain ⟨entering, frames⟩ := walk
      simp only [cancelStep]
      cases entering with
      | some e =>
          refine ⟨⟨.pending, false, a⟩, ?_⟩
          simp only
          split <;> exact ⟨_, rfl, rfl⟩
      | none =>
          cases frames with
          | nil => exact ⟨⟨.pending, false, a⟩, _, rfl, rfl⟩
          | cons f frames =>
              simp only
              cases hcur : f.current with
              | some child =>
                  refine ⟨⟨.pending, false, a⟩, ?_⟩
                  simp only
                  split <;> exact ⟨_, rfl, rfl⟩
              | none =>
                  cases hrest : f.rest with
                  | nil => exact ⟨⟨.pending, false, a⟩, _, rfl, rfl⟩
                  | cons child rest =>
                      refine ⟨⟨.pending, false, child.id⟩, ?_⟩
                      simp only [List.isEmpty_cons, List.find?_cons, decide_true]
                      exact ⟨_, rfl, rfl⟩
  | _ =>
      rw [hp] at hturn
      cases hturn

structure Stopping (g : Nat) (a : AgentId) (s : Session) : Prop where
  timely : s.Timely
  ripe : s.Ripe g
  others : ∀ b, b ≠ a → (s.agents b).polling = false
  turn : ((s.agents a).phase.inTurn = true ∧ s.generation a ≤ g) ∨ s.Stopped a

def stoppingRank (g : Nat) (a : AgentId) (s : Session) : Nat :=
  2 * s.burden g + if (s.agents a).polling then 1 else 0

theorem stoppingRank_lt (h : t.burden g < s.burden g) : stoppingRank g a t < stoppingRank g a s := by
  unfold stoppingRank
  split <;> split <;> omega

theorem all_unpolled (h : ∀ b, (s.agents b).polling = false) :
    ((List.range s.counter).all fun b => !(s.agents b).polling) = true := by
  simp [h]

theorem stopping_next {act : Act} (h : Stopping g a s) (hturn : (s.agents a).phase.inTurn = true)
    (hgen : s.generation a ≤ g) (hat : s.atomic act = true) (hn : next ctx s act = some t)
    (hothers : ∀ b, b ≠ a → (t.agents b).polling = false) : Stopping g a t := by
  have hgoes := goes_next h.timely hn hturn
  refine ⟨timely_next h.timely hat hn, h.ripe.grows hgoes.grows, hothers, ?_⟩
  rcases hgoes.place with hin | hend
  · exact .inl ⟨hin, by rw [hgoes.generation]; exact hgen⟩
  · exact .inr hend

theorem stopping_drop (ctx : SessionCtx) (h : Stopping g a s) (hturn : (s.agents a).phase.inTurn = true)
    (hgen : s.generation a ≤ g) (hself : (s.agents a).polling = false)
    (haborted : (s.agents b).aborted = true) (hsusp : (s.agents b).suspended = true)
    (hbusy : (s.agents b).phase.busy = true) :
    s.atomic (.drop b) = true ∧ next ctx s (.drop b) = some (s.dropTask b) ∧
      Stopping g a (s.dropTask b) := by
  have hpoll : ∀ c, (s.agents c).polling = false := by
    intro c
    by_cases hc : c = a
    · rw [hc]
      exact hself
    · exact h.others c hc
  have hrun : (s.agents b).running = true := by
    rw [Agent.running]
    cases hp : (s.agents b).phase <;> rw [hp] at hbusy <;> first | rfl | cases hbusy
  have hn : next ctx s (.drop b) = some (s.dropTask b) := by simp [next, haborted, hsusp, hrun]
  have hat : s.atomic (.drop b) = true := all_unpolled hpoll
  refine ⟨hat, hn, stopping_next h hturn hgen hat hn ?_⟩
  intro c _
  by_cases hc : c = b
  · subst hc
    simp [dropTask, setAgent, Agent.polling]
  · simpa [dropTask, setAgent, hc] using hpoll c

theorem atomic_step (h : Stopping g a s) (choice : Choice) : s.atomic (.step a choice) = true := by
  simp only [atomic, List.all_eq_true]
  intro b _
  by_cases hb : b = a
  · simp [hb]
  · simp [h.others b hb]

theorem stopping_step {choice : Choice} (h : Stopping g a s) (hturn : (s.agents a).phase.inTurn = true)
    (hgen : s.generation a ≤ g) (hn : next ctx s (.step a choice) = some t) : Stopping g a t :=
  stopping_next h hturn hgen (atomic_step h choice) hn fun _ hb =>
    ((taskStep_of_next h.timely hn).others h.timely h.others hb).2

theorem pend_of_awaited (haw : s.awaited a = some c) (choice : Choice) :
    s.step ctx a choice = some (s.pend a) := by
  obtain ⟨hj, hfin⟩ := awaited_eq_some haw
  unfold Phase.joining at hj
  split at hj
  · rename_i result f frames heq
    obtain ⟨child, hchild, rfl⟩ := Option.map_eq_some_iff.mp hj
    simp [step, heq, cancelStep, hchild, hfin]
  · cases hj

theorem stopping_nearer (h : Stopping g a s) (hgoal : ¬ s.Stopped a) :
    ∃ act t, s.atomic act = true ∧ next ctx s act = some t ∧ Stopping g a t ∧
      (t.Stopped a ∨ stoppingRank g a t < stoppingRank g a s) := by
  obtain ⟨hturn, hgen⟩ := h.turn.resolve_right hgoal
  have hbusy := busy_of_inTurn hturn
  cases hab : (s.agents a).aborted with
  | true =>
      have hpoll := (h.timely.ok a).aborted hab
      have hsusp := suspended_of_aborted (h.timely.ok a) hbusy hab
      obtain ⟨hat, hn, hst⟩ := stopping_drop ctx h hturn hgen hpoll hab hsusp hbusy
      refine ⟨_, _, hat, hn, hst, .inl (.inr ?_)⟩
      simp [dropTask, setAgent, hab]
  | false =>
      have hnext : ∀ choice, next ctx s (.step a choice) = s.step ctx a choice := by
        intro choice
        simp [next, hab]
      cases haw : s.awaited a with
      | some c =>
          have hc := h.timely.awaited haw
          cases hpoll : (s.agents a).polling with
          | true =>
              -- The poll ends here, and the child can be dropped after it.
              have hn : next ctx s (.step a ⟨.pending, false, a⟩) = some (s.pend a) :=
                (hnext _).trans (pend_of_awaited haw _)
              refine ⟨_, _, atomic_step h _, hn, stopping_step h hturn hgen hn, .inr ?_⟩
              rw [stoppingRank, stoppingRank, burden_pend, hpoll]
              simp [pend, setAgent, Agent.polling]
          | false =>
              obtain ⟨hat, hn, hst⟩ := stopping_drop ctx h hturn hgen hpoll hc.aborted
                hc.suspended hc.busy
              exact ⟨_, _, hat, hn, hst, .inr (stoppingRank_lt (burden_dropTask_lt (hc.born h.timely)
                (Nat.le_trans hc.kin.generation hgen) (cost_pos hc.busy)))⟩
      | none =>
          obtain ⟨choice, t, hfits, hstep⟩ := step_enabled ctx (h.timely.ok a) hturn
          have hn := (hnext choice).trans hstep
          obtain ⟨-, hlt, -⟩ := acting_of_next h.timely hn
          refine ⟨_, t, atomic_step h _, hn, stopping_step h hturn hgen hn, .inr (stoppingRank_lt ?_)⟩
          exact (taskStep_of_next h.timely hn).burden_lt h.timely hlt h.ripe hgen
            ⟨hturn, .inr ⟨hfits, fun c hj => finished_of_awaited haw hj⟩⟩

theorem can_stop (hs : s.Timely) (hturn : (s.agents a).phase.inTurn = true) (hdue : s.Due a)
    (hpoll : ∀ b, b ≠ a → (s.agents b).polling = false) :
    ∃ t, (machine ctx).RunsTo (during a) s t ∧ t.Stopped a := by
  have hstart : Stopping (s.generation a) a s := ⟨hs, hdue, hpoll, .inl ⟨hturn, Nat.le_refl _⟩⟩
  refine Machine.RunsTo.reaches (stoppingRank (s.generation a) a) (fun {s} h hgoal => ?_) hstart
  obtain ⟨act, t, hat, hn, hst, hnear⟩ := stopping_nearer h hgoal
  exact ⟨act, t, ⟨hat, (h.turn.resolve_right hgoal).1⟩, hn, hst, hnear⟩

end Session

namespace Session

variable {ctx : SessionCtx} {s t u : Session} {a b c : AgentId} {act : Act}

def Act.sent : Act → Option FrontendCommand
  | .send command => some command
  | _ => none

/-- Between `s` and `t` an interrupt has been applied. -/
def Interrupted (s t : Session) : Prop :=
  ∃ new, t.signal.applied = s.signal.applied ++ new ∧ .interrupt ∈ new

/-- An interrupt has ended the turn of `b`, or that of an agent which cancels
`b` as one of its children. -/
inductive EndedByInterrupt (s : Session) (b : AgentId) : Prop
  | cancelling {walk : Walk} (phase : (s.agents b).phase = .cancelling (.ok .interrupted) walk)
  | returned (phase : (s.agents b).phase = .returned (.ok .interrupted))
  | cancelled {a : AgentId} {walk : Walk} {f : Frame} {child : ChildHandle}
      (phase : (s.agents a).phase = .cancelling (.ok .interrupted) walk) (frame : f ∈ walk.frames)
      (current : f.current = some child) (id : child.id = b)

theorem EndedByInterrupt.generation_lt (h : s.EndedByInterrupt b) (hs : s.Timely) :
    s.generation b < s.signal.interrupts := by
  cases h with
  | cancelling phase =>
      have hok := (hs.ok b).phase
      rw [phase] at hok
      exact hok.1
  | returned phase =>
      have hok := (hs.ok b).phase
      rw [phase] at hok
      exact hok
  | @cancelled a walk f child phase frame current id =>
      have hok := (hs.ok a).phase
      rw [phase] at hok
      have hkin := ((hok.2.frames f frame).current child current).1
      rw [← id]
      exact Nat.lt_of_le_of_lt hkin.generation hok.1

theorem interrupts_append (hs : s.Timely) (ht : t.Timely) {new : List FrontendCommand}
    (happ : t.signal.applied = s.signal.applied ++ new) :
    t.signal.interrupts = s.signal.interrupts + new.countP FrontendCommand.isInterrupt := by
  rw [ht.tidy.interrupts, hs.tidy.interrupts, happ, List.countP_append]

theorem Interrupted.lt (h : Interrupted s t) (hs : s.Timely) (ht : t.Timely) :
    s.signal.interrupts < t.signal.interrupts := by
  obtain ⟨new, happ, hmem⟩ := h
  rw [interrupts_append hs ht happ]
  exact Nat.lt_add_of_pos_right (List.countP_pos_iff.mpr ⟨.interrupt, hmem, rfl⟩)

theorem interrupted_of_lt (hs : s.Timely) (ht : t.Timely) {new : List FrontendCommand}
    (happ : t.signal.applied = s.signal.applied ++ new) (hlt : s.signal.interrupts < t.signal.interrupts) :
    Interrupted s t := by
  rw [interrupts_append hs ht happ] at hlt
  obtain ⟨command, hmem, hint⟩ := List.countP_pos_iff.mp (Nat.pos_of_lt_add_right hlt)
  cases command with
  | shutdown message => cases hint
  | interrupt => exact ⟨new, happ, hmem⟩

section Runs

variable (hs : s.Timely)

include hs

theorem turn_run (h : (machine ctx).RunsTo (during b) s t) :
    t.Timely ∧ t.generation b = s.generation b ∧ ∃ new, t.signal.applied = s.signal.applied ++ new := by
  induction h with
  | refl => exact ⟨hs, rfl, [], by simp⟩
  | tail _ hc hn ih =>
      obtain ⟨ht, hgen, new, happ⟩ := ih
      have hgoes := goes_next ht hn hc.2
      obtain ⟨more, hmore⟩ := hgoes.feeds
      exact ⟨timely_next ht hc.1 hn, hgoes.generation.trans hgen, new ++ more,
        by rw [hmore, happ, List.append_assoc]⟩

/-- A turn that is to stop adds no assistant message and starts no tool call. -/
theorem quiet_run (hdue : s.Due b) (h : (machine ctx).RunsTo (during b) s t) :
    t.Timely ∧ t.Due b ∧ assistants (t.agents b).messages = assistants (s.agents b).messages ∧
      ∃ more, t.log = s.log ++ more ∧ ∀ r ∈ more, r.speaker ≠ some b := by
  induction h with
  | refl => exact ⟨hs, hdue, rfl, [], by simp, by simp⟩
  | tail _ hc hn ih =>
      obtain ⟨ht, hdue, hmess, more, hlog, hquiet⟩ := ih
      have hgoes := goes_next ht hn hc.2
      have hdue' := hdue.grows hgoes.grows hgoes.generation
      obtain ⟨more', hlog', hquiet'⟩ := hgoes.log
      refine ⟨timely_next ht hc.1 hn, hdue', (hgoes.messages hdue').trans hmess, more ++ more', ?_, ?_⟩
      · rw [hlog', hlog, List.append_assoc]
      · intro r hr
        exact (List.mem_append.mp hr).elim (hquiet r) (hquiet' hdue' r)

theorem due_of_told (h : (machine ctx).RunsTo (during b) s t)
    (htold : Interrupted s t ∨ t.signal.requests ≠ []) : t.Due b := by
  obtain ⟨ht, hgen, -⟩ := turn_run hs h
  rcases htold with hint | hreq
  · refine .inr ?_
    rw [hgen]
    exact Nat.lt_of_le_of_lt (hs.ok b).snapshot (hint.lt hs ht)
  · refine .inl ?_
    rw [ht.tidy.state]
    exact List.isSome_head?.mpr hreq

end Runs

section Commands

theorem total_next (hs : s.Timely) (hn : next ctx s act = some t) :
    t.signal.applied ++ t.signal.queue = s.signal.applied ++ s.signal.queue ++ act.sent.toList := by
  cases act with
  | send command =>
      simp only [next] at hn
      split at hn <;> cases hn
      simp [Signal.send, Act.sent]
  | hangUp | request =>
      cases hn
      simp [Signal.request, Act.sent]
  | step a choice => simpa [Act.sent] using (taskStep_of_next hs hn).feeds.total
  | drop b =>
      obtain ⟨rfl, -⟩ := drop_of_next hn
      simpa [Act.sent, dropTask, setAgent] using (Signal.feeds_dropWait s.signal b).total

theorem timely_run {acts : List Act} (hs : s.Timely)
    (h : (machine ctx).runChecked atomic s acts = some t) : t.Timely :=
  (Machine.runsTo_of_runChecked h).invariant (fun hs hat hn => timely_next hs hat hn) hs

theorem total_run {acts : List Act} (hs : s.Timely)
    (h : (machine ctx).runChecked atomic s acts = some t) :
    t.signal.applied ++ t.signal.queue =
      s.signal.applied ++ s.signal.queue ++ acts.filterMap Act.sent := by
  induction acts generalizing s with
  | nil =>
      cases h
      simp
  | cons act acts ih =>
      simp only [Machine.runChecked] at h
      split at h
      · rename_i hat
        obtain ⟨u, hu, ht⟩ := Option.bind_eq_some_iff.mp h
        rw [ih (timely_next hs hat hu) ht, total_next hs hu, List.append_assoc]
        cases hsent : act.sent <;> simp [hsent]
      · cases h

theorem requests_run (hs : s.Timely) (h : (machine ctx).RunsTo (fun s act => s.atomic act = true) s t)
    {message : Option String} (hfirst : s.signal.requests.head? = some message) :
    t.Timely ∧ t.signal.requests.head? = some message := by
  induction h with
  | refl => exact ⟨hs, hfirst⟩
  | tail _ hat hn ih =>
      obtain ⟨hu, hfirst⟩ := ih
      have ht := timely_next hu hat hn
      rw [← hu.tidy.state] at hfirst
      refine ⟨ht, ?_⟩
      rw [← ht.tidy.state]
      exact (grows_next hu hn).state message hfirst

end Commands

/-- What becomes of a turn of `b` that is to stop: it adds no assistant message
and starts no tool call, every fair run ends it, and nothing can get it stuck
between two polls of the others. -/
structure Stops (ctx : SessionCtx) (s : Session) (b : AgentId) : Prop where
  silent : ∀ t, (machine ctx).RunsTo (during b) s t →
    assistants (t.agents b).messages = assistants (s.agents b).messages ∧
      ∃ more, t.log = s.log ++ more ∧ ∀ r ∈ more, r.speaker ≠ some b
  returns : ∀ ρ : (machine ctx).Run (fun s act => s.atomic act = true), ρ.state 0 = s → ρ.Fair serves →
    ∃ m, (ρ.state m).Stopped b ∧ ∀ k, k < m → ((ρ.state k).agents b).phase.inTurn = true
  unstuck : (∀ c, c ≠ b → (s.agents c).polling = false) →
    ∃ t, (machine ctx).RunsTo (during b) s t ∧ t.Stopped b

theorem stops (hs : s.Timely) (hturn : (s.agents b).phase.inTurn = true) (hdue : s.Due b) :
    s.Stops ctx b := by
  refine ⟨?_, ?_, can_stop hs hturn hdue⟩
  · intro t ht
    obtain ⟨-, -, hmess, hlog⟩ := quiet_run hs hdue ht
    exact ⟨hmess, hlog⟩
  · rintro ρ rfl hfair
    exact eventually_stopped hfair hs hturn hdue

/-- The interrupts and shutdowns of a session, whenever its commands arrive: an
interrupt ends no turn that began after it; a turn stops once it is interrupted
or a shutdown requested; the commands are applied and journaled in the order
they were sent; and the first request gives the shutdown its message. -/
theorem turns_heed_commands {acts : List Act}
    (hrun : (machine ctx).runChecked atomic start acts = some s) :
    (∀ act t u b, s.atomic act = true → next ctx s act = some t →
      (s.agents b).phase.inTurn = false → (t.agents b).phase.inTurn = true →
      (machine ctx).RunsTo (during b) t u → u.EndedByInterrupt b → Interrupted t u) ∧
    (∀ b t, (s.agents b).phase.inTurn = true → (machine ctx).RunsTo (during b) s t →
      (t.agents b).phase.inTurn = true → (Interrupted s t ∨ t.signal.requests ≠ []) → t.Stops ctx b) ∧
    (s.signal.applied ++ s.signal.queue = acts.filterMap Act.sent ∧
      s.log.filterMap Record.command = s.signal.applied) ∧
    (∀ e, (s.agents topLevelAgentId).phase = .over (.ok e) →
      (e = .normal e.message ∧ s.signal.requests.head? = some e.message) ∨
        e.llmFailure.isSome = true ∨ e.scriptMismatch.isSome = true ∨
        (e = .normal (some "frontend script exhausted") ∧
          ∃ detail, .journal (.lifecycle ("frontend script exhausted: " ++ detail)) ∈ s.log)) ∧
    ∀ message t, s.signal.requests.head? = some message →
      (machine ctx).RunsTo (fun s act => s.atomic act = true) s t →
      t.signal.requests.head? = some message := by
  have hs := timely_run timely_start hrun
  refine ⟨?_, ?_, ⟨total_run timely_start hrun, hs.journal⟩, ?_, ?_⟩
  · intro act t u b hat hn hout hin hru hended
    have ht := timely_next hs hat hn
    obtain ⟨hu, hgen, new, happ⟩ := turn_run ht hru
    apply interrupted_of_lt ht hu happ
    rw [← begins hs hn hout hin, ← hgen]
    exact hended.generation_lt hu
  · intro b t _ hru hturn htold
    exact stops (turn_run hs hru).1 hturn (due_of_told hs hru htold)
  · intro e he
    have hok := (hs.ok topLevelAgentId).phase
    rw [he] at hok
    rw [← hs.tidy.state]
    exact hok.2
  · intro message t hfirst hru
    exact (requests_run hs hru hfirst).2

def toolless : SessionCtx := ⟨"mock", "headless", [], "", 100, id⟩

def after (c : Session → Act → Bool) (s : Session) (acts : List Act) : Session :=
  ((machine toolless).runChecked c s acts).getD s

theorem run_after {c : Session → Act → Bool} {acts : List Act}
    (h : ((machine toolless).runChecked c s acts).isSome = true) :
    (machine toolless).runChecked c s acts = some (after c s acts) := by
  obtain ⟨t, ht⟩ := Option.isSome_iff_exists.mp h
  rw [after, ht]
  rfl

def polled (answer : Answer) : Act := .step topLevelAgentId ⟨answer, false, topLevelAgentId⟩

def inFirstTurn (s : Session) (act : Act) : Bool :=
  s.atomic act && (s.agents topLevelAgentId).phase.inTurn

def idle : Session := after atomic start [polled .pending, polled .pending]

def begun : Session := after atomic idle [polled (.input (.ok "start"))]

/-- The interrupt comes while the model is asked. -/
def interrupted : Session :=
  after inFirstTurn begun [polled .pending, polled .pending, .send .interrupt, .hangUp, polled .pending]

def returned : Session := after inFirstTurn interrupted [polled .pending, polled .pending]

def settled : Session := after atomic interrupted [polled .pending, polled .pending, polled .pending]

theorem during_of_inFirstTurn (s : Session) (act : Act) (h : inFirstTurn s act = true) :
    during topLevelAgentId s act := by
  rw [inFirstTurn, Bool.and_eq_true] at h
  exact h

theorem hangUp_loops (ctx : SessionCtx) (h : s.signal.senders = false) : next ctx s .hangUp = some s := by
  simp only [next, ← h]

theorem idle_busy (hs : s.Timely) (hcounter : s.counter = 1)
    (h : (s.agents topLevelAgentId).phase.busy = false) (b : AgentId) : (s.agents b).phase.busy = false := by
  by_cases hb : b = topLevelAgentId
  · rw [hb]
    exact h
  · have hunborn := hs.fresh b (by rw [hcounter]; exact Nat.pos_of_ne_zero hb)
    rw [hunborn]
    rfl

theorem turns_heed_commands_interrupted :
    Interrupted begun returned ∧
      ∃ ρ : (machine toolless).Run (fun s act => s.atomic act = true), ρ.state 0 = interrupted ∧
        ρ.Fair serves ∧ ∃ m, (ρ.state m).Stopped topLevelAgentId := by
  have hidle : (machine toolless).runChecked atomic start _ = some idle := run_after rfl
  have hbegun : (machine toolless).runChecked atomic start
      ([polled .pending, polled .pending] ++ [polled (.input (.ok "start"))]) = some begun := by
    rw [Machine.runChecked_append, hidle]
    exact run_after rfl
  have hnext : next toolless idle (polled (.input (.ok "start"))) = some begun := by
    obtain ⟨t, ht⟩ := Option.isSome_iff_exists.mp
      (by decide : (next toolless idle (polled (.input (.ok "start")))).isSome = true)
    have hone : (machine toolless).runChecked atomic idle [polled (.input (.ok "start"))] = some begun :=
      run_after rfl
    simp only [Machine.runChecked, machine, ht] at hone
    split at hone
    · exact ht.trans hone
    · cases hone
  have htold : (machine toolless).RunsTo (during topLevelAgentId) begun interrupted :=
    (Machine.runsTo_of_runChecked (run_after rfl)).mono during_of_inFirstTurn
  have hends : (machine toolless).RunsTo (during topLevelAgentId) interrupted returned :=
    (Machine.runsTo_of_runChecked (run_after rfl)).mono during_of_inFirstTurn
  have hsettled : (machine toolless).runChecked atomic interrupted _ = some settled :=
    run_after rfl
  have hint : Interrupted begun interrupted := ⟨[.interrupt], by decide, by simp⟩
  constructor
  · exact (turns_heed_commands hidle).1 _ begun returned topLevelAgentId rfl hnext
      rfl rfl (htold.trans hends) (.returned rfl)
  · have hloop := hangUp_loops toolless (by decide : settled.signal.senders = false)
    have hat : settled.atomic .hangUp = true := rfl
    obtain ⟨ρ, h0, hend⟩ := Machine.exists_run_of_loop hat hloop hsettled
    have htimely := timely_run (turn_run (timely_run timely_start hbegun) htold).1 hsettled
    have hfair : ρ.Fair serves := by
      intro b n
      refine ⟨n + 3, Nat.le_add_right _ _, .inl ?_⟩
      rw [hend (n + 3) (Nat.le_add_left _ _)]
      exact idle_busy htimely rfl rfl b
    have hstops := (turns_heed_commands hbegun).2.1 topLevelAgentId interrupted rfl htold
      rfl (.inl hint)
    obtain ⟨m, hm, -⟩ := hstops.returns ρ h0 hfair
    exact ⟨ρ, h0, hfair, m, hm⟩

end Session

end Silo.Harness
