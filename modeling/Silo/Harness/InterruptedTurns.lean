import Silo.Harness.Interrupts
import Silo.Harness.Outcomes

namespace Silo.Harness

open Silo.Core Silo.Lib

namespace Session

variable {ctx : SessionCtx} {s t u v : Session} {a b : AgentId} {act : Act} {choice : Choice}

def applies (ctx : SessionCtx) (s : Session) (act : Act) : Bool :=
  (next ctx s act).any fun t => s.signal.interrupts < t.signal.interrupts

/-- Polls are atomic, and no interrupt is applied while the last call of a
response that ends the turn is made, or when the turn is complete already. -/
def heedful (ctx : SessionCtx) (s : Session) (act : Act) : Bool :=
  s.atomic act && !(applies ctx s act && (s.agents topLevelAgentId).phase.slips)

inductive Intervened (s : Session) : Except HarnessError TurnOutcome → Prop
  | shutdown (request : s.signal.requests ≠ []) : Intervened s (.ok .shutdownRequested)
  | scriptFailed (message : String) : Intervened s (.ok (.scriptFailed message))
  | llmFailed (message : String) : Intervened s (.ok (.llmFailed message))
  | error (error : HarnessError) : Intervened s (.error error)

/-- The top level's turn goes on. -/
def inTurn (c : Session → Act → Bool) (s : Session) (act : Act) : Prop :=
  c s act = true ∧ (s.agents topLevelAgentId).phase.inTurn = true

def afterTurn (c : Session → Act → Bool) (s : Session) (act : Act) : Prop :=
  c s act = true ∧ ((s.agents topLevelAgentId).phase = .interrupting ∨
    ∃ result, (s.agents topLevelAgentId).phase = .returned result)

/-- What is asked of every turn of the top level, from the step that begins it,
in the runs whose steps meet `c`. -/
structure EndsInterrupted (ctx : SessionCtx) (c : Session → Act → Bool) (t : Session) : Prop where
  outcome : ∀ u result, (machine ctx).RunsTo (inTurn c) t u →
    (u.agents topLevelAgentId).phase = .returned result → Interrupted t u →
    result = .ok .interrupted ∨ u.Intervened result
  events : ∀ u v, (machine ctx).RunsTo (inTurn c) t u →
    (u.agents topLevelAgentId).phase = .returned (.ok .interrupted) →
    (machine ctx).RunsTo (afterTurn c) u v → (v.agents topLevelAgentId).phase = .head →
    ∃ more, v.log = t.log ++ more ∧ .event (.interrupted topLevelAgentId) ∈ more ∧
      ∀ r ∈ more, r.ender ≠ some topLevelAgentId
  stops : ∀ u, (machine ctx).RunsTo (inTurn c) t u → (u.agents topLevelAgentId).phase.inTurn = true →
    Interrupted t u → u.Stops ctx topLevelAgentId

structure Attentive (s : Session) : Prop where
  born : (s.agents topLevelAgentId).phase ≠ .unborn
  heard : s.generation topLevelAgentId < s.signal.interrupts →
    (s.agents topLevelAgentId).phase.deaf = false
  polls : (s.agents topLevelAgentId).phase.inPoll = true → (s.agents topLevelAgentId).suspended = false

inductive Concludes : Phase → Prop
  | cancelling (text : String) (walk : Walk) : Concludes (.cancelling (.ok (.completed text)) walk)
  | returned (text : String) : Concludes (.returned (.ok (.completed text)))
  | dropped : Concludes .dropped

theorem Attentive.unslipping (h : Attentive s) (hc : heedful ctx s act = true) (hn : next ctx s act = some t)
    (hlt : s.generation topLevelAgentId < t.signal.interrupts) :
    (s.agents topLevelAgentId).phase.slips = false := by
  by_cases hold : s.generation topLevelAgentId < s.signal.interrupts
  · exact (Bool.or_eq_false_iff.mp (h.heard hold)).1
  · have happ : applies ctx s act = true := by
      simp only [applies, hn, Option.any_some, decide_eq_true_eq]
      omega
    simp only [heedful, happ, Bool.true_and, Bool.and_eq_true, Bool.not_eq_true'] at hc
    exact hc.2

theorem attentive_of_same (h : Attentive s) (hagents : t.agents = s.agents)
    (hint : t.signal.interrupts = s.signal.interrupts) : Attentive t := by
  constructor
  · rw [hagents]
    exact h.born
  · rw [generation, hagents, hint]
    exact h.heard
  · rw [hagents]
    exact h.polls

theorem polling_of_inPoll {x : Agent} (h : x.phase.inPoll = true) (hs : x.suspended = false) :
    x.polling = true := by
  cases hp : x.phase with
  | driving stage tool => simp [Agent.polling, hs, hp]
  | _ =>
      rw [hp] at h
      cases h

/-- While the top level is in the middle of a poll, no other task takes a step. -/
theorem Attentive.not_inPoll (h : Attentive s) (hs : s.Timely) (hat : s.atomic (.step a choice) = true)
    (ha : topLevelAgentId ≠ a) : (s.agents topLevelAgentId).phase.inPoll = false := by
  by_contra hin
  rw [Bool.not_eq_false] at hin
  have hpolling := polling_of_inPoll hin (h.polls hin)
  have hlt : topLevelAgentId < s.counter := by
    by_contra hge
    exact h.born (hs.fresh _ (Nat.le_of_not_lt hge))
  have := List.all_eq_true.mp hat topLevelAgentId (List.mem_range.mpr hlt)
  rw [hpolling] at this
  simp [ha] at this

theorem attentive_next (hs : s.Timely) (h : Attentive s) (hc : heedful ctx s act = true)
    (hn : next ctx s act = some t) : Attentive t := by
  have hat : s.atomic act = true := (Bool.and_eq_true _ _ ▸ hc).1
  have hslips := fun hlt => h.unslipping hc hn hlt
  cases act with
  | send command =>
      simp only [next] at hn
      split at hn <;> cases hn
      exact attentive_of_same h rfl rfl
  | hangUp | request =>
      cases hn
      exact attentive_of_same h rfl rfl
  | step a choice =>
      have hon := taskStep_of_next hs hn
      obtain ⟨hact, -, hstep⟩ := acting_of_next hs hn
      have hborn := (hon.evolves.lasts _ h.born).born
      by_cases ha : topLevelAgentId = a
      · subst ha
        have hattends : Attends True s t topLevelAgentId := by
          apply attends_step hact hstep hon.evolves.grows.interrupts (fun _ => hslips)
          intro _ hin hlt
          rw [(Bool.or_eq_false_iff.mp (h.heard hlt)).2] at hin
          cases hin
        exact ⟨hborn, hattends.heard trivial, hattends.polls⟩
      · have hstaysPut := hon.staysPut _ ha h.born
        have hpoll := h.not_inPoll hs hat ha
        refine ⟨hborn, ?_, ?_⟩
        · intro hlt
          rw [hstaysPut.phase, Phase.deaf, hpoll, Bool.or_false]
          apply hslips
          rw [hstaysPut.generation] at hlt
          exact hlt
        · intro hin
          rw [hstaysPut.phase, hpoll] at hin
          cases hin
  | drop a =>
      obtain ⟨rfl, -⟩ := drop_of_next hn
      by_cases ha : topLevelAgentId = a
      · subst ha
        constructor <;> simp [dropTask, setAgent, Phase.deaf, Phase.slips, Phase.inPoll]
      · have hsame : (s.dropTask a).agents topLevelAgentId = s.agents topLevelAgentId := by
          simp [dropTask, setAgent, ha]
        have hint : (s.dropTask a).signal.interrupts = s.signal.interrupts := by simp [dropTask, setAgent]
        constructor
        · rw [hsame]
          exact h.born
        · rw [generation, hsame, hint]
          exact h.heard
        · rw [hsame]
          exact h.polls

/-- A step that reports the turn of the top level complete ends it so. -/
theorem reports_next (hs : s.Timely) (hn : next ctx s act = some t) :
    ∃ more, t.log = s.log ++ more ∧ ∀ r ∈ more, r.ender = some topLevelAgentId →
      ∃ text walk, (t.agents topLevelAgentId).phase = .cancelling (.ok (.completed text)) walk := by
  cases act with
  | send command =>
      simp only [next] at hn
      split at hn <;> cases hn
      exact ⟨[], by simp, by simp⟩
  | hangUp | request =>
      cases hn
      exact ⟨[], by simp, by simp⟩
  | step a choice =>
      have hon := taskStep_of_next hs hn
      obtain ⟨hact, -, hstep⟩ := acting_of_next hs hn
      have hattends : Attends False s t a :=
        attends_step hact hstep hon.evolves.grows.interrupts (by rintro ⟨⟩) (by rintro ⟨⟩)
      obtain ⟨more, hlog, hends⟩ := hattends.log
      refine ⟨more, hlog, ?_⟩
      intro r hr htop
      obtain ⟨rfl, htext⟩ := hends r hr _ htop
      exact htext
  | drop a =>
      obtain ⟨rfl, -⟩ := drop_of_next hn
      exact ⟨[], by simp [dropTask, setAgent], by simp⟩

theorem attentive_start : Attentive start := by
  constructor <;> simp [start, Phase.inPoll, Phase.deaf, Phase.slips]

theorem attentive_reachable (h : (machine ctx).ReachableUnder (fun s act => heedful ctx s act = true) s) :
    s.Timely ∧ Attentive s := by
  apply h.invariant (I := fun s => s.Timely ∧ Attentive s)
  · rintro s rfl
    exact ⟨timely_start, attentive_start⟩
  · rintro s t act ⟨hs, hk⟩ hc hn
    exact ⟨timely_next hs (Bool.and_eq_true _ _ ▸ hc).1 hn, attentive_next hs hk hc hn⟩

theorem cancelStep_keeps {result : Except HarnessError TurnOutcome} {walk : Walk}
    (hphase : (s.agents a).phase = .cancelling result walk) (h : s.cancelStep a choice result walk = some t) :
    (∃ walk', (t.agents a).phase = .cancelling result walk') ∨ (t.agents a).phase = .returned result := by
  rw [cancelStep] at h
  split at h
  · split at h <;> cases h
    · exact .inl ⟨_, goto_phase _ _ _⟩
    · exact .inl ⟨_, goto_phase _ _ _⟩
  · cases h
    exact .inr (goto_phase _ _ _)
  · split at h
    · split at h <;> cases h
      · exact .inl ⟨_, goto_phase _ _ _⟩
      · exact .inl ⟨walk, (pend_phase s a).trans hphase⟩
    · split at h
      · cases h
        exact .inl ⟨_, goto_phase _ _ _⟩
      · obtain ⟨child, -, rfl⟩ := Option.map_eq_some_iff.mp h
        exact .inl ⟨_, goto_phase _ _ _⟩

theorem Concludes.next (hs : s.Timely) (hborn : (s.agents b).phase ≠ .unborn)
    (hturn : (s.agents b).phase.inTurn = true) (h : Concludes (s.agents b).phase)
    (hn : next ctx s act = some t) : Concludes (t.agents b).phase := by
  cases act with
  | send command =>
      simp only [next] at hn
      split at hn <;> cases hn
      exact h
  | hangUp | request =>
      cases hn
      exact h
  | step a choice =>
      have hon := taskStep_of_next hs hn
      obtain ⟨-, -, hstep⟩ := acting_of_next hs hn
      by_cases hb : b = a
      · subst hb
        cases hp : (s.agents b).phase with
        | cancelling result walk =>
            simp only [Session.step, hp] at hstep
            rw [hp] at h
            cases h
            rcases cancelStep_keeps hp hstep with ⟨walk', hkeep⟩ | hkeep
            · rw [hkeep]
              exact .cancelling _ _
            · rw [hkeep]
              exact .returned _
        | driving =>
            rw [hp] at h
            cases h
        | _ =>
            rw [hp] at hturn
            cases hturn
      · rw [(hon.staysPut b hb hborn).phase]
        exact h
  | drop a =>
      obtain ⟨rfl, -⟩ := drop_of_next hn
      by_cases hb : b = a
      · subst hb
        simp only [dropTask, setAgent, Function.update_self]
        exact .dropped
      · simpa [dropTask, setAgent, hb] using h

theorem turn_reports (hs : s.Timely) (hk : Attentive s)
    (h : (machine ctx).RunsTo (inTurn (heedful ctx)) s t) :
    t.Timely ∧ Attentive t ∧ ∃ more, t.log = s.log ++ more ∧
      ((∃ r ∈ more, r.ender = some topLevelAgentId) → Concludes (t.agents topLevelAgentId).phase) := by
  induction h with
  | refl => exact ⟨hs, hk, [], by simp, by simp⟩
  | tail _ hc hn ih =>
      obtain ⟨hu, hku, more, hlog, hends⟩ := ih
      obtain ⟨hheed, hturn⟩ := hc
      obtain ⟨new, hnew, hreports⟩ := reports_next hu hn
      refine ⟨timely_next hu (Bool.and_eq_true _ _ ▸ hheed).1 hn, attentive_next hu hku hheed hn,
        more ++ new, by rw [hnew, hlog, List.append_assoc], ?_⟩
      rintro ⟨r, hr, htop⟩
      rcases List.mem_append.mp hr with hr | hr
      · exact (hends ⟨r, hr, htop⟩).next hu hku.born hturn hn
      · obtain ⟨text, walk, hphase⟩ := hreports r hr htop
        rw [hphase]
        exact .cancelling text walk

/-- On the way from an interrupted turn to the next one the session reports the
interrupt, and no turn complete. -/
inductive Unwinding (v : Session) (more : List Record) : Prop
  | returned (phase : (v.agents topLevelAgentId).phase = .returned (.ok .interrupted))
  | interrupting (phase : (v.agents topLevelAgentId).phase = .interrupting)
  | head (phase : (v.agents topLevelAgentId).phase = .head)
      (event : .event (.interrupted topLevelAgentId) ∈ more)
  | away (head : (v.agents topLevelAgentId).phase ≠ .head)
      (interrupting : (v.agents topLevelAgentId).phase ≠ .interrupting)
      (returned : ∀ result, (v.agents topLevelAgentId).phase ≠ .returned result)
      (turn : (v.agents topLevelAgentId).phase.inTurn = false)

theorem Unwinding.of_phase {more new : List Record} (h : Unwinding s more)
    (hphase : (t.agents topLevelAgentId).phase = (s.agents topLevelAgentId).phase) :
    Unwinding t (more ++ new) := by
  cases h with
  | returned phase => exact .returned (hphase.trans phase)
  | interrupting phase => exact .interrupting (hphase.trans phase)
  | head phase event => exact .head (hphase.trans phase) (List.mem_append_left _ event)
  | away head interrupting returned turn =>
      refine .away ?_ ?_ ?_ ?_
      · rwa [hphase]
      · rwa [hphase]
      · rwa [hphase]
      · rwa [hphase]

theorem Unwinding.outside {more : List Record} (h : Unwinding s more) :
    (s.agents topLevelAgentId).phase.inTurn = false := by
  cases h with
  | returned phase | interrupting phase | head phase event =>
      rw [phase]
      rfl
  | away head interrupting returned turn => exact turn

theorem unwinding_step {more new : List Record} (h : Unwinding s more)
    (hafter : (s.agents topLevelAgentId).phase = .interrupting ∨
      ∃ result, (s.agents topLevelAgentId).phase = .returned result)
    (hstep : s.step ctx topLevelAgentId choice = some t) (hlog : t.log = s.log ++ new) :
    Unwinding t (more ++ new) := by
  cases h with
  | returned phase =>
      simp only [step, phase, Option.some.injEq] at hstep
      subst hstep
      unfold returnStep
      split
      · refine .away ?_ ?_ ?_ ?_ <;> simp [completeStep, setAgent, Phase.inTurn]
      · contradiction
      · refine .interrupting ?_
        simp [follow, TopLevel.turnEnded, setAgent]
  | interrupting phase =>
      simp only [step, phase] at hstep
      split at hstep <;> cases hstep
      · refine .head ?_ (List.mem_append_right _ ?_)
        · simp [follow, TopLevel.interruptDone, setAgent]
        · rw [← List.append_cancel_left hlog]
          simp [TopLevel.interruptDone]
      · exact .interrupting ((pend_phase _ _).trans phase)
  | head phase event =>
      rw [phase] at hafter
      simp at hafter
  | away head interrupting returned turn =>
      rcases hafter with hint | ⟨result, hret⟩
      · exact absurd hint interrupting
      · exact absurd hret (returned result)

theorem unwinding_next {more new : List Record} (hs : s.Timely)
    (hborn : (s.agents topLevelAgentId).phase ≠ .unborn) (h : Unwinding s more)
    (hafter : (s.agents topLevelAgentId).phase = .interrupting ∨
      ∃ result, (s.agents topLevelAgentId).phase = .returned result)
    (hn : next ctx s act = some t) (hlog : t.log = s.log ++ new) : Unwinding t (more ++ new) := by
  cases act with
  | send command =>
      simp only [next] at hn
      split at hn <;> cases hn
      exact h.of_phase rfl
  | hangUp | request =>
      cases hn
      exact h.of_phase rfl
  | step a choice =>
      have hon := taskStep_of_next hs hn
      obtain ⟨-, -, hstep⟩ := acting_of_next hs hn
      by_cases ha : topLevelAgentId = a
      · subst ha
        exact unwinding_step h hafter hstep hlog
      · exact h.of_phase (hon.staysPut _ ha hborn).phase
  | drop a =>
      obtain ⟨rfl, -⟩ := drop_of_next hn
      by_cases ha : topLevelAgentId = a
      · subst ha
        refine .away ?_ ?_ ?_ ?_ <;> simp [dropTask, setAgent, Phase.inTurn]
      · apply h.of_phase
        simp [dropTask, setAgent, ha]

theorem unwinding_run (hs : s.Timely) (hk : Attentive s)
    (hphase : (s.agents topLevelAgentId).phase = .returned (.ok .interrupted))
    (h : (machine ctx).RunsTo (afterTurn (heedful ctx)) s t) :
    t.Timely ∧ Attentive t ∧ ∃ more, t.log = s.log ++ more ∧ Unwinding t more ∧
      ∀ r ∈ more, r.ender ≠ some topLevelAgentId := by
  induction h with
  | refl => exact ⟨hs, hk, [], by simp, .returned hphase, by simp⟩
  | tail _ hc hn ih =>
      obtain ⟨hu, hku, more, hlog, hunwinding, hnone⟩ := ih
      obtain ⟨hheed, hafter⟩ := hc
      obtain ⟨new, hnew, hreports⟩ := reports_next hu hn
      have hafter' := unwinding_next hu hku.born hunwinding hafter hn hnew
      refine ⟨timely_next hu (Bool.and_eq_true _ _ ▸ hheed).1 hn, attentive_next hu hku hheed hn,
        more ++ new, by rw [hnew, hlog, List.append_assoc], hafter', ?_⟩
      intro r hr htop
      rcases List.mem_append.mp hr with hr | hr
      · exact hnone r hr htop
      · obtain ⟨text, walk, hcancel⟩ := hreports r hr htop
        have hout := hafter'.outside
        rw [hcancel] at hout
        cases hout

theorem atomic_of_heedful (h : heedful ctx s act = true) : s.atomic act = true :=
  (Bool.and_eq_true _ _ ▸ h).1

/-- An interrupt that comes in time ends the turn of the top level as
interrupted, whatever the turn is doing. -/
theorem interrupted_turn_ends_interrupted
    (hs : (machine ctx).ReachableUnder (fun s act => heedful ctx s act = true) s)
    (hc : heedful ctx s act = true) (hn : next ctx s act = some t)
    (hout : (s.agents topLevelAgentId).phase.inTurn = false)
    (hin : (t.agents topLevelAgentId).phase.inTurn = true) : EndsInterrupted ctx (heedful ctx) t := by
  obtain ⟨hs, hk⟩ := attentive_reachable hs
  have hgen := begins hs hn hout hin
  have ht := timely_next hs (atomic_of_heedful hc) hn
  have hkt := attentive_next hs hk hc hn
  have hduring {u : Session} (hr : (machine ctx).RunsTo (inTurn (heedful ctx)) t u) :
      (machine ctx).RunsTo (during topLevelAgentId) t u :=
    hr.mono fun _ _ h => ⟨atomic_of_heedful h.1, h.2⟩
  constructor
  · intro u result hr hphase hint
    obtain ⟨hu, hku, -⟩ := turn_reports ht hkt hr
    obtain ⟨-, hsame, -⟩ := turn_run ht (hduring hr)
    have hlt : u.generation topLevelAgentId < u.signal.interrupts := by
      rw [hsame, hgen]
      exact hint.lt ht hu
    have hheard := hku.heard hlt
    have hok := (hu.ok topLevelAgentId).phase
    rw [hphase] at hheard hok
    cases result with
    | error error => exact .inr (.error error)
    | ok outcome =>
        cases outcome with
        | completed text => cases hheard
        | interrupted => exact .inl rfl
        | llmFailed message => exact .inr (.llmFailed message)
        | scriptFailed message => exact .inr (.scriptFailed message)
        | shutdownRequested =>
            refine .inr (.shutdown ?_)
            rw [PhaseOk, Concluded, hu.tidy.state] at hok
            exact List.isSome_head?.mp hok
  · intro u v hr hphase hafter hhead
    obtain ⟨hu, hku, more, hlog, hends⟩ := turn_reports ht hkt hr
    obtain ⟨-, -, new, hnew, hunwinding, hnone⟩ := unwinding_run hu hku hphase hafter
    refine ⟨more ++ new, by rw [hnew, hlog, List.append_assoc], ?_, ?_⟩
    · cases hunwinding with
      | returned phase | interrupting phase =>
          rw [hhead] at phase
          cases phase
      | head phase event => exact List.mem_append_right _ event
      | away head interrupting returned turn => exact absurd hhead head
    · intro r hr htop
      rcases List.mem_append.mp hr with hr | hr
      · have hconcludes := hends ⟨r, hr, htop⟩
        rw [hphase] at hconcludes
        cases hconcludes
      · exact hnone r hr htop
  · intro u hr hturn hint
    exact stops (turn_run ht (hduring hr)).1 hturn (due_of_told ht (hduring hr) (.inl hint))

def bashCtx : SessionCtx :=
  ⟨"mock", "headless", [⟨⟨"Bash", "", .null, .both⟩, .sandbox⟩], "", 100, id⟩

def bashResponse (stopReason : StopReason) : CompletionResponse :=
  ⟨[.toolUse "t1" "Bash" .null], stopReason, ⟨0, 0⟩⟩

def bashAfter (c : Session → Act → Bool) (s : Session) (acts : List Act) : Session :=
  ((machine bashCtx).runChecked c s acts).getD s

theorem run_bashAfter {c : Session → Act → Bool} {acts : List Act}
    (h : ((machine bashCtx).runChecked c s acts).isSome = true) :
    (machine bashCtx).runChecked c s acts = some (bashAfter c s acts) := by
  obtain ⟨t, ht⟩ := Option.isSome_iff_exists.mp h
  rw [bashAfter, ht]
  rfl

/-- The session waits for its first prompt. -/
def waiting : Session := bashAfter (heedful bashCtx) start [polled .pending, polled .pending]

theorem waiting_reachable : (machine bashCtx).ReachableUnder (fun s act => heedful bashCtx s act = true) waiting :=
  ⟨start, rfl, Machine.runsTo_of_runChecked (run_bashAfter rfl)⟩

def asked : Session := (next bashCtx waiting (polled (.input (.ok "go")))).getD waiting

theorem asked_of_waiting : next bashCtx waiting (polled (.input (.ok "go"))) = some asked := by
  obtain ⟨t, ht⟩ := Option.isSome_iff_exists.mp
    (by decide : (next bashCtx waiting (polled (.input (.ok "go")))).isSome = true)
  rw [asked, ht]
  rfl

def heedfulInTurn (s : Session) (act : Act) : Bool :=
  heedful bashCtx s act && (s.agents topLevelAgentId).phase.inTurn

def atomicInTurn (s : Session) (act : Act) : Bool :=
  s.atomic act && (s.agents topLevelAgentId).phase.inTurn

def interruptCall (stopReason : StopReason) : List Act :=
  [polled .pending, polled (.completion (.ok (bashResponse stopReason))), polled .pending, polled .pending,
   .send .interrupt, polled .pending, polled (.sandboxInterrupt none), polled (.sandbox (.ok ⟨"", false⟩)),
   polled .pending, polled .pending, polled .pending]

/-- After a response that asks for tools the next checkpoint ends the turn. -/
def carriedOn : Session := bashAfter heedfulInTurn asked (interruptCall .toolUse ++ [polled .pending])

theorem interrupted_turn_ends_interrupted_toolUse :
    EndsInterrupted bashCtx (heedful bashCtx) asked ∧
      (machine bashCtx).RunsTo (inTurn (heedful bashCtx)) asked carriedOn ∧
      (carriedOn.agents topLevelAgentId).phase = .returned (.ok .interrupted) ∧
      Interrupted asked carriedOn := by
  have hrun : (machine bashCtx).RunsTo (inTurn (heedful bashCtx)) asked carriedOn := by
    refine (Machine.runsTo_of_runChecked (run_bashAfter rfl)).mono ?_
    intro s act h
    rw [heedfulInTurn, Bool.and_eq_true] at h
    exact h
  refine ⟨?_, hrun, rfl, ⟨[.interrupt], by decide, by simp⟩⟩
  exact interrupted_turn_ends_interrupted waiting_reachable rfl asked_of_waiting
    rfl rfl

def cutShort : Session := bashAfter atomicInTurn asked (interruptCall .endTurn)

/-- An interrupt during the last call of a response with another stop reason
is followed by the report of a complete turn. -/
theorem interrupted_turn_completes :
    ¬ ∀ (ctx : SessionCtx) (s t : Session) (act : Act),
      (machine ctx).ReachableUnder (fun s act => s.atomic act = true) s → s.atomic act = true →
      next ctx s act = some t → (s.agents topLevelAgentId).phase.inTurn = false →
      (t.agents topLevelAgentId).phase.inTurn = true → EndsInterrupted ctx atomic t := by
  intro hall
  have hrun : (machine bashCtx).RunsTo (inTurn atomic) asked cutShort := by
    refine (Machine.runsTo_of_runChecked (run_bashAfter rfl)).mono ?_
    intro s act h
    rw [atomicInTurn, Bool.and_eq_true] at h
    exact h
  have hends := hall bashCtx waiting asked (polled (.input (.ok "go")))
    (waiting_reachable.mono fun _ _ => atomic_of_heedful) rfl asked_of_waiting
    rfl rfl
  have hphase : (cutShort.agents topLevelAgentId).phase = .returned (.ok (.completed "")) := rfl
  rcases hends.outcome cutShort _ hrun hphase ⟨[.interrupt], by decide, by simp⟩ with h | h
  · cases h
  · cases h

end Session

end Silo.Harness
