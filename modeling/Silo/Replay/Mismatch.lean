import Silo.Harness.Failures
import Silo.Harness.Run
import Silo.Replay.Script

namespace Silo.Replay

open Silo.Core Silo.Lib Silo.Harness Silo.Harness.Session
open Silo.Harness.Run (RunError HarnessOutcome)

/-- What a scripted session has besides its context. `display` writes a value as
JSON text and `overQuota` is the check of the meter against the quota. -/
structure ScriptedCtx where
  session : SessionCtx
  display : Json → String
  overQuota : List TokenDelta → Option String

/-- A scripted session. `mismatched` says that a call of an agent for a turn of
the model or a tool execution was refused by the script. -/
structure ScriptedRun where
  session : Session
  script : SharedScript
  usage : List TokenDelta
  mismatched : Bool

def matchableBlock : ContentBlock → ContentBlock
  | .toolResult _ content _ => .text content
  | block => block

def matchable (request : CompletionRequest) : CompletionRequest :=
  { request with messages := request.messages.map fun m => ⟨m.role, m.content.map matchableBlock⟩ }

namespace ScriptedRun

variable (ctx : ScriptedCtx) (p : ScriptedRun)

/-- `complete` of the mock backend. -/
def complete (request : CompletionRequest) : Except LlmError CompletionResponse × ScriptedRun :=
  match ctx.overQuota p.usage with
  | some detail => (.error (.quotaExceeded detail), p)
  | none =>
    match p.script.nextLlm (matchable request) with
    | .ok (response, script) => (.ok response, { p with script := script, usage := p.usage ++ [response.usage] })
    | .error error => (.error error, { p with mismatched := true })

/-- `run_tool` of the mock sandbox, for an agent. -/
def runTool (call : ToolCall) : Except SandboxError ToolOutput × ScriptedRun :=
  match p.script.nextTool ctx.display call with
  | .ok (output, script) => (.ok output, { p with script := script })
  | .error error => (.error error, { p with mismatched := true })

/-- What a step asks of the mock components, which answer at once. -/
inductive Query
  | llm (request : CompletionRequest)
  | tool (call : ToolCall)

/-- The request for a completion is polled after the wait for an abort, a tool
before it. -/
def query (s : Session) (a : AgentId) (choice : Choice) : Option Query :=
  match (s.agents a).phase with
  | .driving .asking _ =>
    if (s.pollWait a (s.turnWait a) choice.command).2.isNone then
      some (.llm ((s.drive a .asking).request ctx.session (s.turn a)))
    else none
  | .driving stage .sandbox | .driving stage .sandboxDrain => (currentCall stage).map .tool
  | .driving stage (.read path) =>
    (currentCall stage).map fun call =>
      .tool ⟨call.id ++ "-read", "Read", .object [("path", .string path)]⟩
  | _ => none

def answer : Query → Answer × ScriptedRun
  | .llm request => ((p.complete ctx request).1 |> .completion, (p.complete ctx request).2)
  | .tool call => ((p.runTool ctx call).1 |> .sandbox, (p.runTool ctx call).2)

/-- The session moves, the mock frontend takes a step of the script, or the upload
listener stores a file. -/
inductive Move
  | act (act : Act)
  | frontend
  | upload (call : ToolCall)

def next : Move → Option ScriptedRun
  | .act (.step a choice) =>
    match query ctx p.session a choice with
    | some asked =>
      (Session.next ctx.session p.session (.step a { choice with answer := (p.answer ctx asked).1 })).map
        fun s => { (p.answer ctx asked).2 with session := s }
    | none => (Session.next ctx.session p.session (.step a choice)).map fun s => { p with session := s }
  | .act act => (Session.next ctx.session p.session act).map fun s => { p with session := s }
  | .frontend => some { p with script := p.script.nextFrontend.2 }
  | .upload call =>
    match p.script.nextTool ctx.display call with
    | .ok (_, script) => some { p with script := script }
    | .error _ => some p

def start (script : TestScript) : ScriptedRun := ⟨.start, .new script, [], false⟩

def machine : Machine ScriptedRun Move := ⟨fun p => ∃ script, p = start script, next ctx⟩

end ScriptedRun

namespace SharedScript

variable (st : SharedScript)

def remainingSummary : String :=
  "llm " ++ toString (st.llmConsumed.count true) ++ "/" ++ toString st.script.llm.length ++
    ", tools " ++ toString (st.toolConsumed.count true) ++ "/" ++ toString st.script.tools.length ++
    ", frontend " ++ toString st.frontendCursor ++ "/" ++ toString st.script.frontend.length

/-- `shutdown` of the mock frontend. -/
def shutdown (message : Option String) : Except FrontendError Unit × SharedScript :=
  match st.peekFrontend with
  | some (.expectShutdown expected) =>
    let consumed := st.nextFrontend.2
    match expected with
    | some needle =>
      let actual := message.getD ""
      if contains actual needle then (.ok (), consumed)
      else (.error (.scriptMismatch ("shutdown message " ++ debugString actual ++ " does not contain " ++
        debugString needle)), consumed)
    | none => (.ok (), consumed)
  | _ => (.ok (), st)

/-- `finish` after the session. `reclaimed` says that no task is left with a
reference to the frontend, and `others` is the first failure of the components
shut down after it. -/
def finish (reclaimed : Bool) (message : Option String) (others : Option RunError) :
    Except RunError Unit × SharedScript :=
  let (closed, script) := if reclaimed then st.shutdown message else (.ok (), st)
  match closed, others with
  | .error error, _ => (.error (.conversation (.frontend error)), script)
  | .ok _, some error => (.error error, script)
  | .ok _, none => (.ok (), script)

end SharedScript

def isScriptMismatch : Except RunError Unit → Bool
  | .error error => error.isScriptMismatch
  | .ok _ => false

def finalMessage (ending : SessionEnd) : Option String :=
  if ending.llmFailure.isSome || ending.scriptMismatch.isSome then none else ending.message

def scriptFailure (ending : SessionEnd) (finished : Except RunError Unit) (script : SharedScript) :
    Option String :=
  Run.scriptFailure (script.finished, script.remainingSummary) ending (isScriptMismatch finished)

/-- The end of `run` for a scripted session whose loop has returned: its result,
and the script as it is left. -/
def endRun (ending : SessionEnd) (st : SharedScript) (reclaimed : Bool) (others : Option RunError) :
    Except RunError HarnessOutcome × SharedScript :=
  let (finished, script) := st.finish reclaimed (finalMessage ending) others
  let outcome : HarnessOutcome := ⟨ending.message, ending.llmFailure, scriptFailure ending finished script⟩
  match finished with
  | .error error => if isScriptMismatch finished then (.ok outcome, script) else (.error error, script)
  | .ok _ => (.ok outcome, script)

namespace SharedScript

variable {st : SharedScript}

theorem nextLlm_mismatch {request : CompletionRequest} {error : LlmError} (h : st.nextLlm request = .error error) :
    ∃ detail, error = .scriptMismatch detail := by
  rw [nextLlm] at h
  split at h
  · cases h
    exact ⟨_, rfl⟩
  · simp only at h
    split at h
    · cases h
    · cases h
      exact ⟨_, rfl⟩

theorem nextTool_mismatch {display : Json → String} {call : ToolCall} {error : SandboxError}
    (h : st.nextTool display call = .error error) : ∃ detail, error = .scriptMismatch detail := by
  rw [nextTool] at h
  split at h
  · cases h
    exact ⟨_, rfl⟩
  · split at h
    · cases h
    · cases h
      exact ⟨_, rfl⟩

end SharedScript

theorem scriptFailure_none {ending : SessionEnd} {finished : Except RunError Unit} {script : SharedScript}
    (h : scriptFailure ending finished script = none) :
    ending.scriptMismatch = none ∧ script.finished = true := by
  rw [scriptFailure, Run.scriptFailure] at h
  split at h
  · cases h
  · rename_i hending
    split at h
    · cases h
    · split at h
      · rename_i hfinished
        exact ⟨hending, hfinished⟩
      · cases h

theorem endRun_result {ending : SessionEnd} {st script : SharedScript} {reclaimed deterministic : Bool}
    {others : Option RunError} {finished : Except RunError Unit} {f : Run.Finish} (hending : f.ending = .ended ending)
    (hfinish : st.finish reclaimed (finalMessage ending) others = (finished, script))
    (hfirst : f.firstError = match finished with
      | .ok _ => none
      | .error error => some error) :
    (endRun ending st reclaimed others).1 =
      f.result ⟨some (script.finished, script.remainingSummary), deterministic⟩ := by
  rw [endRun, hfinish, Run.Finish.result, hending, hfirst]
  cases finished with
  | ok => rfl
  | error error =>
      have hmismatch : isScriptMismatch (.error error) = error.isScriptMismatch := rfl
      cases herror : error.isScriptMismatch <;> simp [scriptFailure, hmismatch, herror]

/-- A run that does not fail for its script ended without a mismatch, with the
script consumed. -/
theorem endRun_clean {ending : SessionEnd} {st : SharedScript} {reclaimed : Bool} {others : Option RunError}
    {outcome : HarnessOutcome} (h : (endRun ending st reclaimed others).1 = .ok outcome)
    (hnone : outcome.scriptFailure = none) :
    ending.scriptMismatch = none ∧ (endRun ending st reclaimed others).2.finished = true := by
  unfold endRun at h ⊢
  simp only at h ⊢
  split at h
  · split at h
    · rename_i hmismatch
      cases h
      rw [if_pos hmismatch]
      exact scriptFailure_none hnone
    · cases h
  · cases h
    exact scriptFailure_none hnone

namespace ScriptedRun

variable {ctx : ScriptedCtx} {p q : ScriptedRun} {a : AgentId} {choice : Choice}

/-- The steps that lose no failure. -/
def faithful (p : ScriptedRun) : Move → Bool
  | .act act => p.session.disciplined act && p.session.keepsFailures act
  | _ => true

theorem mismatch_llm {request : CompletionRequest} (hclear : p.mismatched = false)
    (h : (p.complete ctx request).2.mismatched = true) :
    ∃ detail, (p.complete ctx request).1 = .error (.scriptMismatch detail) := by
  unfold complete at h ⊢
  split at h
  · rw [hclear] at h
    cases h
  · split at h
    · rw [hclear] at h
      cases h
    · rename_i hnone error heq
      obtain ⟨detail, rfl⟩ := SharedScript.nextLlm_mismatch heq
      exact ⟨detail, rfl⟩

theorem mismatch_tool {call : ToolCall} (hclear : p.mismatched = false)
    (h : (p.runTool ctx call).2.mismatched = true) :
    ∃ detail, (p.runTool ctx call).1 = .error (.scriptMismatch detail) := by
  unfold runTool at h ⊢
  split at h
  · rw [hclear] at h
    cases h
  · rename_i error heq
    obtain ⟨detail, rfl⟩ := SharedScript.nextTool_mismatch heq
    exact ⟨detail, rfl⟩

theorem failed_llm {s t : Session} {detail : String} {tool : ToolPc}
    (hstep : s.step ctx.session a choice = some t) (hphase : (s.agents a).phase = .driving .asking tool)
    (hpolled : (s.pollWait a (s.turnWait a) choice.command).2 = none)
    (hanswer : choice.answer = .completion (.error (.scriptMismatch detail))) :
    (t.agents a).phase.failed = true ∧ (t.agents a).running = true := by
  simp only [step, hphase, driveStep, Option.some.injEq] at hstep
  subst hstep
  rw [orAbort]
  split
  · rename_i u reason heq
    rw [heq] at hpolled
    cases hpolled
  · rw [completionReady]
    rw [hanswer]
    have hcancels : ∀ x : Agent, ∀ message walk, x.phase = .cancelling (.ok (.scriptFailed message)) walk →
        x.phase.failed = true ∧ x.running = true := by
      intro x message walk hx
      rw [Agent.running, hx]
      exact ⟨rfl, rfl⟩
    exact hcancels _ _ _ (advance_phase _ _ _)

theorem failed_toolEnds (s : Session) (a : AgentId) (stage : Stage) (message : String) :
    ((s.toolEnds a stage (.ok (.scriptFailed message))).agents a).phase.failed = true ∧
      ((s.toolEnds a stage (.ok (.scriptFailed message))).agents a).running = true := by
  have hphase := toolEnds_phase s a stage (.ok (.scriptFailed message))
  rw [Agent.running, hphase]
  exact ⟨rfl, rfl⟩

theorem failed_tool_answer {s t : Session} {detail : String} {stage : Stage} {tool : ToolPc}
    (htidy : (s.agents a).Tidy) (hphase : (s.agents a).phase = .driving stage tool)
    (htool : tool = .sandbox ∨ tool = .sandboxDrain ∨ ∃ path, tool = .read path)
    (hanswer : choice.answer = .sandbox (.error (.scriptMismatch detail)))
    (hstep : s.step ctx.session a choice = some t) :
    (t.agents a).phase.failed = true ∧ (t.agents a).running = true := by
  have hok := htidy.tools
  rw [hphase] at hok
  cases stage with
  | running response results =>
      simp only [step, hphase, driveStep] at hstep
      obtain ⟨call, -, hcall⟩ := Option.bind_eq_some_iff.mp hstep
      rcases htool with rfl | rfl | ⟨path, rfl⟩
      · simp only [outsideStep, hanswer, Option.some_or, Option.some.injEq] at hcall
        subst hcall
        exact failed_toolEnds _ a _ _
      · simp only [outsideStep, hanswer, Option.some_or, Option.some.injEq] at hcall
        subst hcall
        exact failed_toolEnds _ a _ _
      · simp only [outsideStep, hanswer, Option.some_or, Option.some.injEq] at hcall
        subst hcall
        exact failed_toolEnds _ a _ _
  | top | asking | calling | ended =>
      rcases htool with rfl | rfl | ⟨path, rfl⟩ <;> cases hok

theorem failed_query {s t : Session} {asked : Query} (htidy : (s.agents a).Tidy)
    (hquery : query ctx s a choice = some asked) (hclear : p.mismatched = false)
    (hmis : (p.answer ctx asked).2.mismatched = true)
    (hstep : s.step ctx.session a { choice with answer := (p.answer ctx asked).1 } = some t) :
    (t.agents a).phase.failed = true ∧ (t.agents a).running = true := by
  have htool : ∀ {stage tool}, (s.agents a).phase = .driving stage tool →
      (tool = .sandbox ∨ tool = .sandboxDrain ∨ ∃ path, tool = .read path) → (∃ call, asked = .tool call) →
      (t.agents a).phase.failed = true ∧ (t.agents a).running = true := by
    rintro stage tool hphase htool ⟨call, rfl⟩
    obtain ⟨detail, hdetail⟩ := mismatch_tool hclear hmis
    exact failed_tool_answer htidy hphase htool (congrArg Answer.sandbox hdetail) hstep
  rw [query] at hquery
  split at hquery
  · rename_i tool hphase
    split at hquery
    · rename_i hpolled
      cases hquery
      obtain ⟨detail, hdetail⟩ := mismatch_llm hclear hmis
      exact failed_llm hstep hphase (Option.isNone_iff_eq_none.mp hpolled)
        (congrArg Answer.completion hdetail)
    · cases hquery
  · rename_i stage _ hphase
    obtain ⟨call, -, rfl⟩ := Option.map_eq_some_iff.mp hquery
    exact htool hphase (.inl rfl) ⟨call, rfl⟩
  · rename_i stage _ hphase
    obtain ⟨call, -, rfl⟩ := Option.map_eq_some_iff.mp hquery
    exact htool hphase (.inr (.inl rfl)) ⟨call, rfl⟩
  · rename_i stage path _ hphase
    obtain ⟨call, -, rfl⟩ := Option.map_eq_some_iff.mp hquery
    exact htool hphase (.inr (.inr ⟨path, rfl⟩)) ⟨_, rfl⟩
  · cases hquery

/-- What holds of a scripted run that loses no failure: a mismatch is with
somebody who will report it. -/
structure Sound (p : ScriptedRun) : Prop where
  familyInv : FamilyInv p.session
  kept : Kept p.session
  carried : p.mismatched = true → Carried p.session

theorem Sound.act {act : Act} {s : Session} (h : Sound p) (hf : p.faithful (.act act) = true)
    (hnext : Session.next ctx.session p.session act = some s) :
    FamilyInv s ∧ Kept s ∧ (Carried p.session → Carried s) := by
  simp only [faithful, Bool.and_eq_true] at hf
  exact ⟨familyInv_next h.familyInv hnext, kept_next h.kept hf.1 hnext,
    h.familyInv.carried_next h.kept hf.1 hf.2 hnext⟩

theorem next_act {act : Act} (h : ∀ a choice, act ≠ .step a choice) :
    next ctx p (.act act) =
      (Session.next ctx.session p.session act).map fun s => { p with session := s } := by
  cases act with
  | step a choice => exact absurd rfl (h a choice)
  | _ => rfl

theorem sound_next {move : Move} (h : Sound p) (hf : p.faithful move = true) (hnext : next ctx p move = some q) :
    Sound q := by
  have hplain : ∀ {act s}, p.faithful (.act act) = true → Session.next ctx.session p.session act = some s →
      Sound { p with session := s } := by
    intro act s hf hs
    obtain ⟨hfamilyInv, hkept, hcarried⟩ := h.act hf hs
    exact ⟨hfamilyInv, hkept, fun hmis => hcarried (h.carried hmis)⟩
  cases move with
  | frontend =>
      cases hnext
      exact ⟨h.familyInv, h.kept, h.carried⟩
  | upload call =>
      simp only [next] at hnext
      split at hnext <;> cases hnext
      · exact ⟨h.familyInv, h.kept, h.carried⟩
      · exact h
  | act act =>
      cases act with
      | send | hangUp | request | drop =>
          rw [next_act] at hnext
          · obtain ⟨s, hs, rfl⟩ := Option.map_eq_some_iff.mp hnext
            exact hplain hf hs
          · exact fun _ _ => nofun
      | step a choice =>
          simp only [next] at hnext
          split at hnext
          · rename_i asked hquery
            obtain ⟨s, hs, rfl⟩ := Option.map_eq_some_iff.mp hnext
            have hf' : p.faithful (.act (.step a { choice with answer := (p.answer ctx asked).1 })) = true := hf
            obtain ⟨hfamilyInv, hkept, hcarried⟩ := h.act hf' hs
            refine ⟨hfamilyInv, hkept, ?_⟩
            intro hmis
            cases hclear : p.mismatched with
            | true => exact hcarried (h.carried hclear)
            | false =>
                simp only [Session.next] at hs
                split at hs
                · cases hs
                · obtain ⟨hfailed, hrun⟩ := failed_query (h.familyInv.tidy a) hquery hclear hmis hs
                  exact ⟨a, hfailed, hfamilyInv.held_of_running hkept hrun⟩
          · obtain ⟨s, hs, rfl⟩ := Option.map_eq_some_iff.mp hnext
            exact hplain hf hs

theorem sound_of_reachable (h : (machine ctx).ReachableUnder (fun p move => p.faithful move = true) p) :
    Sound p := by
  refine h.invariant ?_ fun hs hf hnext => sound_next hs hf hnext
  rintro _ ⟨script, rfl⟩
  exact ⟨familyInv_start, kept_start, nofun⟩

/-- In every scripted run where no subagent that has met a mismatch is cancelled,
no child is aborted with a child handle in its hands and no aborted task moves
one: if an agent met a mismatch, or an entry of the script is left at the end,
`run` does not end well without a script failure. -/
theorem mismatch_reported (h : (machine ctx).ReachableUnder (fun p move => p.faithful move = true) p)
    {ending : SessionEnd} (hover : (p.session.agents topLevelAgentId).phase = .over (.ok ending))
    (reclaimed : Bool) (others : Option RunError)
    (hbad : p.mismatched = true ∨ (endRun ending p.script reclaimed others).2.finished = false) :
    ∀ outcome, (endRun ending p.script reclaimed others).1 = .ok outcome → outcome.scriptFailure ≠ none := by
  intro outcome hok hnone
  obtain ⟨hending, hfinished⟩ := endRun_clean hok hnone
  rcases hbad with hmis | hleft
  · have hsound := sound_of_reachable h
    exact hsound.familyInv.not_carried hsound.kept hover hending (hsound.carried hmis)
  · rw [hfinished] at hleft
    cases hleft

def scriptedCtx : ScriptedCtx := ⟨{ familyCtx with frontendKind := "mock" }, fun _ => "", fun _ => none⟩

def sessionEnd : Phase → Option SessionEnd
  | .over (.ok ending) => some ending
  | _ => none

theorem exists_over {phase : Phase} {ending : SessionEnd} (h : sessionEnd phase = some ending) :
    phase = .over (.ok ending) := by
  unfold sessionEnd at h
  split at h
  · cases h
    rfl
  · cases h

theorem exists_of_script (script : TestScript) (c : ScriptedRun → Move → Bool) (moves : List Move)
    (good : ScriptedRun → Bool)
    (h : ((machine scriptedCtx).runChecked c (start script) moves).any good = true) :
    ∃ p, (machine scriptedCtx).ReachableUnder (fun p move => c p move = true) p ∧ good p = true :=
  Machine.exists_of_runChecked c moves good ⟨script, rfl⟩ h

def promptOnly : TestScript := ⟨"prompt only", [], [], [.sendPrompt "start"]⟩

def promptOnlyMoves : List Move :=
  .frontend :: (prompted ++ [goes 0, goes 0, goes 0, goes 0, goes 0]).map .act

theorem mismatch_reported_promptOnly :
    ∃ p ending, (machine scriptedCtx).ReachableUnder (fun p move => p.faithful move = true) p ∧
      (p.session.agents topLevelAgentId).phase = .over (.ok ending) ∧ p.mismatched = true ∧
      ∀ outcome, (endRun ending p.script true none).1 = .ok outcome → outcome.scriptFailure ≠ none := by
  obtain ⟨p, hr, hp⟩ := exists_of_script promptOnly faithful promptOnlyMoves
    (fun p => (sessionEnd (p.session.agents topLevelAgentId).phase).isSome && p.mismatched) rfl
  rw [Bool.and_eq_true] at hp
  obtain ⟨ending, hending⟩ := Option.isSome_iff_exists.mp hp.1
  exact ⟨p, ending, hr, exists_over hending, hp.2,
    mismatch_reported hr (exists_over hending) true none (.inl hp.2)⟩

/-- One turn starts a subagent and the next one ends; there is none for the
subagent. -/
def noTurnForChild : TestScript where
  name := "no turn for the child"
  llm :=
    [⟨none, ⟨[.toolUse "t" "Agent" (.object [("prompt", .string "help")])], .toolUse, ⟨1, 1⟩⟩⟩,
     ⟨none, ⟨[.text "done"], .endTurn, ⟨1, 1⟩⟩⟩]
  tools := []
  frontend := [.sendPrompt "start"]

/-- The subagent asks when the script is used up. It ends, is cancelled with the
turn, and the frontend has no further prompt. -/
def noTurnForChildMoves : List Move :=
  .frontend :: (prompted ++ [goes 0, goes 0, goes 0, goes 0, goes 0, goes 0, goes 0, goes 1, goes 0] ++
    [goes 1, goes 1, goes 1, goes 1, goes 1] ++
    [goes 0, cancels 0 1, goes 0, goes 0, goes 0, goes 0, goes 0, goes 0,
     hears 0 (.input (.error (.scriptMismatch
       "frontend script exhausted when asked for user input (remaining: llm 2/2, tools 0/0, frontend 1/1)")))]).map
    .act

def clean : Except RunError HarnessOutcome → Bool
  | .ok outcome => outcome.scriptFailure.isNone
  | .error _ => false

theorem exists_clean {result : Except RunError HarnessOutcome} (h : clean result = true) :
    ∃ outcome, result = .ok outcome ∧ outcome.scriptFailure = none := by
  cases result with
  | ok outcome => exact ⟨outcome, rfl, Option.isNone_iff_eq_none.mp h⟩
  | error error => cases h

theorem cancelled_mismatch_lost :
    ∃ p ending outcome, (machine scriptedCtx).Reachable p ∧
      (p.session.agents topLevelAgentId).phase = .over (.ok ending) ∧ p.mismatched = true ∧
      (endRun ending p.script true none).1 = .ok outcome ∧ outcome.scriptFailure = none := by
  obtain ⟨p, hr, hp⟩ := exists_of_script noTurnForChild (fun _ _ => true) noTurnForChildMoves
    (fun p => p.mismatched && (sessionEnd (p.session.agents topLevelAgentId).phase).any fun ending =>
      clean (endRun ending p.script true none).1) rfl
  rw [Bool.and_eq_true] at hp
  obtain ⟨ending, hending, hclean⟩ := (Option.any_eq_true ..).mp hp.2
  obtain ⟨outcome, hok, hnone⟩ := exists_clean hclean
  exact ⟨p, ending, outcome, hr.reachable, exists_over hending, hp.1, hok, hnone⟩

end ScriptedRun

end Silo.Replay
