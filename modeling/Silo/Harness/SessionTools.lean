import Silo.Harness.Session

namespace Silo.Harness

open Silo.Core

def debugChar : Char → String
  | '"' => "\\\""
  | '\\' => "\\\\"
  | '\n' => "\\n"
  | '\r' => "\\r"
  | '\t' => "\\t"
  | '\x00' => "\\0"
  | c => c.toString

/-- `{:?}` of a string whose characters print as themselves but for the usual
escapes. -/
def debugString (text : String) : String := "\"" ++ String.join (text.toList.map debugChar) ++ "\""

def harnessOk (message : String) : Except HarnessError ToolDisposition :=
  .ok (.output "harness" (.ok message))

def harnessError (message : String) : Except HarnessError ToolDisposition :=
  .ok (.output "harness" (.error message))

def AbortReason.disposition : AbortReason → ToolDisposition
  | .shutdown _ => .shutdown
  | .interrupted => .interrupted

def errorEvent (context message : String) : Record := .event (.error context message)

namespace Session

variable (ctx : SessionCtx) (s : Session) (a : AgentId) (stage : Stage) (call : ToolCall)

def toTool (tool : ToolPc) : Session := s.goto a (.driving stage tool)

def toolEnds (result : Except HarnessError ToolDisposition) : Session :=
  s.toTool a stage (.done result)

/-- When `drive_inner` returns, the uncollected children are next. -/
def phaseOf : Stage → Phase
  | .ended result => .cancelling result ⟨some a, []⟩
  | stage => .driving stage .idle

def advance (step : Advance) : Session :=
  (s.record step.2).setAgent a { s.agents a with
    messages := step.1.messages, phase := phaseOf a step.1.stage, suspended := false }

/-- The pool of `a`, made when it has none. -/
def poolEntry : Session × ChildPool :=
  match s.registry a with
  | some pool => (s, pool)
  | none =>
    let pool := ⟨[], s.nextChan, some s.nextChan⟩
    ({ s with nextChan := s.nextChan + 1 }.setPool a (some pool), pool)

theorem poolEntry_cases :
    (∃ pool, s.registry a = some pool ∧ s.poolEntry a = (s, pool)) ∨
      (s.registry a = none ∧ s.poolEntry a =
        ({ s with nextChan := s.nextChan + 1 }.setPool a (some ⟨[], s.nextChan, some s.nextChan⟩),
          ⟨[], s.nextChan, some s.nextChan⟩)) := by
  rw [poolEntry]
  split
  · rename_i pool hreg
    exact .inl ⟨pool, hreg, rfl⟩
  · rename_i hreg
    exact .inr ⟨hreg, rfl⟩

def insertChild (child : ChildHandle) : Session :=
  let (s', pool) := s.poolEntry a
  s'.setPool a (some { pool with children := pool.children ++ [child] })

def putDoneRx (chan : Nat) : Session :=
  s.setPool a ((s.registry a).map fun pool => { pool with doneRx := some chan })

def runAgentTool : Session :=
  let x := s.agents a
  match ((call.input.get "prompt").bind Json.asStr).filter (· ≠ "") with
  | none => s.toolEnds a stage (harnessError "Agent requires a non-empty 'prompt' string")
  | some prompt =>
    if maxSubagentDepth ≤ x.turn.depth then
      s.toolEnds a stage (harnessError ("subagent depth limit (" ++ toString maxSubagentDepth ++ ") reached"))
    else if s.permits = 0 then
      s.toolEnds a stage (harnessError
        ("subagent concurrency limit (" ++ toString maxConcurrentSubagents ++ ") reached"))
    else
      let child : ChildHandle :=
        ⟨s.counter, ((call.input.get "name").bind Json.asStr).filter (· ≠ "")⟩
      { s with counter := s.counter + 1, permits := s.permits - 1 }.record
        [.event (.agentSpawned a child.id child.name prompt)]
        |>.toTool a stage (.spawnEntry child prompt s.signal.interruptGeneration)

/-- `execute_tool` up to its first suspension or lock. -/
def startTool : Session :=
  match ctx.registry.ownerOf call.name with
  | some .sandbox => s.toTool a stage .sandbox
  | some .frontend =>
    match (if call.name = "SendUserFile" then (call.input.get "path").bind Json.asStr else none) with
    | some path => s.toTool a stage (.read path)
    | none => s.toTool a stage (.frontend call)
  | some .harness =>
    if call.name = "AwaitAgent" then
      match ((call.input.get "agent").bind Json.asStr).filter (· ≠ "") with
      | some requested => s.toTool a stage (.awaitKnown requested)
      | none => s.toTool a stage .awaitHas
    else s.runAgentTool a stage call
  | none => s.toolEnds a stage (harnessError ("unknown tool: " ++ call.name))

def afterSandbox : Except SandboxError ToolOutput → Session
  | .ok output => s.toolEnds a stage (.ok (.output "sandbox" output))
  | .error (.scriptMismatch detail) =>
    let message := (SandboxError.scriptMismatch detail).display
    (s.record [.journal (.lifecycle
      ("sandbox script mismatch for " ++ agentName a ++ ": " ++ message))]).toolEnds a stage
      (.ok (.scriptFailed message))
  | .error error =>
    (s.record [errorEvent ("sandbox tool " ++ call.name) error.display]).toolEnds a stage
      (.error (.sandbox error))

def afterRead (path : String) : Except SandboxError ToolOutput → Session
  | .ok output =>
    let s' := s.record [.journal (.toolExec a "sandbox"
      ⟨call.id ++ "-read", "Read", .object [("path", .string path)]⟩ output)]
    if output.isError then
      s'.toolEnds a stage (.ok (.output "frontend"
        (.error ("SendUserFile: cannot read " ++ path ++ ": " ++ output.content))))
    else
      s'.toTool a stage (.frontend
        { call with input := call.input.insert "content_b64" (.string (ctx.b64 output.content)) })
  | .error (.scriptMismatch detail) =>
    let message := (SandboxError.scriptMismatch detail).display
    (s.record [.journal (.lifecycle
      ("sandbox script mismatch for " ++ agentName a ++ ": " ++ message))]).toolEnds a stage
      (.ok (.scriptFailed message))
  | .error error =>
    (s.record [errorEvent "sandbox tool Read (SendUserFile)" error.display]).toolEnds a stage
      (.error (.sandbox error))

def afterFrontend : Except FrontendError ToolOutput → Session
  | .ok output => s.toolEnds a stage (.ok (.output "frontend" output))
  | .error error =>
    let s' := s.setSignal s.signal.check.1
    if s.signal.check.2.isSome then s'.toolEnds a stage (.ok .shutdown)
    else
      (s'.record [errorEvent ("frontend tool " ++ call.name) error.display]).toolEnds a stage
        (.error (.frontend error))

def spawnChild (child : ChildHandle) (prompt : String) (generation : Nat) : Session :=
  let (s', pool) := s.poolEntry a
  s'.setAgent child.id
    { parent := some a
      turn := ⟨child.id, .subagent, (s.agents a).turn.depth + 1, generation⟩
      messages := [.userText prompt]
      failures := 0
      phase := .driving .top .idle
      wait := none
      suspended := true
      aborted := false
      emitted := false
      doneTx := pool.chan }

def startedMessage (child : ChildHandle) : String :=
  "Started subagent '" ++ child.name.getD (agentName child.id) ++ "' (" ++ agentName child.id ++
    "). It runs in the background; collect it with AwaitAgent. Pass agent " ++
    debugString (agentName child.id) ++ " to wait for this one."

/-- The disposition of an AwaitAgent call whose child has finished. -/
def collected (child : ChildHandle) (result : ChildResult) : ToolDisposition :=
  if result.shutdown then .shutdown
  else
    match result.scriptFailure with
    | some detail => .scriptFailed detail
    | none =>
      .output "harness"
        ⟨"Subagent '" ++ child.name.getD (agentName child.id) ++ "' (" ++ agentName child.id ++
          ") finished.\n" ++ result.output, result.isError⟩

def children : List ChildHandle := ((s.registry a).map ChildPool.children).getD []

def chanClosed (chan : Nat) : Bool :=
  (List.range s.counter).all fun b =>
    (s.registry b).all (fun pool => pool.chan ≠ chan) &&
      (!(s.agents b).running || (s.agents b).doneTx ≠ chan) &&
      match (s.agents b).phase with
      | .cancelling _ walk => walk.frames.all fun f => f.chan ≠ chan
      | _ => true

/-- The wait of a `select`: its abort, or whatever the other branch does after
it has been found pending. -/
def orAbort (kind : WaitKind) (choice : Choice) (onAbort : Session → AbortReason → Session)
    (other : Session → Session) : Session :=
  match s.pollWait a kind choice.command with
  | (s', some reason) => onAbort s' reason
  | (s', none) => other s'

def turnWait : WaitKind := .abort (s.agents a).turn.generation

def sandboxAborted (s' : Session) : AbortReason → Session
  | .shutdown _ => s'.toolEnds a stage (.ok .shutdown)
  | .interrupted => s'.toTool a stage .sandboxInterrupt

def frontendAborted (forwarded : ToolCall) (s' : Session) : AbortReason → Session
  | .shutdown _ => s'.toolEnds a stage (.ok .shutdown)
  | .interrupted => s'.toTool a stage (.frontendInterrupt forwarded)

def joinReady (child : ChildHandle) (choice : Choice) (s' : Session) : Session :=
  let freed := { s'.dropWait a with permits := s'.permits + 1 }
  match (s'.agents child.id).phase, choice.answer with
  | .completed result, _ => freed.toolEnds a stage (.ok (collected child result))
  | .dropped, .joinError display =>
    freed.toolEnds a stage (harnessError
      ("AwaitAgent: subagent " ++ agentName child.id ++ " task failed: " ++ display))
  | _, _ => s'.pend a

/-- The done-channel branch of `await_any_child`. -/
def doneReady (chan : Nat) (s' : Session) : Session :=
  match s'.chans chan with
  | child :: rest =>
    { s'.dropWait a with chans := Function.update s'.chans chan rest }.toTool a stage
      (.anyPut chan (some child))
  | [] => if s'.chanClosed chan then (s'.dropWait a).toTool a stage (.anyPut chan none) else s'.pend a

/-- The steps of `execute_tool` that wait for the outside. -/
def outsideStep (choice : Choice) : ToolPc → Option Session
  | .sandbox =>
    match choice.answer with
    | .sandbox result => some ((s.dropWait a).afterSandbox a stage call result)
    | _ =>
      some (s.orAbort a (s.turnWait a) choice (sandboxAborted a stage) fun s' => s'.pend a)
  | .sandboxInterrupt =>
    match choice.answer with
    | .sandboxInterrupt error =>
      some ((s.record (error.toList.map fun e => errorEvent "sandbox interrupt" e.display)).toTool a
        stage .sandboxDrain)
    | _ => some (s.pend a)
  | .sandboxDrain =>
    match choice.answer with
    | .sandbox result => some (s.afterSandbox a stage call result)
    | _ => some (s.pend a)
  | .read path =>
    match choice.answer with
    | .sandbox result => some (s.afterRead ctx a stage call path result)
    | _ => some (s.pend a)
  | .frontend forwarded =>
    match choice.answer with
    | .frontend result => some ((s.dropWait a).afterFrontend a stage call result)
    | _ =>
      some (s.orAbort a (s.turnWait a) choice (frontendAborted a stage forwarded) fun s' => s'.pend a)
  | .frontendInterrupt forwarded =>
    match choice.answer with
    | .frontendInterrupt error =>
      some ((s.record (error.toList.map fun e => errorEvent "frontend interrupt" e.display)).toTool a
        stage (.frontendDrain forwarded))
    | _ => some (s.pend a)
  | .frontendDrain _ =>
    match choice.answer with
    | .frontend result => some (s.afterFrontend a stage call result)
    | _ => some (s.pend a)
  | _ => none

/-- The steps of the Agent and AwaitAgent tools, each of which but the two
waits takes the lock of the child registry once. -/
def childStep (choice : Choice) : ToolPc → Option Session
  | .spawnEntry child prompt generation =>
    some ((s.spawnChild a child prompt generation).toTool a stage (.spawnInsert child))
  | .spawnInsert child =>
    some ((s.insertChild a child).toolEnds a stage (harnessOk (startedMessage child)))
  | .awaitKnown requested =>
    match (s.children a).find? fun c => agentName c.id = requested with
    | some child => some (s.toTool a stage (.collect child.id))
    | none =>
      some (s.toolEnds a stage (harnessError ("AwaitAgent: " ++ debugString requested ++
        " is not an outstanding subagent of this agent")))
  | .awaitHas =>
    if (s.children a).isEmpty then
      some (s.toolEnds a stage (harnessError "AwaitAgent: no subagents are running"))
    else some (s.toTool a stage .anyFinished)
  | .anyFinished =>
    let finished := (s.children a).filter fun c => (s.agents c.id).finished
    if finished.isEmpty then some (s.toTool a stage .anyTakeRx)
    else if finished.any (fun c => c.id = choice.pick) then some (s.toTool a stage (.collect choice.pick))
    else none
  | .anyTakeRx =>
    match s.registry a with
    | none => some (s.toolEnds a stage (.ok .interrupted))
    | some pool =>
      match pool.doneRx with
      | some chan => some ((s.setPool a (some { pool with doneRx := none })).toTool a stage (.anyWait chan))
      | none => some (s.goto a .dropped)
  | .anyWait chan =>
    some (s.orAbort a (s.turnWait a) choice (fun s' reason => s'.toTool a stage (.anyAbort chan reason))
      (doneReady a stage chan))
  | .anyPut chan (some child) => some ((s.putDoneRx a chan).toTool a stage (.anyStill child))
  | .anyPut chan none => some ((s.putDoneRx a chan).toolEnds a stage (.ok .interrupted))
  | .anyAbort chan reason => some ((s.putDoneRx a chan).toolEnds a stage (.ok reason.disposition))
  | .anyStill child =>
    if (s.children a).any fun c => c.id = child then some (s.toTool a stage (.collect child))
    else some (s.toTool a stage .anyFinished)
  | .collect child =>
    match s.registry a, (s.children a).find? fun c => c.id = child with
    | some pool, some handle =>
      some ((s.setPool a (some { pool with
        children := pool.children.filter fun c => c.id ≠ child })).toTool a stage (.join handle))
    | _, _ =>
      some (s.toolEnds a stage (harnessError ("AwaitAgent: " ++ debugString (agentName child) ++
        " was already collected")))
  | .join child =>
    some (s.orAbort a (s.turnWait a) choice (fun s' reason => s'.toTool a stage (.reinsert child reason))
      (joinReady a stage child choice))
  | .reinsert child reason =>
    some ((s.insertChild a child).toolEnds a stage (.ok reason.disposition))
  | _ => none

end Session

end Silo.Harness
