import Silo.Lib.Machine
import Silo.Lib.Text
import Silo.Core.Conversation
import Silo.Sandbox.Helper

namespace Silo.Sandbox.Serve

open Silo.Lib Silo.Core

/-- The JSON layer and what `Hello` reports. `fromStr` and `fromValue` are
`serde_json::from_str` and `serde_json::from_value`, the latter with its error. -/
structure Config where
  fromStr : String → Option Json
  fromValue : Json → Except String HelperRequest
  version : String
  pid : UInt32

/-- `Value::as_u64`. -/
def asU64 : Json → Option UInt64
  | .number (.posInt n) => some n
  | _ => none

/-- The pieces that `read_line` takes from a stream, each up to its newline. -/
def lines : List UInt8 → List (List UInt8)
  | [] => []
  | b :: rest =>
    if b = 10 then [b] :: lines rest
    else
      match lines rest with
      | [] => [[b]]
      | line :: more => (b :: line) :: more

def decodeLine (bytes : List UInt8) : Option String := String.fromUTF8? ⟨bytes.toArray⟩

/-- What the loop makes of a line. -/
inductive Line
  | skipped
  | malformed (id : UInt64) (message : String)
  | request (request : HelperRequest)
  deriving DecidableEq, Repr

def Config.classify (cfg : Config) (line : String) : Line :=
  if line.toList.all isWhitespace then .skipped
  else
    match cfg.fromStr line with
    | none => .skipped
    | some value =>
      match cfg.fromValue value with
      | .ok request => .request request
      | .error e =>
        match (value.get "id").bind asU64 with
        | some id => .malformed id ("malformed request: " ++ e)
        | none => .skipped

/-- The oneshot channel of an `Exec`, seen from its receiver. -/
inductive Signal
  | idle
  | fired
  | dropped
  deriving DecidableEq, Repr

/-- Where the task of a request stands; the stages from `spawning` to
`collecting` are those of `exec`. -/
inductive TaskStage
  | working
  | spawning
  | running
  | ending (exitCode : Int32) (timedOut cancelled : Bool)
  | failing (message : String)
  | collecting (exitCode : Int32) (timedOut cancelled : Bool)
  | ready (result : Except String HelperPayload)
  | answered
  deriving DecidableEq, Repr

structure Task where
  id : UInt64
  op : HelperOp
  signal : Signal
  stage : TaskStage
  deriving DecidableEq, Repr

structure Outgoing where
  response : HelperResponse
  done : Bool
  deriving DecidableEq, Repr

inductive Loop
  | reading
  | replying (response : HelperResponse)
  | acking (id : UInt64)
  | awaitingDone
  | ended
  | failed (message : String)
  deriving DecidableEq, Repr

/-- A sender in `execs` is named by the task with its receiver. `seen` are the
lines read so far, and `done` is the receiver that the loop awaits on shutdown. -/
structure State where
  input : List (List UInt8)
  seen : List (List UInt8)
  loop : Loop
  tasks : List Task
  execs : List (UInt64 × Nat)
  queue : List Outgoing
  writing : Bool
  done : Bool
  written : List HelperResponse

def start (stream : List UInt8) : State := ⟨lines stream, [], .reading, [], [], [], true, false, []⟩

def capacity : Nat := 64

namespace State

variable (s : State) (cfg : Config)

def setTask (k : Nat) (task : Task) : State := { s with tasks := s.tasks.set k task }

/-- The receiver of task `k` sees its sender fire or go. -/
def signal (k : Nat) (signal : Signal) : State :=
  { s with tasks := s.tasks.modify k fun task => { task with signal := signal } }

/-- `execs.remove(&id)`: the sender fires, or is dropped. -/
def removeExec (id : UInt64) (signal : Signal) : State :=
  match s.execs.lookup id with
  | none => s
  | some k => { s.signal k signal with execs := s.execs.filter fun e => e.1 ≠ id }

/-- `register_exec`, and the spawn of the task. -/
def spawnTask (request : HelperRequest) : State :=
  if request.op.isExec then
    let s := s.removeExec request.id .dropped
    { s with
      tasks := s.tasks ++ [⟨request.id, request.op, .idle, .spawning⟩]
      execs := (request.id, s.tasks.length) :: s.execs }
  else { s with tasks := s.tasks ++ [⟨request.id, request.op, .idle, .working⟩] }

def handleLine : Line → State
  | .skipped => s
  | .malformed id message => { s with loop := .replying ⟨id, .error message⟩ }
  | .request ⟨id, .shutdown⟩ => { s with loop := .acking id }
  | .request request => s.spawnTask request

def read : State :=
  match s.input with
  | [] => { s with loop := .ended }
  | bytes :: rest =>
    let s := { s with input := rest, seen := s.seen ++ [bytes] }
    match decodeLine bytes with
    | none => { s with loop := .failed "read error: stream did not contain valid UTF-8" }
    | some line => s.handleLine (cfg.classify line)

/-- `tx.send`, which waits for room while the writer has the receiver. -/
def send (outgoing : Outgoing) : Option State :=
  if s.writing then
    if s.queue.length < capacity then some { s with queue := s.queue ++ [outgoing] } else none
  else some { s with done := s.done || outgoing.done }

def reply : Option State :=
  match s.loop with
  | .replying response => ({ s with loop := .reading }).send ⟨response, false⟩
  | .acking id => ({ s with loop := .awaitingDone }).send ⟨⟨id, .ok .ack⟩, true⟩
  | _ => none

/-- `handle_op`, for all but `Exec`. `result` is what the file system or the
network gave. -/
def handleOp (k : Nat) (task : Task) (result : Except String HelperPayload) : State :=
  match task.op with
  | .hello => s.setTask k { task with stage := .ready (.ok (.hello cfg.version cfg.pid)) }
  | .shutdown => s.setTask k { task with stage := .ready (.ok .ack) }
  | .cancel target =>
    match s.execs.lookup target with
    | some _ => (s.removeExec target .fired).setTask k { task with stage := .ready (.ok .ack) }
    | none =>
      s.setTask k { task with
        stage := .ready (.error ("no cancellable request with id " ++ toString target)) }
  | _ => s.setTask k { task with stage := .ready result }

/-- `unregister_exec`, on each of the ways out of `exec`. -/
def unregister (k : Nat) (task : Task) : Option State :=
  let s := s.removeExec task.id .dropped
  match s.tasks[k]? with
  | none => none
  | some task =>
    match task.stage with
    | .failing message => some (s.setTask k { task with stage := .ready (.error message) })
    | .ending code timedOut cancelled =>
      some (s.setTask k { task with stage := .collecting code timedOut cancelled })
    | _ => none

end State

/-- How the child of an `Exec` fares. -/
inductive ExecEvent
  | spawned
  | spawnError (e : String)
  | stdioUnavailable
  | exited (code : Int32)
  | waitError (e : String)
  | timedOut
  | cancelled
  deriving DecidableEq, Repr

/-- `exec` up to its `unregister_exec`. The cancel signal also resolves when its
sender is dropped. -/
def Task.exec (task : Task) : ExecEvent → Option TaskStage
  | .spawned => if task.stage = .spawning then some .running else none
  | .spawnError e => if task.stage = .spawning then some (.failing ("cannot spawn shell: " ++ e)) else none
  | .stdioUnavailable => if task.stage = .spawning then some (.failing "child stdio unavailable") else none
  | .exited code => if task.stage = .running then some (.ending code false false) else none
  | .waitError e => if task.stage = .running then some (.failing ("wait for child failed: " ++ e)) else none
  | .timedOut => if task.stage = .running then some (.ending (-1) true false) else none
  | .cancelled =>
    if task.stage = .running ∧ task.signal ≠ .idle then some (.ending (-1) false true) else none

inductive Label
  | read
  | reply
  | leave
  | handleOp (k : Nat) (result : Except String HelperPayload)
  | exec (k : Nat) (event : ExecEvent)
  | unregister (k : Nat)
  | collect (k : Nat) (stdout stderr : String) (truncated : Bool)
  | answer (k : Nat)
  | write
  | writeError
  deriving DecidableEq, Repr

namespace State

variable (s : State) (cfg : Config)

def collect (k : Nat) (task : Task) (stdout stderr : String) (truncated : Bool) : Option State :=
  match task.stage with
  | .collecting code timedOut cancelled =>
    some (s.setTask k { task with
      stage := .ready (.ok (.exec code stdout stderr timedOut truncated cancelled)) })
  | _ => none

def answer (k : Nat) (task : Task) : Option State :=
  match task.stage with
  | .ready result => (s.setTask k { task with stage := .answered }).send ⟨⟨task.id, result⟩, false⟩
  | _ => none

def write : Option State :=
  match s.writing, s.queue with
  | true, outgoing :: rest =>
    some { s with
      queue := rest
      written := s.written ++ [outgoing.response]
      done := s.done || outgoing.done }
  | _, _ => none

def writeError : Option State :=
  match s.writing, s.queue with
  | true, _ :: _ =>
    some { s with writing := false, queue := [], done := s.done || s.queue.any Outgoing.done }
  | _, _ => none

def next : Label → Option State
  | .read => if s.loop = .reading then some (s.read cfg) else none
  | .reply => s.reply
  | .leave => if s.loop = .awaitingDone ∧ s.done = true then some { s with loop := .ended } else none
  | .handleOp k result =>
    s.tasks[k]?.bind fun task => if task.stage = .working then some (s.handleOp cfg k task result) else none
  | .exec k event =>
    s.tasks[k]?.bind fun task => (task.exec event).map fun stage => s.setTask k { task with stage := stage }
  | .unregister k => s.tasks[k]?.bind fun task => s.unregister k task
  | .collect k stdout stderr truncated => s.tasks[k]?.bind fun task => s.collect k task stdout stderr truncated
  | .answer k => s.tasks[k]?.bind fun task => s.answer k task
  | .write => s.write
  | .writeError => s.writeError

end State

def Config.requestId (cfg : Config) (bytes : List UInt8) : Option UInt64 :=
  match (decodeLine bytes).map cfg.classify with
  | some (.request request) => some request.id
  | _ => none

def Loop.isOver : Loop → Bool
  | ended | failed _ => true
  | _ => false

/-- The process of the helper. Its runtime has one thread and `main` returns with the loop, which
drops the tasks and the writer as they stand. -/
structure Process where
  state : State
  exited : Bool

inductive Move
  | serve (l : Label)
  | exit
  deriving DecidableEq, Repr

def Process.next (p : Process) (cfg : Config) : Move → Option Process
  | .serve l => if p.exited then none else (p.state.next cfg l).map fun s => ⟨s, false⟩
  | .exit => if p.exited = false ∧ p.state.loop.isOver = true then some { p with exited := true } else none

/-- One process of the helper, over every stream whose requests have distinct ids. -/
def machine (cfg : Config) : Machine Process Move where
  init := fun p => ∃ stream, ((lines stream).filterMap cfg.requestId).Nodup ∧ p = ⟨start stream, false⟩
  next := fun p m => p.next cfg m

end Silo.Sandbox.Serve
