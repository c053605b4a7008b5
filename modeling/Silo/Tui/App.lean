import Mathlib.Algebra.GroupWithZero.Nat
import Mathlib.Data.List.Sort
import Silo.Tui.Transcript

namespace Silo.Tui

open Silo.Lib Silo.Core Silo.Codec
open Silo.Harness (fileName)

inductive ConnState
  | connecting (attempt : UInt32)
  | connected
  | reconnecting (reason : String) (retryInSecs : UInt64)
  | closed (reason : String)

/-- `checked` are the toggled options of a multi-select question, in order, and `freeText` is
there while an answer is typed. -/
structure PendingQuestion where
  id : String
  agent : String
  question : UserQuestion
  selected : Nat
  checked : List Nat
  freeText : Option (List Char)

inductive Popup
  | access (report : AccessReport)
  | cost (entries : List CostEntry)
  | pairing (code : String) (expiresInSecs : UInt64) (addr fingerprint : String)
  | help

inductive NetEvent
  | connecting (attempt : UInt32)
  | connected (harnessId : String)
  | server (message : ServerMessage)
  | disconnected (reason : String) (retryInSecs : UInt64)
  | fatal (message : String)

inductive KeyCode
  | backspace
  | enter
  | left
  | right
  | up
  | down
  | home
  | endKey
  | pageUp
  | pageDown
  | delete
  | esc
  | char (c : Char)
  | other
  deriving DecidableEq, Repr

/-- `press` is false for repeats and releases, and `control` is whether the modifier is held. -/
structure KeyEvent where
  code : KeyCode
  control : Bool
  press : Bool

/-- The text of a JSON value, and of bytes in base64. -/
structure Outside where
  display : Json → String
  b64 : List UInt8 → String

structure App where
  harnessId : String
  addr : String
  fingerprint : String
  workspace : Option String
  conn : ConnState
  transcript : List TranscriptItem
  lastSeq : Option UInt64
  awaitingInput : Bool
  busy : Bool
  spinnerFrame : UInt64
  costs : AList fun _ : String => Codec.UsageSnapshot
  agentNames : Names
  debug : Bool
  input : List Char
  cursor : Nat
  question : Option PendingQuestion
  popup : Option Popup
  scrollFromBottom : UInt16
  shouldQuit : Bool
  fatal : Option String

def byteIndex (text : List Char) (charIndex : Nat) : Nat :=
  match (charIndices 0 text)[charIndex]? with
  | some (i, _) => i
  | none => size text

namespace App

def new (addr fingerprint : String) (workspace : Option String) (debug : Bool) : App where
  harnessId := ""
  addr := addr
  fingerprint := fingerprint
  workspace := workspace
  conn := .connecting 0
  transcript := []
  lastSeq := none
  awaitingInput := false
  busy := false
  spinnerFrame := 0
  costs := ∅
  agentNames := ∅
  debug := debug
  input := []
  cursor := 0
  question := none
  popup := none
  scrollFromBottom := 0
  shouldQuit := false
  fatal := none

variable (outside : Outside) (app : App)

def push (kind : ItemKind) (text : String) : App :=
  { app with transcript := app.transcript ++ [.new kind text] }

def note : EventPayload → App
  | .harnessStarted harnessId workspace _ _ => { app with harnessId := harnessId, workspace := some workspace }
  | .agentSpawned _ agent (some name) _ => { app with agentNames := app.agentNames.insert agent name }
  | .questionAsked id agent question =>
    { app with question := some ⟨id, agent, question, 0, [], if question.options.isEmpty then some [] else none⟩ }
  | .questionAnswered id _ _ =>
    if app.question.any fun q => q.id = id then { app with question := none } else app
  | .costReport backend usage _ => { app with costs := app.costs.insert backend usage }
  | .awaitingInput => { app with awaitingInput := true }
  | .userPrompt .. => { app with awaitingInput := false }
  | _ => app

def applyEvent (event : Event) : App :=
  if app.lastSeq.any fun last => event.seq ≤ last then app
  else
    let seen : App := { app with
      lastSeq := some event.seq
      spinnerFrame := app.spinnerFrame + 1
      busy := (busyAfter event.payload).getD app.busy }
    let noted := seen.note event.payload
    { noted with transcript := noted.transcript ++ transcriptItems outside.display event.payload noted.agentNames }

def handleServer : ServerMessage → App
  | .event event => app.applyEvent outside event
  | .events events => events.foldl (applyEvent outside) app
  | .accessReport report => { app with popup := some (.access report) }
  | .cost entries =>
    { app with
      costs := entries.foldl (fun costs entry => costs.insert entry.backend entry.usage) app.costs
      popup := some (.cost entries) }
  | .pairingCode code expiresInSecs =>
    { app with popup := some (.pairing code expiresInSecs app.addr app.fingerprint) }
  | .error message => app.push .error ("server: " ++ message)
  | .shuttingDown message =>
    let text := match message with
      | some text => "harness shutting down: " ++ text
      | none => "harness shutting down"
    { app.push .shutdown text with conn := .closed "harness shut down", question := none, busy := false }
  | .hello .. | .authChallenge _ | .authOk .. | .authError _ | .pong _ => app

def handleNet : NetEvent → App
  | .connecting attempt => { app with conn := .connecting attempt }
  | .connected harnessId => { app with conn := .connected, harnessId := harnessId }
  | .disconnected reason retryInSecs => { app with conn := .reconnecting reason retryInSecs }
  | .fatal message => { app with fatal := some message, shouldQuit := true }
  | .server message => app.handleServer outside message

def scrollLimit : UInt16 :=
  let count := (app.transcript.map fun item => max (lines item.text.toList).length 1 + 1).sum
  UInt16.ofNat (min count 65535)

def handleFreeText (pending : PendingQuestion) (buffer : List Char) (key : KeyEvent) : App × List ClientMessage :=
  let typed (text : Option (List Char)) : App := { app with question := some { pending with freeText := text } }
  match key.code with
  | .enter =>
    let answer := trim buffer
    if answer.isEmpty then (app, [])
    else ({ app with question := none }, [.answerQuestion pending.id (String.ofList answer)])
  | .backspace => (typed (some buffer.dropLast), [])
  | .esc => (if pending.question.options.isEmpty then app else typed none, [])
  | .char c => (if key.control then app else typed (some (buffer ++ [c])), [])
  | _ => (app, [])

def chosen (pending : PendingQuestion) : Option String :=
  let options := pending.question.options
  if pending.question.multiSelect && !pending.checked.isEmpty then
    some (", ".intercalate (pending.checked.filterMap fun i => options[i]?.map QuestionOption.label))
  else options[pending.selected]?.map QuestionOption.label

def toggle (checked : List Nat) (i : Nat) : List Nat :=
  if i ∈ checked then checked.erase i else checked.orderedInsert (· ≤ ·) i

def handleQuestionKey (pending : PendingQuestion) (key : KeyEvent) : App × List ClientMessage :=
  match pending.freeText with
  | some buffer => app.handleFreeText pending buffer key
  | none =>
    let count := pending.question.options.length
    let asking (pending : PendingQuestion) : App × List ClientMessage := ({ app with question := some pending }, [])
    match key.code with
    | .up => asking { pending with selected := pending.selected - 1 }
    | .down =>
      if 0 < count then asking { pending with selected := min (pending.selected + 1) (count - 1) } else (app, [])
    | .enter =>
      match chosen pending with
      | none => (app, [])
      | some answer => ({ app with question := none }, [.answerQuestion pending.id answer])
    | .char c =>
      if c = ' ' ∧ pending.question.multiSelect = true then
        asking { pending with checked := toggle pending.checked pending.selected }
      else if pending.question.allowFreeText && !key.control then asking { pending with freeText := some [c] }
      else (app, [])
    | _ => (app, [])

def clearInput : App := { app with input := [], cursor := 0 }

-- What `std::fs::read` returns for a path.
variable (read : String → Except String (List UInt8))

def readUpload (path : String) : Except String (App × ClientMessage) := do
  let bytes ← read path
  let name := (fileName path).getD "upload"
  return (app.push .system ("uploading " ++ name ++ " (" ++ toString bytes.length ++ " bytes)"),
    .uploadFile name (outside.b64 bytes))

def runCommand : SlashCommand → App × List ClientMessage
  | .help => ({ app.clearInput with popup := some .help }, [])
  | .debug =>
    let note := if app.debug then "debug mode off" else "debug mode on: raw ids are shown"
    ({ app.clearInput with debug := !app.debug }.push .system note, [])
  | .access => (app.clearInput, [.requestAccessReport])
  | .cost => (app.clearInput, [.requestCost])
  | .pair => (app.clearInput, [.requestPairingCode])
  | .stop => (app.clearInput.push .system "interrupt requested", [.interrupt])
  | .quit => ({ app with shouldQuit := true }, [])
  | .shutdown => (app.clearInput.push .system "shutdown requested", [.shutdown])
  | .upload path =>
    match app.readUpload outside read path with
    | .ok (app, message) => (app.clearInput, [message])
    | .error error => (app.push .error ("upload " ++ path ++ ": " ++ error), [])

/-- The input is cleared on success and kept on error so it can be fixed. -/
def submitInput : App × List ClientMessage :=
  let text := trim app.input
  if text.isEmpty then (app, [])
  else
    match parse text with
    | none => (app.clearInput, [.prompt (String.ofList text)])
    | some (.error message) => (app.push .error message, [])
    | some (.ok command) => app.runCommand outside read command

/-- A key for the input line or the transcript, with the messages to send; none when it panics. -/
def handleLineKey (key : KeyEvent) : Option (App × List ClientMessage) :=
  match key.code with
  | .pageUp =>
    if 65535 < app.scrollFromBottom.toNat + 5 then none
    else some ({ app with scrollFromBottom := min (app.scrollFromBottom + 5) app.scrollLimit }, [])
  | .pageDown =>
    some ({ app with scrollFromBottom := if app.scrollFromBottom < 5 then 0 else app.scrollFromBottom - 5 }, [])
  | .endKey => some ({ app with scrollFromBottom := 0 }, [])
  | .esc => some (app, if app.busy then [.interrupt] else [])
  | .enter => some (app.submitInput outside read)
  | .left => some ({ app with cursor := app.cursor - 1 }, [])
  | .right => some ({ app with cursor := min (app.cursor + 1) app.input.length }, [])
  | .home => some ({ app with cursor := 0 }, [])
  | .backspace =>
    if 0 < app.cursor then
      (removeAt app.input (byteIndex app.input (app.cursor - 1))).map fun input =>
        ({ app with input := input, cursor := app.cursor - 1 }, [])
    else some (app, [])
  | .delete =>
    if app.cursor < app.input.length then
      (removeAt app.input (byteIndex app.input app.cursor)).map fun input => ({ app with input := input }, [])
    else some (app, [])
  | .char c =>
    if key.control then some (app, [])
    else
      (insertAt app.input (byteIndex app.input app.cursor) c).map fun input =>
        ({ app with input := input, cursor := app.cursor + 1 }, [])
  | _ => some (app, [])

def handleKey (key : KeyEvent) : Option (App × List ClientMessage) :=
  if key.press = false then some (app, [])
  else if key.control = true ∧ key.code = .char 'c' then some ({ app with shouldQuit := true }, [])
  else if app.popup.isSome then some ({ app with popup := none }, [])
  else
    match app.question with
    | some pending => some (app.handleQuestionKey pending key)
    | none => app.handleLineKey outside read key

end App

end Silo.Tui
