import Mathlib.Data.List.AList
import Silo.Codec.Protocol
import Silo.Core.Json
import Silo.Harness.SendFile
import Silo.Harness.StoreUpload
import Silo.Lib.Slices

namespace Silo.Tui

open Silo.Lib Silo.Core Silo.Codec
open Silo.Harness (fileName)

inductive ItemKind
  | prompt
  | assistant
  | toolUse
  | toolResult
  | agentNote
  | question
  | answer
  | fileNote
  | system
  | interrupted
  | error
  | shutdown
  deriving DecidableEq, Repr

/-- `debug` are the raw ids behind the line. -/
structure TranscriptItem where
  kind : ItemKind
  text : String
  debug : Option String

namespace TranscriptItem

def new (kind : ItemKind) (text : String) : TranscriptItem := ⟨kind, text, none⟩

def withDebug (kind : ItemKind) (text debug : String) : TranscriptItem := ⟨kind, text, some debug⟩

end TranscriptItem

/-- `str::lines`: a line ends in a newline, or a carriage return and a newline. -/
def lines : List Char → List (List Char)
  | [] => []
  | c :: rest =>
    if c = '\n' then [] :: lines rest
    else if c = '\r' ∧ rest.head? = some '\n' then lines rest
    else
      match lines rest with
      | [] => [[c]]
      | line :: more => (c :: line) :: more

def toolResultMaxLines : Nat := 4
def oneLinerMaxChars : Nat := 160

/-- Truncates to at most `max` characters, with an ellipsis when cut. -/
def truncateChars (text : List Char) (max : Nat) : List Char :=
  if text.length ≤ max then text else text.take (max - 1) ++ ['…']

def oneLiner (text : String) : String :=
  String.ofList (truncateChars ([' '].intercalate (words text.toList)) oneLinerMaxChars)

def truncateBlock (text : String) (maxLines : Nat) : String :=
  let all := lines text.toList
  let kept := (all.take maxLines).map fun line => String.ofList (truncateChars line oneLinerMaxChars)
  if all.length ≤ maxLines then "\n".intercalate kept
  else "\n".intercalate (kept ++ ["… (+" ++ toString (all.length - maxLines) ++ " more lines)"])

def preferredKeys : List String := ["command", "path", "file_path", "url", "query", "prompt", "question", "name"]

/-- Summary of a tool input, by its most informative field when it is an object. `display` is
the text of a JSON value. -/
def compactInputSummary (display : Json → String) (input : Json) : String :=
  match input with
  | .object fields =>
    match preferredKeys.findSome? fun key => ((Json.lookup fields key).bind Json.asStr).map fun value => (key, value) with
    | some (key, value) => oneLiner (key ++ ": " ++ value)
    | none => if fields.isEmpty then "" else oneLiner (display input)
  | _ => oneLiner (display input)

def isTopLevel (agent : String) : Bool := agent = "agent-0"

def workspaceFolderName (workspace : String) : String := (fileName workspace).getD workspace

abbrev Names := AList fun _ : String => String

def subagentLabel (agent : String) (names : Names) : String :=
  match names.lookup agent with
  | some name => "subagent " ++ name
  | none =>
    if "agent-".toList <+: agent.toList then "subagent " ++ String.ofList (agent.toList.drop 6)
    else "subagent " ++ agent

def agentPrefix (agent : String) (names : Names) : String :=
  if isTopLevel agent then "" else "  [" ++ subagentLabel agent names ++ "] "

def b64DecodedLen (contentB64 : String) : Nat :=
  size (contentB64.toList.reverse.dropWhile fun c => c = '=') * 3 / 4

def transcriptItems (display : Json → String) (payload : EventPayload) (names : Names) : List TranscriptItem :=
  match payload with
  | .harnessStarted harnessId workspace sandbox llm =>
    [.withDebug .system ("harness " ++ workspaceFolderName workspace ++ " started · workspace " ++ workspace ++
      " · sandbox " ++ sandbox ++ " · llm " ++ llm) harnessId]
  | .userPrompt clientId clientName text =>
    let line := match clientName with
      | some name => name ++ " > " ++ text
      | none => "> " ++ text
    [⟨.prompt, line, clientId⟩]
  | .assistantText agent text => [.withDebug .assistant (agentPrefix agent names ++ text) agent]
  | .toolUse agent call =>
    let summary := compactInputSummary display call.input
    let text := if summary.isEmpty then agentPrefix agent names ++ call.name
      else agentPrefix agent names ++ call.name ++ " " ++ summary
    [.withDebug .toolUse text (agent ++ " " ++ call.id)]
  | .toolResult agent toolUseId toolName output =>
    let body := truncateBlock output.content toolResultMaxLines
    let text := if output.isError then agentPrefix agent names ++ toolName ++ " error: " ++ body
      else agentPrefix agent names ++ toolName ++ " -> " ++ body
    [.withDebug .toolResult text (agent ++ " " ++ toolUseId)]
  | .agentSpawned parent agent _ task =>
    [.withDebug .agentNote ("  [" ++ subagentLabel agent names ++ "] spawned: " ++ oneLiner task)
      (agent ++ ", parent " ++ parent)]
  | .agentCompleted agent result isError =>
    let verb := if isError then "failed" else "completed"
    [.withDebug .agentNote ("  [" ++ subagentLabel agent names ++ "] " ++ verb ++ ": " ++ oneLiner result) agent]
  | .questionAsked id agent question =>
    let text := agentPrefix agent names ++ "? " ++ question.question
    let labels := question.options.map QuestionOption.label
    [.withDebug .question (if labels.isEmpty then text else text ++ " [" ++ " / ".intercalate labels ++ "]")
      (agent ++ " " ++ id)]
  | .questionAnswered id clientId answer =>
    let debug := match clientId with
      | some client => id ++ " by " ++ client
      | none => id
    [.withDebug .answer ("answered: " ++ answer) debug]
  | .fileShared name contentB64 origin =>
    let file := "file " ++ name ++ " (" ++ toString (b64DecodedLen contentB64) ++ " bytes) "
    match origin with
    | .client clientId => [.withDebug .fileNote (file ++ "uploaded") clientId]
    | .llm agent =>
      let sender := if isTopLevel agent then "the assistant" else subagentLabel agent names
      [.withDebug .fileNote (file ++ "sent by " ++ sender) agent]
  | .costReport .. | .turnComplete .. | .awaitingInput => []
  | .interrupted agent => [.withDebug .interrupted "■ interrupted by the user" agent]
  | .accessReportUpdated _ => [.new .system "access report updated (/access to view)"]
  | .error context message => [.new .error (context ++ ": " ++ message)]
  | .shutdown message =>
    [.new .shutdown (match message with
      | some text => "harness shut down: " ++ text
      | none => "harness shut down")]

def busyAfter : EventPayload → Option Bool
  | .userPrompt .. | .assistantText .. | .toolUse .. | .toolResult .. | .agentSpawned .. | .agentCompleted ..
  | .questionAsked .. | .questionAnswered .. => some true
  | .awaitingInput | .interrupted _ | .shutdown _ => some false
  | _ => none

inductive SlashCommand
  | help
  | access
  | cost
  | upload (path : String)
  | pair
  | stop
  | debug
  | quit
  | shutdown
  deriving DecidableEq, Repr

structure CommandSpec where
  name : String
  build : List Char → Except String SlashCommand

def noArgument (name : String) (rest : List Char) (command : SlashCommand) : Except String SlashCommand :=
  if rest.isEmpty then .ok command else .error (name ++ " takes no argument")

def commands : List CommandSpec :=
  [⟨"/help", fun rest => noArgument "/help" rest .help⟩,
    ⟨"/access", fun rest => noArgument "/access" rest .access⟩,
    ⟨"/cost", fun rest => noArgument "/cost" rest .cost⟩,
    ⟨"/upload", fun rest => if rest.isEmpty then .error "usage: /upload <path>" else .ok (.upload (String.ofList rest))⟩,
    ⟨"/pair", fun rest => noArgument "/pair" rest .pair⟩,
    ⟨"/stop", fun rest => noArgument "/stop" rest .stop⟩,
    ⟨"/debug", fun rest => noArgument "/debug" rest .debug⟩,
    ⟨"/shutdown", fun rest => noArgument "/shutdown" rest .shutdown⟩,
    ⟨"/quit", fun rest => noArgument "/quit" rest .quit⟩]

/-- Parses an input line; none for text that is not a command. -/
def parse (line : List Char) : Option (Except String SlashCommand) :=
  let trimmed := trim line
  if trimmed.head? ≠ some '/' then none
  else
    let word := trimmed.takeWhile fun c => !isWhitespace c
    let rest := trim (trimmed.drop (word.length + 1))
    let name := String.ofList (word.map Char.toLower)
    match commands.find? fun spec => spec.name = name with
    | some spec => some (spec.build rest)
    | none => some (.error ("unknown command " ++ name ++ "; /help lists the available commands"))

end Silo.Tui
