import Silo.Harness.SessionTools
import Silo.Sandbox.HelperSession

namespace Silo.Sandbox

open Silo.Core Silo.Harness

/-- What a tool uses besides its call. `unb64` decodes base64, `lossy` reads
bytes as text, `percentEncode` and `parseResults` are those of the search page,
and `debug` writes a payload out. -/
structure ToolEnv where
  workspaceMount : String
  homeDir : String
  tmpDir : String
  b64 : String → String
  unb64 : String → Except String (List UInt8)
  lossy : List UInt8 → String
  percentEncode : String → String
  parseResults : String → String
  debug : HelperPayload → String

abbrev ToolResult := Except SandboxError ToolOutput

/-- A tool up to its request of the helper, with what it makes of the reply, or
what it returns without a request. -/
abbrev Tool := Except ToolResult (HelperOp × (Reply → ToolResult))

def defaultBashTimeoutMs : UInt64 := 120000

def maxBashTimeoutMs : UInt64 := 600000

def defaultFetchMaxBytes : UInt64 := 1048576

def searchMaxBytes : UInt64 := 2 * 1048576

def refused {α : Type} (message : String) : Except ToolResult α := .error (.ok (.error message))

def helperCall (op : HelperOp) (after : HelperPayload → ToolResult) : Tool :=
  .ok (op, fun
    | .ok payload => after payload
    | .error (.helper message) => .ok (.error message)
    | .error other => .error other)

def strField (call : ToolCall) (key : String) : Except ToolResult String :=
  match call.input.get key with
  | some (.string value) => .ok value
  | _ => refused (call.name ++ ": missing required string field " ++ debugString key)

def u64Field (call : ToolCall) (key : String) : Except ToolResult (Option UInt64) :=
  match call.input.get key with
  | none | some .null => .ok none
  | some (.number (.posInt number)) => .ok (some number)
  | some _ => refused (call.name ++ ": field " ++ debugString key ++ " must be a non-negative integer")

def boolField (call : ToolCall) (key : String) : Bool :=
  match call.input.get key with
  | some (.bool value) => value
  | _ => false

def resolvePath (workspaceMount path : String) : String :=
  if path.startsWith "/" then path
  else if workspaceMount = "" || workspaceMount.endsWith "/" then workspaceMount ++ path
  else workspaceMount ++ "/" ++ path

def markTruncated (truncated : Bool) (text : String) : String :=
  if truncated then (if text.endsWith "\n" then text else text ++ "\n") ++ "[truncated]" else text

def trimEndNewlines (text : String) : String :=
  String.ofList (text.toList.reverse.dropWhile (· = '\n')).reverse

namespace ToolEnv

variable (env : ToolEnv) (call : ToolCall)

def unexpectedPayload (tool : String) (payload : HelperPayload) : ToolResult :=
  .error (.helper ("unexpected helper payload for " ++ tool ++ ": " ++ env.debug payload))

def decode (contentB64 : String) : Except SandboxError (List UInt8) :=
  (env.unb64 contentB64).mapError .helper

def readTool : Tool := do
  let path ← strField call "path"
  let offset ← u64Field call "offset"
  let limit ← u64Field call "limit"
  helperCall (.readFile (resolvePath env.workspaceMount path) offset limit) fun
    | .file contentB64 truncated => do
      let bytes ← env.decode contentB64
      .ok (.ok (markTruncated truncated (env.lossy bytes)))
    | payload => env.unexpectedPayload "Read" payload

/-- The content of a Write, which comes as base64 for uploads and as text from
the model. -/
def writeContent : Except ToolResult String :=
  match call.input.get "content_b64" with
  | some value =>
    if (call.input.get "content").isSome then
      refused "Write: the content and content_b64 fields are mutually exclusive"
    else
      match value.asStr with
      | some text =>
        match env.unb64 text with
        | .ok _ => .ok text
        | .error message => refused message
      | none => refused "the content_b64 field must be a base64 string"
  | none => (strField call "content").map env.b64

def writeTool : Tool := do
  let path ← strField call "path"
  let contentB64 ← env.writeContent call
  let append := boolField call "append"
  helperCall (.writeFile (resolvePath env.workspaceMount path) contentB64 append) fun
    | .written bytes =>
      .ok (.ok ((if append then "Appended" else "Wrote") ++ " " ++ toString bytes ++ " bytes to " ++ path))
    | payload => env.unexpectedPayload "Write" payload

def editTool : Tool := do
  let path ← strField call "path"
  let old ← strField call "old_string"
  let new ← strField call "new_string"
  helperCall (.editFile (resolvePath env.workspaceMount path) old new (boolField call "replace_all")) fun
    | .edited replacements =>
      .ok (.ok ("Replaced " ++ toString replacements ++ " " ++
        (if replacements = 1 then "occurrence" else "occurrences") ++ " in " ++ path))
    | payload => env.unexpectedPayload "Edit" payload

def execOutput (exitCode : Int32) (stdout stderr : String) (timedOut truncated cancelled : Bool) :
    ToolOutput :=
  let stdout := trimEndNewlines stdout
  let stderr := trimEndNewlines stderr
  let content := "\n".intercalate
    ((if stdout = "" then [] else [stdout]) ++
      (if stderr = "" then [] else ["--- stderr ---\n" ++ stderr]) ++
      (if truncated then ["[output truncated]"] else []) ++
      (if cancelled then ["(cancelled)"]
        else if timedOut then ["(timed out)"]
        else if exitCode ≠ 0 then ["(exit code " ++ toString exitCode ++ ")"]
        else []))
  if cancelled || timedOut || exitCode ≠ 0 then .error content else .ok content

def bashTool : Tool := do
  let command ← strField call "command"
  let timeout ← u64Field call "timeout_ms"
  helperCall
    (.exec command (some env.workspaceMount) [("HOME", env.homeDir), ("TMPDIR", env.tmpDir)]
      (min (timeout.getD defaultBashTimeoutMs) maxBashTimeoutMs)) fun
    | .exec exitCode stdout stderr timedOut truncated cancelled =>
      .ok (execOutput exitCode stdout stderr timedOut truncated cancelled)
    | payload => env.unexpectedPayload "Bash" payload

def webFetchTool : Tool := do
  let url ← strField call "url"
  let maxBytes ← u64Field call "max_bytes"
  helperCall (.fetch url "GET" [] none (maxBytes.getD defaultFetchMaxBytes)) fun
    | .fetched status _ bodyB64 truncated => do
      let body ← env.decode bodyB64
      let content := markTruncated truncated ("HTTP " ++ toString status ++ "\n" ++ env.lossy body)
      .ok (if 400 ≤ status then .error content else .ok content)
    | payload => env.unexpectedPayload "WebFetch" payload

def webSearchTool : Tool := do
  let query ← strField call "query"
  helperCall
    (.fetch ("https://html.duckduckgo.com/html/?q=" ++ env.percentEncode query) "GET"
      [("User-Agent", "Mozilla/5.0 (compatible; llmdevsilo)")] none searchMaxBytes) fun
    | .fetched status _ bodyB64 _ =>
      if status ≠ 200 then .ok (.error ("search failed: HTTP " ++ toString status))
      else do
        let body ← env.decode bodyB64
        .ok (.ok (env.parseResults (env.lossy body)))
    | payload => env.unexpectedPayload "WebSearch" payload

def runTool : Tool :=
  match call.name with
  | "Read" => env.readTool call
  | "Write" => env.writeTool call
  | "Edit" => env.editTool call
  | "Bash" => env.bashTool call
  | "WebFetch" => env.webFetchTool call
  | "WebSearch" => env.webSearchTool call
  | other => .error (.error (.rejected ("unknown sandbox tool " ++ debugString other)))

end ToolEnv

end Silo.Sandbox
