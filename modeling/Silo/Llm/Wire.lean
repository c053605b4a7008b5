import Silo.Core.Json
import Silo.Harness.Record

namespace Silo.Core.Json

def asArray : Json → Option (List Json)
  | .array items => some items
  | _ => none

def str (json : Json) (key : String) : Option String := (json.get key).bind asStr

/-- The items of the array under a key, none where there is no array. -/
def items (json : Json) (key : String) : List Json := ((json.get key).bind asArray).getD []

def decimal (digits : List Char) : Option Nat :=
  digits.foldlM (fun n c => if c.isDigit then some (10 * n + (c.toNat - '0'.toNat)) else none) 0

def parseIndex (token : String) : Option Nat :=
  match token.toList with
  | [] => none
  | ['0'] => some 0
  | '0' :: _ => none
  | digits => decimal digits

def pointer : List String → Json → Option Json
  | [], json => some json
  | token :: tokens, .object fields => (lookup fields token).bind (pointer tokens)
  | token :: tokens, .array items => ((parseIndex token).bind fun i => items[i]?).bind (pointer tokens)
  | _ :: _, _ => none

def asU64 : Json → Option Nat
  | .number (.posInt n) => some n.toNat
  | _ => none

def u64At (path : List String) (json : Json) : Nat := ((pointer path json).bind asU64).getD 0

end Silo.Core.Json

namespace Silo.Llm

open Silo.Core Silo.Harness

/-- `serde_json`: a text read as JSON with repeated keys kept, and the value that is made
of it, in which the last of them counts. -/
structure SerdeJson where
  tree : String → Except String Json
  value : Json → Json

def SerdeJson.fromStr (serde : SerdeJson) (text : String) : Except String Json := (serde.tree text).map serde.value

def malformed {α : Type} (detail : String) : Except LlmError α := .error (.malformed detail)

/-- `ok_or_else` with a malformed response. -/
def orMalformed {α : Type} (detail : String) : Option α → Except LlmError α
  | some a => .ok a
  | none => malformed detail

def parseArguments (serde : SerdeJson) (subject arguments : String) : Except LlmError Json :=
  match serde.fromStr arguments with
  | .ok input => .ok input
  | .error e => malformed (subject ++ " arguments are not valid JSON: " ++ e)

structure OutputKind where
  textTypes : List String
  textPart : String
  call : String
  reason : List String

namespace OutputKind

variable (serde : SerdeJson) (kind : OutputKind)

def isText (part : Json) : Bool := (part.str "type").any fun t => t ∈ kind.textTypes

def parseParts : List Json → Except LlmError (List ContentBlock)
  | [] => .ok []
  | part :: parts =>
    if kind.isText part then
      match part.str "text" with
      | some text => (parseParts parts).map fun blocks => .text text :: blocks
      | none => malformed (kind.textPart ++ " part has no text string")
    else parseParts parts

def parseFunctionCall (item : Json) : Except LlmError ContentBlock := do
  let id ← orMalformed (kind.call ++ " has no call_id") (item.str "call_id")
  let name ← orMalformed (kind.call ++ " has no name") (item.str "name")
  let arguments ← orMalformed (kind.call ++ " has no arguments string") (item.str "arguments")
  let input ← parseArguments serde "function_call" arguments
  return .toolUse id name input

def parseItem (item : Json) : Except LlmError (List ContentBlock) :=
  match item.str "type" with
  | some "message" => kind.parseParts (item.items "content")
  | some "function_call" => (kind.parseFunctionCall serde item).map fun block => [block]
  | _ => .ok []

def parseOutput : List Json → Except LlmError (List ContentBlock)
  | [] => .ok []
  | item :: items => do
    let blocks ← kind.parseItem serde item
    let more ← parseOutput items
    return blocks ++ more

def sawFunctionCall (output : List Json) : Bool := output.any fun item => item.str "type" = some "function_call"

def stopReason (response : Json) (output : List Json) : StopReason :=
  if sawFunctionCall output then .toolUse
  else if response.str "status" = some "incomplete" ∧
      ((Json.pointer kind.reason response).bind Json.asStr) = some "max_output_tokens" then .maxTokens
  else .endTurn

def usage (response : Json) : TokenDelta :=
  ⟨Json.u64At ["usage", "input_tokens"] response, Json.u64At ["usage", "output_tokens"] response⟩

end OutputKind

namespace OpenaiResponses

def kind : OutputKind := ⟨["output_text"], "output_text", "function_call item", ["incomplete_details", "reason"]⟩

def parseResponse (serde : SerdeJson) (value : Json) : Except LlmError CompletionResponse := do
  let output ← orMalformed "response has no output array" ((value.get "output").bind Json.asArray)
  let content ← kind.parseOutput serde output
  return ⟨content, kind.stopReason value output, OutputKind.usage value⟩

end OpenaiResponses

namespace OpenaiWs

def kind : OutputKind := ⟨["text", "output_text"], "text", "function_call", ["status_details", "reason"]⟩

def parseResponseDone (serde : SerdeJson) (event : Json) : Except LlmError CompletionResponse := do
  let response ← orMalformed "response.done event has no response object" (event.get "response")
  let output ← orMalformed "response.done has no output array" ((response.get "output").bind Json.asArray)
  let content ← kind.parseOutput serde output
  return ⟨content, kind.stopReason response output, OutputKind.usage response⟩

end OpenaiWs

namespace Local

def parseText (message : Json) : List ContentBlock :=
  match message.str "content" with
  | some text => if text.isEmpty then [] else [.text text]
  | none => []

def parseToolCall (serde : SerdeJson) (call : Json) : Except LlmError ContentBlock := do
  let id ← orMalformed "tool_call has no id" (call.str "id")
  let name ← orMalformed "tool_call has no function name"
    ((Json.pointer ["function", "name"] call).bind Json.asStr)
  let arguments ← orMalformed "tool_call has no arguments string"
    ((Json.pointer ["function", "arguments"] call).bind Json.asStr)
  let input ← parseArguments serde "tool_call" arguments
  return .toolUse id name input

def stopReason (choice : Json) : StopReason :=
  match choice.str "finish_reason" with
  | some "tool_calls" => .toolUse
  | some "length" => .maxTokens
  | _ => .endTurn

def parseResponse (serde : SerdeJson) (value : Json) : Except LlmError CompletionResponse := do
  let choice ← orMalformed "response has no choices" (Json.pointer ["choices", "0"] value)
  let message ← orMalformed "choice has no message" (choice.get "message")
  let calls ← (message.items "tool_calls").mapM (parseToolCall serde)
  return ⟨parseText message ++ calls, stopReason choice,
    ⟨Json.u64At ["usage", "prompt_tokens"] value, Json.u64At ["usage", "completion_tokens"] value⟩⟩

end Local

end Silo.Llm
