import Silo.Llm.Wire

namespace Silo.Llm.Anthropic

open Silo.Core Silo.Harness

/-- The fields of a derived struct, from an object or from an array in the order of their
declaration. Unknown fields are ignored. -/
def structFields (names : List String) : Json → Except String (List (Option Json))
  | .object fields =>
    match names.find? fun name => 1 < (fields.filter fun f => f.1 = name).length with
    | some name => .error ("duplicate field `" ++ name ++ "`")
    | none => .ok (names.map fun name => Json.lookup fields name)
  | .array items =>
    if names.length < items.length then .error "trailing characters"
    else .ok (names.mapIdx fun i _ => items[i]?)
  | _ => .error "invalid type"

def required {α : Type} (name : String) (read : Json → Except String α) : Option Json → Except String α
  | some json => read json
  | none => .error ("missing field `" ++ name ++ "`")

/-- `#[serde(default)]`. -/
def orDefault {α : Type} (default : α) (read : Json → Except String α) : Option Json → Except String α
  | some json => read json
  | none => .ok default

def readString : Json → Except String String
  | .string text => .ok text
  | _ => .error "invalid type, expected a string"

def readOptionString : Json → Except String (Option String)
  | .null => .ok none
  | json => (readString json).map some

def readU64 : Json → Except String Nat
  | .number (.posInt n) => .ok n.toNat
  | _ => .error "invalid type, expected u64"

inductive WireContentBlock
  | text (text : String)
  | toolUse (id name : String) (input : Json)
  | unknown

structure WireResponse where
  content : List WireContentBlock
  stopReason : Option String
  usage : TokenDelta

section

variable (serde : SerdeJson)

def readVariant (tag : String) (body : Json) : Except String WireContentBlock :=
  match tag with
  | "text" => do
    let fields ← structFields ["text"] body
    let text ← required "text" readString (fields[0]?.join)
    return .text text
  | "tool_use" => do
    let fields ← structFields ["id", "name", "input"] body
    let id ← required "id" readString (fields[0]?.join)
    let name ← required "name" readString (fields[1]?.join)
    let input ← required "input" (fun json => .ok (serde.value json)) (fields[2]?.join)
    return .toolUse id name input
  | _ => .ok .unknown

/-- A block is tagged by its field `type`, or by its first element. -/
def readBlock : Json → Except String WireContentBlock
  | .object fields =>
    match fields.filter fun f => f.1 = "type" with
    | [] => .error "missing field `type`"
    | [(_, .string tag)] => readVariant serde tag (.object (fields.filter fun f => f.1 ≠ "type"))
    | [_] => .error "invalid type, expected a string"
    | _ => .error "duplicate field `type`"
  | .array [] => .error "missing field `type`"
  | .array (.string tag :: items) => readVariant serde tag (.array items)
  | _ => .error "invalid type, expected internally tagged enum WireContentBlock"

def readContent : Json → Except String (List WireContentBlock)
  | .array items => items.mapM (readBlock serde)
  | _ => .error "invalid type, expected a sequence"

def readUsage (json : Json) : Except String TokenDelta := do
  let fields ← structFields ["input_tokens", "output_tokens"] json
  let inputTokens ← orDefault 0 readU64 (fields[0]?.join)
  let outputTokens ← orDefault 0 readU64 (fields[1]?.join)
  return ⟨inputTokens, outputTokens⟩

def readResponse (json : Json) : Except String WireResponse := do
  let fields ← structFields ["content", "stop_reason", "usage"] json
  let content ← orDefault [] (readContent serde) (fields[0]?.join)
  let stopReason ← orDefault none readOptionString (fields[1]?.join)
  let usage ← orDefault ⟨0, 0⟩ readUsage (fields[2]?.join)
  return ⟨content, stopReason, usage⟩

end

def WireContentBlock.convert : WireContentBlock → Option ContentBlock
  | .text t => some (.text t)
  | .toolUse id name input => some (.toolUse id name input)
  | .unknown => none

def mapStopReason : Option String → StopReason
  | some "end_turn" => .endTurn
  | some "tool_use" => .toolUse
  | some "max_tokens" => .maxTokens
  | some other => .other other
  | none => .other "(none)"

def parseResponse (serde : SerdeJson) (text : String) : Except LlmError CompletionResponse :=
  match (serde.tree text).bind (readResponse serde) with
  | .ok wire => .ok ⟨wire.content.filterMap WireContentBlock.convert, mapStopReason wire.stopReason, wire.usage⟩
  | .error e => malformed ("invalid response JSON: " ++ e)

end Silo.Llm.Anthropic
