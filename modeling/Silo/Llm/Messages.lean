import Mathlib.Data.List.Forall2
import Silo.Harness.Dialogue
import Silo.Lib.Except
import Silo.Llm.Anthropic

namespace Silo.Llm

open Silo.Lib Silo.Core Silo.Harness

section Reading

variable {ε α β : Type}

theorem ok_of_orMalformed {detail : String} {x : Option α} {a : α} (h : orMalformed detail x = .ok a) :
    x = some a := by
  cases x with
  | none => cases h
  | some b =>
      cases h
      rfl

theorem forall₂_of_mapM {f : α → Except ε β} {as : List α} {bs : List β} (h : as.mapM f = .ok bs) :
    List.Forall₂ (fun a b => f a = .ok b) as bs := by
  induction as generalizing bs with
  | nil =>
      cases h
      exact .nil
  | cons a as ih =>
      rw [List.mapM_cons] at h
      obtain ⟨b, hb, h⟩ := bind_eq_ok.mp h
      obtain ⟨bs, hbs, h⟩ := bind_eq_ok.mp h
      cases h
      exact .cons hb (ih hbs)

end Reading

namespace Anthropic

variable {serde : SerdeJson}

/-- The items of the field `content`. -/
def contentItems : Json → List Json
  | .object fields => ((Json.lookup fields "content").bind Json.asArray).getD []
  | .array (content :: _) => content.asArray.getD []
  | _ => []

def blockType : Json → Option String
  | .object fields => (Json.lookup fields "type").bind Json.asStr
  | .array (tag :: _) => tag.asStr
  | _ => none

def kept (block : Json) : Bool := (blockType block).any fun tag => tag = "text" || tag = "tool_use"

def carries (tree : Json) : Bool := (contentItems tree).any kept

theorem kept_of_readVariant {tag : String} {body : Json} {b : WireContentBlock}
    (h : readVariant serde tag body = .ok b) : b.convert.isSome = (tag = "text" || tag = "tool_use") := by
  rw [readVariant.eq_def] at h
  split at h
  · obtain ⟨fields, -, h⟩ := bind_eq_ok.mp h
    obtain ⟨text, -, h⟩ := bind_eq_ok.mp h
    cases h
    rfl
  · obtain ⟨fields, -, h⟩ := bind_eq_ok.mp h
    obtain ⟨id, -, h⟩ := bind_eq_ok.mp h
    obtain ⟨name, -, h⟩ := bind_eq_ok.mp h
    obtain ⟨input, -, h⟩ := bind_eq_ok.mp h
    cases h
    rfl
  · next htext htool =>
      cases h
      have htext : tag ≠ "text" := htext
      have htool : tag ≠ "tool_use" := htool
      simp [WireContentBlock.convert, htext, htool]

theorem lookup_of_filter {fields : List (String × Json)} {key k : String} {value : Json}
    (h : fields.filter (fun f => f.1 = key) = [(k, value)]) : Json.lookup fields key = some value := by
  rw [Json.lookup, ← List.head?_filter, h]
  rfl

theorem kept_of_readBlock {block : Json} {b : WireContentBlock} (h : readBlock serde block = .ok b) :
    b.convert.isSome = kept block := by
  rw [readBlock.eq_def] at h
  split at h
  · split at h
    · cases h
    · next hfilter => rw [kept_of_readVariant h, kept, blockType, lookup_of_filter hfilter]; rfl
    · cases h
    · cases h
  · cases h
  · rw [kept_of_readVariant h]; rfl
  · cases h

theorem carries_of_readContent {items : List Json} {blocks : List WireContentBlock}
    (h : items.mapM (readBlock serde) = .ok blocks) :
    (blocks.filterMap WireContentBlock.convert) ≠ [] ↔ items.any kept = true := by
  have hread := forall₂_of_mapM h
  clear h
  induction hread with
  | nil => simp
  | cons hb hrest ih =>
      rename_i item block items blocks
      rw [List.any_cons, Bool.or_eq_true, ← kept_of_readBlock hb, List.filterMap_cons]
      cases block.convert with
      | none => simpa using ih
      | some b => simp

theorem first_of_structFields {names : List String} {name : String} {tree : Json} {fields : List (Option Json)}
    (h : structFields (name :: names) tree = .ok fields) :
    (fields[0]?).join = match tree with
      | .object entries => Json.lookup entries name
      | .array items => items[0]?
      | _ => none := by
  rw [structFields.eq_def] at h
  split at h
  · split at h
    · cases h
    · cases h
      rfl
  · split at h
    · cases h
    · cases h
      rw [List.mapIdx_cons]
      rfl
  · cases h

theorem carries_of_readResponse {tree : Json} {wire : WireResponse} (h : readResponse serde tree = .ok wire) :
    wire.content.filterMap WireContentBlock.convert ≠ [] ↔ carries tree = true := by
  obtain ⟨fields, hfields, h⟩ := bind_eq_ok.mp h
  obtain ⟨content, hcontent, h⟩ := bind_eq_ok.mp h
  obtain ⟨stopReason, -, h⟩ := bind_eq_ok.mp h
  obtain ⟨usage, -, h⟩ := bind_eq_ok.mp h
  cases h
  have hitems : contentItems tree = ((fields[0]?).join.bind Json.asArray).getD [] := by
    rw [first_of_structFields hfields, contentItems.eq_def]
    cases tree with
    | array items => cases items <;> rfl
    | _ => rfl
  rw [carries, hitems]
  cases hfield : (fields[0]?).join with
  | none =>
      rw [hfield] at hcontent
      cases hcontent
      simp
  | some json =>
      rw [hfield, orDefault, readContent.eq_def] at hcontent
      split at hcontent
      · exact carries_of_readContent hcontent
      · cases hcontent

theorem carries_of_parseResponse {text : String} {response : CompletionResponse}
    (h : parseResponse serde text = .ok response) :
    ∃ tree, serde.tree text = .ok tree ∧ (response.content ≠ [] ↔ carries tree = true) := by
  rw [parseResponse] at h
  split at h
  · next wire hwire =>
      cases h
      obtain ⟨tree, htree, hwire⟩ := bind_eq_ok.mp hwire
      exact ⟨tree, htree, carries_of_readResponse hwire⟩
  · cases h

end Anthropic

namespace OutputKind

variable {serde : SerdeJson} {kind : OutputKind}

/-- The item becomes at least one block: a function call, or a message with a text part. -/
def keeps (kind : OutputKind) (item : Json) : Bool :=
  item.str "type" = some "function_call" ||
    (item.str "type" = some "message" && (item.items "content").any kind.isText)

theorem isText_of_parseParts {parts : List Json} {blocks : List ContentBlock}
    (h : kind.parseParts parts = .ok blocks) : blocks ≠ [] ↔ parts.any kind.isText = true := by
  induction parts generalizing blocks with
  | nil =>
      cases h
      simp
  | cons part parts ih =>
      rw [parseParts] at h
      split at h
      · next htext =>
          split at h
          · obtain ⟨more, -, rfl⟩ := map_eq_ok.mp h
            simp [htext]
          · cases h
      · next htext =>
          rw [ih h]
          simp [htext]

theorem keeps_of_parseItem {item : Json} {blocks : List ContentBlock}
    (h : kind.parseItem serde item = .ok blocks) : blocks ≠ [] ↔ kind.keeps item = true := by
  rw [parseItem.eq_def] at h
  split at h
  · next htype =>
      rw [isText_of_parseParts h]
      simp [keeps, htype]
  · next htype =>
      obtain ⟨block, -, rfl⟩ := map_eq_ok.mp h
      simp [keeps, htype]
  · next hmessage hcall =>
      cases h
      have hmessage : item.str "type" ≠ some "message" := hmessage
      have hcall : item.str "type" ≠ some "function_call" := hcall
      simp [keeps, hmessage, hcall]

theorem keeps_of_parseOutput {output : List Json} {blocks : List ContentBlock}
    (h : kind.parseOutput serde output = .ok blocks) : blocks ≠ [] ↔ output.any kind.keeps = true := by
  induction output generalizing blocks with
  | nil =>
      cases h
      simp
  | cons item items ih =>
      obtain ⟨head, hhead, h⟩ := bind_eq_ok.mp h
      obtain ⟨more, hmore, h⟩ := bind_eq_ok.mp h
      cases h
      rw [List.any_cons, Bool.or_eq_true, ← keeps_of_parseItem hhead, ← ih hmore, Ne, List.append_eq_nil_iff]
      exact not_and_or

end OutputKind

namespace OpenaiResponses

variable {serde : SerdeJson}

def carries (value : Json) : Bool := (value.items "output").any kind.keeps

theorem carries_of_parseResponse {value : Json} {response : CompletionResponse}
    (h : parseResponse serde value = .ok response) : response.content ≠ [] ↔ carries value = true := by
  obtain ⟨output, houtput, h⟩ := bind_eq_ok.mp h
  obtain ⟨content, hcontent, h⟩ := bind_eq_ok.mp h
  cases h
  rw [carries, Json.items, ok_of_orMalformed houtput]
  exact OutputKind.keeps_of_parseOutput hcontent

end OpenaiResponses

namespace OpenaiWs

variable {serde : SerdeJson}

def carries (event : Json) : Bool :=
  (event.get "response").any fun response => (response.items "output").any kind.keeps

theorem carries_of_parseResponseDone {event : Json} {response : CompletionResponse}
    (h : parseResponseDone serde event = .ok response) : response.content ≠ [] ↔ carries event = true := by
  obtain ⟨value, hvalue, h⟩ := bind_eq_ok.mp h
  obtain ⟨output, houtput, h⟩ := bind_eq_ok.mp h
  obtain ⟨content, hcontent, h⟩ := bind_eq_ok.mp h
  cases h
  rw [carries, ok_of_orMalformed hvalue, Option.any_some, Json.items, ok_of_orMalformed houtput]
  exact OutputKind.keeps_of_parseOutput hcontent

end OpenaiWs

namespace Local

variable {serde : SerdeJson}

/-- The message of the first choice has a text that is not empty, or a tool call. -/
def carries (value : Json) : Bool :=
  ((Json.pointer ["choices", "0"] value).bind fun choice => choice.get "message").any fun message =>
    ((message.str "content").any fun text => !text.isEmpty) || !(message.items "tool_calls").isEmpty

theorem parseText_ne_nil (message : Json) :
    parseText message ≠ [] ↔ ((message.str "content").any fun text => !text.isEmpty) = true := by
  rw [parseText]
  split
  · next text htext =>
      rw [htext]
      cases hempty : text.isEmpty <;> simp [hempty]
  · next htext => simp [htext]

theorem carries_of_parseResponse {value : Json} {response : CompletionResponse}
    (h : parseResponse serde value = .ok response) : response.content ≠ [] ↔ carries value = true := by
  obtain ⟨choice, hchoice, h⟩ := bind_eq_ok.mp h
  obtain ⟨message, hmessage, h⟩ := bind_eq_ok.mp h
  obtain ⟨calls, hcalls, h⟩ := bind_eq_ok.mp h
  cases h
  have hlength : (message.items "tool_calls").length = calls.length := (forall₂_of_mapM hcalls).length_eq
  have hempty : calls = [] ↔ message.items "tool_calls" = [] := by
    rw [← List.length_eq_zero_iff, ← hlength, List.length_eq_zero_iff]
  rw [carries, ok_of_orMalformed hchoice, Option.bind_some, ok_of_orMalformed hmessage, Option.any_some,
    Bool.or_eq_true, ← parseText_ne_nil, Ne, List.append_eq_nil_iff, hempty, not_and_or]
  simp

end Local

inductive Backend
  | anthropic
  | openaiResponses
  | openaiWs
  | chatCompletions
  deriving DecidableEq, Repr

namespace Backend

variable (serde : SerdeJson)

def parseValue (subject : String) (parse : Json → Except LlmError CompletionResponse) (text : String) :
    Except LlmError CompletionResponse :=
  match serde.fromStr text with
  | .ok value => parse value
  | .error e => malformed (subject ++ " is not valid JSON: " ++ e)

/-- What `complete` makes of the text that answers its request: the body of a successful
HTTP response, or the event `response.done`. -/
def parse : Backend → String → Except LlmError CompletionResponse
  | .anthropic => Anthropic.parseResponse serde
  | .openaiResponses => parseValue serde "response body" (OpenaiResponses.parseResponse serde)
  | .openaiWs => parseValue serde "server event" (OpenaiWs.parseResponseDone serde)
  | .chatCompletions => parseValue serde "response body" (Local.parseResponse serde)

def carries (backend : Backend) (text : String) : Bool :=
  match serde.tree text with
  | .error _ => false
  | .ok tree =>
    match backend with
    | .anthropic => Anthropic.carries tree
    | .openaiResponses => OpenaiResponses.carries (serde.value tree)
    | .openaiWs => OpenaiWs.carries (serde.value tree)
    | .chatCompletions => Local.carries (serde.value tree)

variable {serde} {backend : Backend}

theorem ok_of_parseValue {subject text : String} {parse : Json → Except LlmError CompletionResponse}
    {response : CompletionResponse} (h : parseValue serde subject parse text = .ok response) :
    ∃ tree, serde.tree text = .ok tree ∧ parse (serde.value tree) = .ok response := by
  rw [parseValue] at h
  split at h
  · next value hvalue =>
      obtain ⟨tree, htree, rfl⟩ := map_eq_ok.mp hvalue
      exact ⟨tree, htree, h⟩
  · cases h

/-- An accepted response is empty exactly if its text has only blocks that are skipped. -/
theorem carries_of_parse {text : String} {response : CompletionResponse}
    (h : backend.parse serde text = .ok response) :
    response.content ≠ [] ↔ backend.carries serde text = true := by
  cases backend with
  | anthropic =>
      obtain ⟨tree, htree, hiff⟩ := Anthropic.carries_of_parseResponse h
      rw [hiff, carries, htree]
  | openaiResponses =>
      obtain ⟨tree, htree, hvalue⟩ := ok_of_parseValue h
      rw [OpenaiResponses.carries_of_parseResponse hvalue, carries, htree]
  | openaiWs =>
      obtain ⟨tree, htree, hvalue⟩ := ok_of_parseValue h
      rw [OpenaiWs.carries_of_parseResponseDone hvalue, carries, htree]
  | chatCompletions =>
      obtain ⟨tree, htree, hvalue⟩ := ok_of_parseValue h
      rw [Local.carries_of_parseResponse hvalue, carries, htree]

end Backend

end Silo.Llm
