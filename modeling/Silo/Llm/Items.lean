import Mathlib.Data.List.Forall2
import Silo.Llm.Wire

namespace Silo.Llm

open Silo.Core Silo.Harness

def blocks (messages : List Message) : List (Role × ContentBlock) :=
  messages.flatMap fun message => message.content.map fun block => (message.role, block)

def roleText : Role → String
  | .user => "user"
  | .assistant => "assistant"

section

variable (print : Json → String)

/-- The item of a block; `textType` is the type of a text part. -/
def item (role : Role) (textType : String) : ContentBlock → Json
  | .text text => .object [("type", .string "message"), ("role", .string (roleText role)),
      ("content", .array [.object [("type", .string textType), ("text", .string text)]])]
  | .toolUse id name input => .object [("type", .string "function_call"), ("call_id", .string id),
      ("name", .string name), ("arguments", .string (print input))]
  | .toolResult toolUseId content _ => .object [("type", .string "function_call_output"),
      ("call_id", .string toolUseId), ("output", .string content)]

namespace OpenaiResponses

def textType : Role → String
  | .user => "input_text"
  | .assistant => "output_text"

def buildInput (messages : List Message) : List Json :=
  (blocks messages).map fun block => item print block.1 (textType block.1) block.2

end OpenaiResponses

namespace OpenaiWs

def textType : Role → String
  | .user => "input_text"
  | .assistant => "text"

def conversationItems (messages : List Message) : List Json :=
  (blocks messages).map fun block => item print block.1 (textType block.1) block.2

end OpenaiWs

end

def isToolUse : ContentBlock → Bool
  | .toolUse .. => true
  | _ => false

/-- A block that an answer can have, with an input that is read as it was printed. -/
def Answers (serde : SerdeJson) (print : Json → String) : ContentBlock → Prop
  | .text _ => True
  | .toolUse _ _ input => serde.fromStr (print input) = .ok input
  | .toolResult .. => False

def SameItem (print : Json → String) (a b : Json) : Prop :=
  a = b ∨ ∃ text, a = item print .assistant "output_text" (.text text) ∧
    b = item print .assistant "text" (.text text)

/-- The item is for this block: its type, and its role and text or its call id. -/
def Shows (json : Json) : Role × ContentBlock → Prop
  | (role, .text text) => json.str "type" = some "message" ∧ json.str "role" = some (roleText role) ∧
      (json.items "content").map (fun part => part.str "text") = [some text]
  | (_, .toolUse id name _) => json.str "type" = some "function_call" ∧ json.str "call_id" = some id ∧
      json.str "name" = some name
  | (_, .toolResult toolUseId content _) => json.str "type" = some "function_call_output" ∧
      json.str "call_id" = some toolUseId ∧ json.str "output" = some content

variable {serde : SerdeJson} {print : Json → String} {kind : OutputKind} {textType : String}

theorem shows_item (role : Role) (textType : String) (block : ContentBlock) :
    Shows (item print role textType block) (role, block) := by
  cases block with
  | text text => exact ⟨rfl, rfl, rfl⟩
  | toolUse id name input => exact ⟨rfl, rfl, rfl⟩
  | toolResult id content isError => exact ⟨rfl, rfl, rfl⟩

theorem sameItem_item (role : Role) (block : ContentBlock) :
    SameItem print (item print role (OpenaiResponses.textType role) block)
      (item print role (OpenaiWs.textType role) block) := by
  cases role with
  | user => exact .inl rfl
  | assistant =>
      cases block with
      | text text => exact .inr ⟨text, rfl, rfl⟩
      | toolUse id name input => exact .inl rfl
      | toolResult id content isError => exact .inl rfl

theorem blocks_assistant (content : List ContentBlock) :
    blocks [Message.assistant content] = content.map fun block => (Role.assistant, block) := by
  rw [blocks, List.flatMap_singleton]
  rfl

theorem parseItem_item (htext : textType ∈ kind.textTypes) {block : ContentBlock} (h : Answers serde print block) :
    kind.parseItem serde (item print .assistant textType block) = .ok [block] := by
  cases block with
  | text text =>
      have htype : kind.isText (.object [("type", .string textType), ("text", .string text)]) = true := by
        simpa [OutputKind.isText, Json.str, Json.get, Json.asStr] using htext
      show kind.parseParts [_] = _
      rw [OutputKind.parseParts, if_pos htype]
      rfl
  | toolUse id name input =>
      have hinput : serde.fromStr (print input) = .ok input := h
      show (kind.parseFunctionCall serde _).map _ = _
      have harguments : parseArguments serde "function_call" (print input) = .ok input := by
        rw [parseArguments, hinput]
      rw [OutputKind.parseFunctionCall]
      show ((parseArguments serde "function_call" (print input)).bind _).map _ = _
      rw [harguments]
      rfl
  | toolResult id content isError => exact h.elim

theorem parseOutput_items (htext : textType ∈ kind.textTypes) {content : List ContentBlock}
    (h : ∀ block ∈ content, Answers serde print block) :
    kind.parseOutput serde (content.map (item print .assistant textType)) = .ok content := by
  induction content with
  | nil => rfl
  | cons block content ih =>
      have hrest := ih fun other hother => h other (List.mem_cons_of_mem _ hother)
      rw [List.map_cons, OutputKind.parseOutput, parseItem_item htext (h block List.mem_cons_self), hrest]
      rfl

theorem sawFunctionCall_items (role : Role) (content : List ContentBlock) :
    OutputKind.sawFunctionCall (content.map (item print role textType)) = content.any isToolUse := by
  rw [OutputKind.sawFunctionCall, List.any_map]
  congr 1
  funext block
  cases block with
  | text text =>
      show decide (some "message" = some "function_call") = false
      decide
  | toolUse id name input =>
      show decide (some "function_call" = some "function_call") = true
      decide
  | toolResult id content isError =>
      show decide (some "function_call_output" = some "function_call") = false
      decide

theorem stopReason_items {response : Json} (role : Role) (content : List ContentBlock) :
    kind.stopReason response (content.map (item print role textType)) = .toolUse ↔ ∃ block ∈ content, isToolUse block = true := by
  rw [OutputKind.stopReason, sawFunctionCall_items, ← List.any_eq_true]
  split
  · rename_i h
    simp only [h]
  · rename_i h
    simp only [h]
    split <;> simp

/-- The response has the blocks, and stops for a tool exactly if one is used. -/
def Returns (content : List ContentBlock) (result : Except LlmError CompletionResponse) : Prop :=
  ∃ response, result = .ok response ∧ response.content = content ∧
    (response.stopReason = .toolUse ↔ ∃ block ∈ content, isToolUse block = true)

theorem OpenaiResponses.returns_parseResponse {content : List ContentBlock} {value : Json}
    (h : ∀ block ∈ content, Answers serde print block)
    (hvalue : value.get "output" = some (.array (buildInput print [Message.assistant content]))) :
    Returns content (parseResponse serde value) := by
  have hitems : buildInput print [Message.assistant content] = content.map (item print .assistant "output_text") := by
    rw [buildInput, blocks_assistant, List.map_map]
    rfl
  rw [hitems] at hvalue
  have hparse : kind.parseOutput serde (content.map (item print .assistant "output_text")) = .ok content :=
    parseOutput_items (by decide) h
  refine ⟨⟨content, kind.stopReason value (content.map (item print .assistant "output_text")), OutputKind.usage value⟩,
    ?_, rfl, stopReason_items .assistant content⟩
  rw [parseResponse, hvalue]
  show (kind.parseOutput serde _).bind _ = _
  rw [hparse]
  rfl

theorem OpenaiWs.returns_parseResponseDone {content : List ContentBlock} {event response : Json}
    (h : ∀ block ∈ content, Answers serde print block) (hevent : event.get "response" = some response)
    (hresponse : response.get "output" = some (.array (conversationItems print [Message.assistant content]))) :
    Returns content (parseResponseDone serde event) := by
  have hitems : conversationItems print [Message.assistant content] = content.map (item print .assistant "text") := by
    rw [conversationItems, blocks_assistant, List.map_map]
    rfl
  rw [hitems] at hresponse
  have hparse : kind.parseOutput serde (content.map (item print .assistant "text")) = .ok content :=
    parseOutput_items (by decide) h
  refine ⟨⟨content, kind.stopReason response (content.map (item print .assistant "text")), OutputKind.usage response⟩,
    ?_, rfl, stopReason_items .assistant content⟩
  rw [parseResponseDone, hevent]
  show ((orMalformed _ ((response.get "output").bind Json.asArray)).bind _) = _
  rw [hresponse]
  show (kind.parseOutput serde _).bind _ = _
  rw [hparse]
  rfl

/-- What the two protocols make of a conversation. -/
structure SameItems (print : Json → String) (messages : List Message) : Prop where
  same : List.Forall₂ (SameItem print) (OpenaiResponses.buildInput print messages)
    (OpenaiWs.conversationItems print messages)
  responses : List.Forall₂ Shows (OpenaiResponses.buildInput print messages) (blocks messages)
  realtime : List.Forall₂ Shows (OpenaiWs.conversationItems print messages) (blocks messages)

theorem sameItems (print : Json → String) (messages : List Message) : SameItems print messages := by
  constructor
  · rw [OpenaiResponses.buildInput, OpenaiWs.conversationItems, List.forall₂_map_left_iff, List.forall₂_map_right_iff,
      List.forall₂_same]
    exact fun block _ => sameItem_item block.1 block.2
  · rw [OpenaiResponses.buildInput, List.forall₂_map_left_iff, List.forall₂_same]
    exact fun block _ => shows_item block.1 _ block.2
  · rw [OpenaiWs.conversationItems, List.forall₂_map_left_iff, List.forall₂_same]
    exact fun block _ => shows_item block.1 _ block.2

/-- An answer sent back in either protocol is read again, and the two protocols send the
same items. -/
theorem answers_read_again {content : List ContentBlock} (h : ∀ block ∈ content, Answers serde print block) :
    (∀ value : Json,
      value.get "output" = some (.array (OpenaiResponses.buildInput print [Message.assistant content])) →
      Returns content (OpenaiResponses.parseResponse serde value)) ∧
    (∀ event response : Json, event.get "response" = some response →
      response.get "output" = some (.array (OpenaiWs.conversationItems print [Message.assistant content])) →
      Returns content (OpenaiWs.parseResponseDone serde event)) ∧
    ∀ messages : List Message, SameItems print messages :=
  ⟨fun _ hvalue => OpenaiResponses.returns_parseResponse h hvalue,
    fun _ _ hevent hresponse => OpenaiWs.returns_parseResponseDone h hevent hresponse, sameItems print⟩

/-- A reader and a printer of an object without fields. -/
def emptyObject : SerdeJson where
  tree text := if text = "\x7b\x7d" then .ok (.object []) else .error "expected value"
  value := id

def bash : List ContentBlock := [.text "", .toolUse "call_1" "Bash" (.object []), .text "done"]

theorem answers_read_again_bash :
    Returns bash (OpenaiResponses.parseResponse emptyObject
      (.object [("output", .array (OpenaiResponses.buildInput (fun _ => "\x7b\x7d") [Message.assistant bash]))])) ∧
    SameItems (fun _ => "\x7b\x7d") [Message.assistant bash] := by
  have hanswers : ∀ block ∈ bash, Answers emptyObject (fun _ => "\x7b\x7d") block := by
    intro block hblock
    simp only [bash, List.mem_cons, List.not_mem_nil, or_false] at hblock
    rcases hblock with rfl | rfl | rfl
    · trivial
    · rfl
    · trivial
  obtain ⟨hresponses, -, hitems⟩ := answers_read_again hanswers
  exact ⟨hresponses _ rfl, hitems _⟩

end Silo.Llm
