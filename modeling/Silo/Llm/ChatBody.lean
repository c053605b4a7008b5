import Silo.Llm.FullMessages
import Silo.Llm.Items

namespace Silo.Harness.Dialogue

open Silo.Lib Silo.Core

def openCalls (messages : List Message) : List String :=
  match messages.getLast? with
  | some ⟨.assistant, content⟩ => (Message.assistant content).toolUseIds
  | _ => []

/-- A user message has tool results only where tool uses are open. -/
def Unasked (messages : List Message) : Prop :=
  ∀ (front : List Message) (m : Message) (rest : List Message), messages = front ++ m :: rest →
    m.role = .user → openCalls front = [] →
    ∀ block ∈ m.content, (ContentBlock.asText block).isSome = true

/-- The shape of every conversation that is sent: results stand after the calls that
they are for, and nowhere else. -/
structure Exchanged (messages : List Message) : Prop where
  wellFormed : WellFormed messages
  unasked : Unasked messages

theorem openCalls_snoc_assistant (messages : List Message) (content : List ContentBlock) :
    openCalls (messages ++ [Message.assistant content]) = (Message.assistant content).toolUseIds := by
  rw [openCalls, List.getLast?_concat]
  rfl

theorem openCalls_snoc_user (messages : List Message) (content : List ContentBlock) :
    openCalls (messages ++ [⟨.user, content⟩]) = [] := by
  rw [openCalls, List.getLast?_concat]

theorem unasked_nil : Unasked [] := by
  rintro front m rest h
  simp at h

theorem unasked_snoc_iff {messages : List Message} {m : Message} : Unasked (messages ++ [m]) ↔
    Unasked messages ∧ (m.role = .user → openCalls messages = [] →
      ∀ block ∈ m.content, (ContentBlock.asText block).isSome = true) := by
  constructor
  · intro h
    refine ⟨?_, h messages m [] rfl⟩
    rintro front n rest rfl
    exact h front n (rest ++ [m]) (by simp)
  · rintro ⟨hbefore, hlast⟩ front n rest h
    rcases List.eq_nil_or_concat' rest with rfl | ⟨rest, last, rfl⟩
    · obtain ⟨rfl, hm⟩ := List.append_inj' h rfl
      obtain rfl : m = n := by simpa using hm
      exact hlast
    · rw [← List.cons_append, ← List.append_assoc] at h
      obtain ⟨hfront, -⟩ := List.append_inj' h rfl
      exact hbefore front n rest hfront

theorem unasked_snoc_assistant {messages : List Message} (h : Unasked messages) (content : List ContentBlock) :
    Unasked (messages ++ [Message.assistant content]) :=
  unasked_snoc_iff.mpr ⟨h, nofun⟩

theorem unasked_snoc_results {messages : List Message} (h : Unasked messages) {response : CompletionResponse}
    (hlast : messages.getLast? = some (.assistant response.content)) (hcalls : response.toolCalls ≠ [])
    (results : List ContentBlock) : Unasked (messages ++ [⟨.user, results⟩]) := by
  refine unasked_snoc_iff.mpr ⟨h, ?_⟩
  intro _ hnone
  rw [openCalls, hlast] at hnone
  exact absurd (List.map_eq_nil_iff.mp hnone) hcalls

theorem unasked_pushUserPrompt {messages : List Message} (h : Unasked messages) (text : String) :
    Unasked (pushUserPrompt messages text) := by
  rw [pushUserPrompt]
  split
  · rename_i content hlast
    obtain ⟨front, rfl⟩ := List.getLast?_eq_some_iff.mp hlast
    obtain ⟨hfront, hcontent⟩ := unasked_snoc_iff.mp h
    rw [List.dropLast_concat]
    refine unasked_snoc_iff.mpr ⟨hfront, ?_⟩
    intro _ hnone block hblock
    rcases List.mem_append.mp hblock with hblock | hblock
    · exact hcontent rfl hnone block hblock
    · rw [List.mem_singleton.mp hblock]
      rfl
  · refine unasked_snoc_iff.mpr ⟨h, ?_⟩
    intro _ _ block hblock
    rw [List.mem_singleton.mp hblock]
    rfl

variable {ctx : SessionCtx} {turn : Turn} {d : Drive} {reply : Reply}

theorem Adds.unasked {messages : List Message} (ha : Adds d reply messages) (h : Unasked d.messages)
    (hok : DriveOk d) : Unasked messages := by
  have hstage := hok.stage
  cases ha with
  | nothing => exact h
  | answer response => exact unasked_snoc_assistant h _
  | results hs hcalls hresults =>
      rcases hs with hs | hs <;> rw [hs] at hstage <;> exact unasked_snoc_results h hstage.1 hcalls _

theorem PartyOk.drive {party : Party} (h : PartyOk party) (hd : party.Drives d) : DriveOk d := by
  cases party with
  | subagent turn driven =>
      obtain rfl : driven = d := hd
      exact h
  | topLevel loop =>
      obtain ⟨turn, hstage, hmessages⟩ := hd
      rw [PartyOk, hstage, ← hmessages] at h
      exact h

theorem keeps_unasked_initial {s : State} (h : initial s) : Keeps Unasked s := by
  obtain ⟨hlog, hparty⟩ := h
  refine ⟨?_, ?_⟩
  · obtain hparty | ⟨turn, prompt, hparty⟩ := hparty
    · rw [hparty]
      exact unasked_nil
    · rw [hparty]
      refine unasked_snoc_iff.mpr ⟨unasked_nil, ?_⟩
      intro _ _ block hblock
      rw [List.mem_singleton.mp hblock]
      rfl
  · intro q hq
    rw [hlog] at hq
    cases hq

theorem keeps_unasked_next {s t : State} {act : Act} (h : Keeps Unasked s) (hinv : Inv s)
    (hn : next ctx s act = some t) : Keeps Unasked t := by
  refine h.next (fun _ text h => unasked_pushUserPrompt h text) ?_ hn
  rintro turn d reply step rfl hd hp hstep
  have htold := told_advance hstep
  refine ⟨htold.adds.unasked hp (hinv.party.drive hd), ?_⟩
  intro q hq
  rw [htold.asks q hq]
  exact hp

/-- Every request of the loop has its results after the calls they are for. -/
theorem requests_exchanged {s : State} (h : (machine ctx).Reachable s) :
    ∀ q ∈ requests s.log, Exchanged q.messages := by
  have hinv : Inv s ∧ Keeps Unasked s :=
    h.invariant (I := fun s => Inv s ∧ Keeps Unasked s) (fun hi => ⟨inv_initial hi, keeps_unasked_initial hi⟩)
      fun hi _ hn => ⟨inv_step hi.1 hn, keeps_unasked_next hi.2 hi.1 hn⟩
  exact fun q hq => ⟨hinv.1.requests q hq, hinv.2.requests q hq⟩

end Silo.Harness.Dialogue

namespace Silo.Llm

open Silo.Core Silo.Harness Silo.Harness.Dialogue

namespace Local

def toolMessage : ContentBlock → Option Json
  | .toolResult toolUseId content _ => some (.object [("role", .string "tool"), ("tool_call_id", .string toolUseId),
      ("content", .string content)])
  | _ => none

def texts (content : List ContentBlock) : List String := content.filterMap ContentBlock.asText

variable (print : Json → String)

def toolCall : ContentBlock → Option Json
  | .toolUse id name input => some (.object [("id", .string id), ("type", .string "function"),
      ("function", .object [("name", .string name), ("arguments", .string (print input))])])
  | _ => none

def assistantMessage (content : List ContentBlock) : Json :=
  let toolCalls := content.filterMap (toolCall print)
  .object ([("role", .string "assistant"),
      ("content", if texts content = [] then .null else .string ("\n".intercalate (texts content)))] ++
    if toolCalls.isEmpty then [] else [("tool_calls", .array toolCalls)])

def userMessages (content : List ContentBlock) : List Json :=
  content.filterMap toolMessage ++
    if texts content = [] then []
    else [.object [("role", .string "user"), ("content", .string ("\n".intercalate (texts content)))]]

def appendMessage (message : Message) : List Json :=
  match message.role with
  | .user => userMessages message.content
  | .assistant => [assistantMessage print message.content]

def toolToWire (tool : ToolDef) : Json :=
  .object [("type", .string "function"), ("function", .object [("name", .string tool.name),
    ("description", .string tool.description), ("parameters", tool.inputSchema)])]

def systemMessages (system : String) : List Json :=
  if system = "" then [] else [.object [("role", .string "system"), ("content", .string system)]]

def buildBody (model : String) (request : CompletionRequest) : Json :=
  .object ([("model", .string model), ("max_tokens", .number (.posInt (UInt64.ofNat request.maxTokens))),
      ("messages", .array (systemMessages request.system ++ request.messages.flatMap (appendMessage print)))] ++
    if request.tools.isEmpty then []
    else [("tools", .array (request.tools.map toolToWire)), ("tool_choice", .string "auto")])

end Local

/-- Every message with tool calls is followed by one tool message for each, in order, and
there are no others. -/
inductive Paired : List Json → Prop
  | nil : Paired []
  | other {message rest} : message.str "role" ≠ some "tool" → message.items "tool_calls" = [] → Paired rest →
      Paired (message :: rest)
  | calls {message replies rest} : message.str "role" = some "assistant" →
      (∀ reply ∈ replies, reply.str "role" = some "tool") →
      replies.map (fun reply => reply.str "tool_call_id") =
        (message.items "tool_calls").map (fun call => call.str "id") →
      Paired rest → Paired (message :: (replies ++ rest))

def chatText (message : Json) : Option (Role × String) :=
  match message.str "role" with
  | some "user" => (message.str "content").map fun text => (.user, text)
  | some "assistant" => (message.str "content").map fun text => (.assistant, text)
  | _ => none

def toolUses (messages : List Message) : List ContentBlock :=
  ((blocks messages).filter fun block => block.1 = .assistant ∧ isToolUse block.2).map Prod.snd

/-- The messages of a body show the conversation: calls with their results, texts in order
under their role, and calls that are read again. -/
structure ShowsChat (serde : SerdeJson) (messages : List Message) (wire : List Json) : Prop where
  paired : Paired wire
  texts : ∃ groups : List (Role × List String),
    wire.filterMap chatText = groups.map (fun group => (group.1, "\n".intercalate group.2)) ∧
    groups.flatMap (fun group => group.2.map fun text => (group.1, text)) =
      (blocks messages).filterMap fun block => block.2.asText.map fun text => (block.1, text)
  calls : List.Forall₂ (fun call block => Local.parseToolCall serde call = .ok block)
    (wire.flatMap fun message => message.items "tool_calls") (toolUses messages)

/-- The calls that are open go first, and results stand after the calls that they are for. -/
def Exchanges : List String → List Message → Prop
  | ids, [] => ids = []
  | ids, ⟨.user, content⟩ :: rest => Message.Answers ⟨.user, content⟩ ids ∧ Exchanges [] rest
  | ids, ⟨.assistant, content⟩ :: rest => ids = [] ∧ Exchanges (Message.assistant content).toolUseIds rest

variable {serde : SerdeJson} {print : Json → String} {messages : List Message}

theorem answers_nil {m : Message} (h : ∀ block ∈ m.content, (ContentBlock.asText block).isSome = true) : m.Answers [] :=
  ⟨[], m.content, rfl, rfl, h⟩

theorem exchanges_of_exchanged (h : Exchanged messages) (rest front : List Message) (hsplit : messages = front ++ rest) :
    Exchanges (openCalls front) rest := by
  induction rest generalizing front with
  | nil =>
      rw [List.append_nil] at hsplit
      subst hsplit
      have hlast := h.wellFormed.endsWithUser
      cases hget : messages.getLast? with
      | none => rw [openCalls, hget, Exchanges]
      | some m =>
          obtain ⟨role, content⟩ := m
          rw [hget] at hlast
          cases hlast
          rw [openCalls, hget, Exchanges]
  | cons m rest ih =>
      have hrest := ih (front ++ [m]) (by rw [hsplit, List.append_assoc]; rfl)
      have hopen : openCalls front ≠ [] → m.role = .user ∧ m.Answers (openCalls front) := by
        intro hne
        rw [openCalls] at hne ⊢
        split at hne
        · rename_i content hlast
          obtain ⟨init, rfl⟩ := List.getLast?_eq_some_iff.mp hlast
          obtain ⟨n, hn, hrole, hanswers⟩ := h.wellFormed.answered init.length (Message.assistant content)
            (by rw [hsplit]; simp [Message.assistant]) rfl hne
          have hm : messages[init.length + 1]? = some m := by rw [hsplit]; simp
          rw [hm] at hn
          cases hn
          exact ⟨hrole, hanswers⟩
        · exact absurd rfl hne
      obtain ⟨role, content⟩ := m
      cases role with
      | user =>
          rw [openCalls_snoc_user] at hrest
          refine ⟨?_, hrest⟩
          by_cases hnone : openCalls front = []
          · rw [hnone]
            exact answers_nil (h.unasked front _ rest hsplit rfl hnone)
          · exact (hopen hnone).2
      | assistant =>
          have hrest : Exchanges (openCalls (front ++ [Message.assistant content])) rest := hrest
          rw [openCalls_snoc_assistant] at hrest
          refine ⟨?_, hrest⟩
          by_contra hne
          cases (hopen hne).1

namespace Local

theorem mem_toolMessages {content : List ContentBlock} {reply : Json} (h : reply ∈ content.filterMap toolMessage) :
    ∃ toolUseId text, reply = .object [("role", .string "tool"), ("tool_call_id", .string toolUseId),
      ("content", .string text)] := by
  obtain ⟨block, -, hreply⟩ := List.mem_filterMap.mp h
  cases block with
  | text text => cases hreply
  | toolUse id name input => cases hreply
  | toolResult toolUseId text isError =>
      cases hreply
      exact ⟨toolUseId, text, rfl⟩

theorem toolMessages_ids (content : List ContentBlock) :
    (content.filterMap toolMessage).map (fun reply => reply.str "tool_call_id") =
      (content.filterMap ContentBlock.resultOf).map some := by
  rw [List.map_filterMap, List.map_filterMap]
  congr 1
  funext block
  cases block <;> rfl

theorem items_assistantMessage (content : List ContentBlock) :
    (assistantMessage print content).items "tool_calls" = content.filterMap (toolCall print) := by
  rw [assistantMessage]
  cases hcalls : content.filterMap (toolCall print) with
  | nil => rfl
  | cons call calls => rfl

theorem toolCalls_ids (content : List ContentBlock) :
    (content.filterMap (toolCall print)).map (fun call => call.str "id") =
      (Message.assistant content).toolUseIds.map some := by
  rw [Message.toolUseIds, List.map_filterMap, List.map_map, List.map_filterMap]
  congr 1
  funext block
  cases block <;> rfl

theorem results_of_answers {m : Message} {ids : List String} (h : m.Answers ids) :
    m.content.filterMap ContentBlock.resultOf = ids := by
  obtain ⟨results, others, hcontent, hids, hothers⟩ := h
  have hresults : results.filterMap ContentBlock.resultOf = ids := by
    have hsame := congrArg (List.filterMap id) hids
    rw [List.filterMap_map, List.filterMap_map] at hsame
    exact hsame.trans List.filterMap_some
  have hnone : others.filterMap ContentBlock.resultOf = [] := by
    rw [List.filterMap_eq_nil_iff]
    intro block hblock
    cases block with
    | toolResult id text isError => cases hothers _ hblock
    | _ => rfl
  rw [hcontent, List.filterMap_append, hresults, hnone, List.append_nil]

/-- The messages for a conversation begin with the results of the open calls. -/
theorem paired_of_exchanges (print : Json → String) {ids : List String} (h : Exchanges ids messages) :
    ∃ replies rest, messages.flatMap (appendMessage print) = replies ++ rest ∧
      (∀ reply ∈ replies, reply.str "role" = some "tool") ∧
      replies.map (fun reply => reply.str "tool_call_id") = ids.map some ∧ Paired rest := by
  induction messages generalizing ids with
  | nil =>
      rw [Exchanges] at h
      exact ⟨[], [], rfl, nofun, by rw [h]; rfl, .nil⟩
  | cons m messages ih =>
      obtain ⟨role, content⟩ := m
      cases role with
      | user =>
          obtain ⟨hanswers, h⟩ := h
          obtain ⟨replies, rest, hmessages, -, hids, hrest⟩ := ih h
          obtain rfl : replies = [] := List.map_eq_nil_iff.mp hids
          refine ⟨content.filterMap toolMessage, _, by
            rw [List.flatMap_cons, hmessages, appendMessage, userMessages, List.append_assoc], ?_, ?_, ?_⟩
          · intro reply hreply
            obtain ⟨toolUseId, text, rfl⟩ := mem_toolMessages hreply
            rfl
          · have hresults : content.filterMap ContentBlock.resultOf = ids := results_of_answers hanswers
            rw [toolMessages_ids, hresults]
          · split
            · exact hrest
            · refine .other ?_ rfl hrest
              show some "user" ≠ some "tool"
              decide
      | assistant =>
          obtain ⟨rfl, h⟩ := h
          obtain ⟨replies, rest, hmessages, htool, hids, hrest⟩ := ih h
          refine ⟨[], assistantMessage print content :: (replies ++ rest), by
            rw [List.flatMap_cons, hmessages]; rfl, nofun, rfl, .calls rfl htool ?_ hrest⟩
          rw [items_assistantMessage, toolCalls_ids, hids]

def textGroups (m : Message) : List (Role × List String) :=
  if texts m.content = [] then [] else [(m.role, texts m.content)]

theorem chatText_appendMessage (m : Message) : (appendMessage print m).filterMap chatText =
    (textGroups m).map fun group => (group.1, "\n".intercalate group.2) := by
  obtain ⟨role, content⟩ := m
  cases role with
  | user =>
      have hresults : (content.filterMap toolMessage).filterMap chatText = [] := by
        rw [List.filterMap_eq_nil_iff]
        intro reply hreply
        obtain ⟨toolUseId, text, rfl⟩ := mem_toolMessages hreply
        rfl
      rw [appendMessage, userMessages, List.filterMap_append, hresults, textGroups]
      split <;> rfl
  | assistant =>
      have htext : chatText (assistantMessage print content) =
          (if texts content = [] then none else some (.assistant, "\n".intercalate (texts content))) := by
        rw [assistantMessage]
        cases content.filterMap (toolCall print) <;> split <;> rfl
      show (([assistantMessage print content] : List Json).filterMap chatText) = _
      rw [List.filterMap_cons, htext, textGroups]
      by_cases hnone : texts content = [] <;> simp [hnone]

theorem flatMap_textGroups (messages : List Message) :
    (messages.flatMap textGroups).flatMap (fun group => group.2.map fun text => (group.1, text)) =
      (blocks messages).filterMap fun block => block.2.asText.map fun text => (block.1, text) := by
  rw [blocks, List.flatMap_assoc, List.filterMap_flatMap]
  congr 1
  funext m
  have hgroups : (textGroups m).flatMap (fun group => group.2.map fun text => (group.1, text)) =
      (texts m.content).map fun text => (m.role, text) := by
    rw [textGroups]
    split
    · rename_i hnone
      rw [hnone]
      rfl
    · exact List.flatMap_singleton _ _
  rw [hgroups, texts, List.map_filterMap, List.filterMap_map]
  rfl

theorem parseToolCall_toolCall {id name : String} {input : Json} (h : serde.fromStr (print input) = .ok input) :
    ∀ call, toolCall print (.toolUse id name input) = some call →
      parseToolCall serde call = .ok (.toolUse id name input) := by
  rintro _ ⟨⟩
  have harguments : parseArguments serde "tool_call" (print input) = .ok input := by
    rw [parseArguments, h]
  show (parseArguments serde "tool_call" (print input)).bind _ = _
  rw [harguments]
  rfl

theorem parse_toolCalls {content : List ContentBlock}
    (h : ∀ block ∈ content.filter isToolUse, Answers serde print block) :
    List.Forall₂ (fun call block => parseToolCall serde call = .ok block) (content.filterMap (toolCall print))
      (content.filter isToolUse) := by
  induction content with
  | nil => exact .nil
  | cons block content ih =>
      cases block with
      | text text => exact ih h
      | toolResult id text isError => exact ih h
      | toolUse id name input =>
          obtain ⟨hblock, hrest⟩ := List.forall_mem_cons.mp h
          exact .cons (parseToolCall_toolCall hblock _ rfl) (ih hrest)

theorem items_appendMessage (m : Message) : (appendMessage print m).flatMap (fun message => message.items "tool_calls") =
    if m.role = .assistant then m.content.filterMap (toolCall print) else [] := by
  obtain ⟨role, content⟩ := m
  cases role with
  | user =>
      rw [if_neg nofun, appendMessage, List.flatMap_eq_nil_iff]
      intro message hmessage
      rcases List.mem_append.mp hmessage with hmessage | hmessage
      · obtain ⟨toolUseId, text, rfl⟩ := mem_toolMessages hmessage
        rfl
      · split at hmessage
        · cases hmessage
        · rw [List.mem_singleton.mp hmessage]
          rfl
  | assistant =>
      show ([assistantMessage print content] : List Json).flatMap _ = _
      rw [List.flatMap_singleton, items_assistantMessage, if_pos rfl]

theorem toolUses_cons (m : Message) (messages : List Message) : toolUses (m :: messages) =
    (if m.role = .assistant then m.content.filter isToolUse else []) ++ toolUses messages := by
  rw [toolUses, blocks, List.flatMap_cons, List.filter_append, List.map_append, List.filter_map, List.map_map]
  congr 1
  split <;> simp_all [Function.comp_def]

theorem parse_calls (h : ∀ block ∈ toolUses messages, Answers serde print block) :
    List.Forall₂ (fun call block => parseToolCall serde call = .ok block)
      ((messages.flatMap (appendMessage print)).flatMap fun message => message.items "tool_calls") (toolUses messages) := by
  induction messages with
  | nil => exact .nil
  | cons m messages ih =>
      rw [toolUses_cons] at h ⊢
      rw [List.flatMap_cons, List.flatMap_append, items_appendMessage]
      apply List.rel_append
      · split
        · rename_i hrole
          rw [if_pos hrole] at h
          exact parse_toolCalls fun block hblock => h block (List.mem_append_left _ hblock)
        · exact .nil
      · exact ih fun block hblock => h block (List.mem_append_right _ hblock)

theorem items_buildBody (model : String) (request : CompletionRequest) :
    (buildBody print model request).items "messages" =
      systemMessages request.system ++ request.messages.flatMap (appendMessage print) := by
  rw [buildBody]
  cases request.tools <;> rfl

theorem systemMessages_cases (system : String) : systemMessages system = [] ∨
    systemMessages system = [.object [("role", .string "system"), ("content", .string system)]] := by
  rw [systemMessages]
  split
  · exact .inl rfl
  · exact .inr rfl

end Local

theorem showsChat_of_exchanges {wire : List Json} (hwire : wire = messages.flatMap (Local.appendMessage print))
    (h : Exchanges [] messages) (hinputs : ∀ block ∈ toolUses messages, Answers serde print block) :
    ShowsChat serde messages wire := by
  subst hwire
  obtain ⟨replies, rest, hmessages, -, hids, hrest⟩ := Local.paired_of_exchanges print h
  obtain rfl : replies = [] := List.map_eq_nil_iff.mp hids
  refine ⟨by rw [hmessages]; exact hrest, ⟨messages.flatMap Local.textGroups, ?_, Local.flatMap_textGroups messages⟩,
    Local.parse_calls hinputs⟩
  rw [List.filterMap_flatMap, List.map_flatMap]
  congr 1
  funext m
  exact Local.chatText_appendMessage m

theorem ShowsChat.system {wire : List Json} (h : ShowsChat serde messages wire) (system : String) :
    ShowsChat serde messages (Local.systemMessages system ++ wire) := by
  rcases Local.systemMessages_cases system with hnone | hsystem
  · rw [hnone]
    exact h
  · rw [hsystem]
    refine ⟨.other ?_ rfl h.paired, ?_, h.calls⟩
    · show some "system" ≠ some "tool"
      decide
    · obtain ⟨groups, hgroups, htexts⟩ := h.texts
      exact ⟨groups, hgroups, htexts⟩

/-- Every request of the agent loop has the shape of an exchange, and of every such
conversation the body shows calls, results and texts as they belong together. -/
theorem buildBody_showsChat :
    (∀ (ctx : SessionCtx) (s : State), (machine ctx).Reachable s → ∀ q ∈ requests s.log, Exchanged q.messages) ∧
    ∀ (serde : SerdeJson) (print : Json → String) (model : String) (request : CompletionRequest),
      Exchanged request.messages → (∀ block ∈ toolUses request.messages, Answers serde print block) →
      ShowsChat serde request.messages ((Local.buildBody print model request).items "messages") := by
  constructor
  · intro ctx s hs
    exact requests_exchanged hs
  · intro serde print model request h hinputs
    have hexchanges : Exchanges [] request.messages := exchanges_of_exchanged h request.messages [] rfl
    rw [Local.items_buildBody]
    exact (showsChat_of_exchanges rfl hexchanges hinputs).system request.system

/-- A reader of `null`. -/
def nullText : SerdeJson where
  tree text := if text = "null" then .ok .null else .error "expected value"
  value := id

def isNullUse : ContentBlock → Bool
  | .toolUse _ _ .null => true
  | _ => false

theorem answers_of_isNullUse {block : ContentBlock} (h : isNullUse block = true) :
    Answers nullText (fun _ => "null") block := by
  cases block with
  | text text => cases h
  | toolResult id text isError => cases h
  | toolUse id name input =>
      cases input with
      | null => rfl
      | _ => cases h

theorem buildBody_showsChat_interrupted :
    ∃ s, (machine mockCtx).Reachable s ∧ (requests s.log).length = 2 ∧ ∀ q ∈ requests s.log,
      ShowsChat nullText q.messages ((Local.buildBody (fun _ => "null") "m" q).items "messages") := by
  obtain ⟨s, hr, hp⟩ := Lib.Machine.exists_of_run interruptedThenPrompted
    (fun s => (requests s.log).length = 2 ∧ (requests s.log).all fun q => (toolUses q.messages).all isNullUse)
    (opening_initial mockCtx) (by decide)
  obtain ⟨hlength, hinputs⟩ := of_decide_eq_true hp
  obtain ⟨hexchanged, hshows⟩ := buildBody_showsChat
  refine ⟨s, hr, hlength, fun q hq => hshows nullText (fun _ => "null") "m" q (hexchanged mockCtx s hr q hq) ?_⟩
  intro block hblock
  exact answers_of_isNullUse (List.all_eq_true.mp (List.all_eq_true.mp hinputs q hq) block hblock)

end Silo.Llm
