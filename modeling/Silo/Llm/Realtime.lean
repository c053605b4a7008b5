import Silo.Llm.Items
import Silo.Llm.Retry

namespace Silo.Llm.OpenaiWs

open Silo.Lib Silo.Core Silo.Harness

inductive Incoming
  | text (text : String)
  | close
  | other
  | failed (error : String)
  | ended

/-- A connection as it will go: whether it opens, what is read from it, and how each send ends. Where a list
ends, or there is no outcome, the session waits. -/
structure Connection where
  opened : Option (Except LlmError Unit)
  incoming : List Incoming
  sends : List (Except String Unit)

/-- What a session came to, and what it has sent. -/
structure Session where
  result : Option (Except LlmError CompletionResponse)
  sent : List Json

variable (serde : SerdeJson) (print : Json → String)

def closedEarly : LlmError := .transport "connection closed before response.done"

/-- The event of a frame; frames that are not text are skipped. -/
def readFrame : Incoming → Option (Except LlmError Json)
  | .text text =>
    match serde.fromStr text with
    | .ok event => some (.ok event)
    | .error e => some (malformed ("server event is not valid JSON: " ++ e))
  | .close => some (.error closedEarly)
  | .other => none
  | .failed error => some (.error (.transport error))
  | .ended => some (.error closedEarly)

def apiError (event : Json) : LlmError :=
  .api ("realtime error: " ++ ((Json.pointer ["error", "message"] event).bind Json.asStr).getD (print event))

def awaitEvent (type : String) : List Incoming → Option (Except LlmError (Json × List Incoming))
  | [] => none
  | frame :: rest =>
    match readFrame serde frame with
    | none => awaitEvent type rest
    | some (.error e) => some (.error e)
    | some (.ok event) =>
      if event.str "type" = some type then some (.ok (event, rest))
      else if event.str "type" = some "error" then some (.error (apiError print event))
      else awaitEvent type rest

def sendEvents : List Json → List (Except String Unit) → Option (Except LlmError Unit) × List Json
  | [], _ => (some (.ok ()), [])
  | _ :: _, [] => (none, [])
  | _ :: _, .error e :: _ => (some (.error (.transport e)), [])
  | event :: events, .ok _ :: sends =>
    let later := sendEvents events sends
    (later.1, event :: later.2)

def toolToWire (tool : ToolDef) : Json :=
  .object [("type", .string "function"), ("name", .string tool.name), ("description", .string tool.description),
    ("parameters", tool.inputSchema)]

def sessionUpdate (system : String) (tools : List ToolDef) : Json :=
  .object [("type", .string "session.update"),
    ("session", .object [("modalities", .array [.string "text"]), ("instructions", .string system),
      ("tools", .array (tools.map toolToWire)), ("tool_choice", .string "auto"), ("turn_detection", .null)])]

def itemCreate (item : Json) : Json := .object [("type", .string "conversation.item.create"), ("item", item)]

def responseCreate : Json :=
  .object [("type", .string "response.create"), ("response", .object [("modalities", .array [.string "text"])])]

/-- Everything that a session sends. -/
def outgoing (request : CompletionRequest) : List Json :=
  sessionUpdate request.system request.tools ::
    ((conversationItems print request.messages).map itemCreate ++ [responseCreate])

/-- The session once the request is out, where `waiting` is what is still to be read. -/
def awaitResponse (waiting : List Incoming) : Option (Except LlmError CompletionResponse) :=
  (awaitEvent serde print "response.done" waiting).map fun reply => reply >>= fun read => parseResponseDone serde read.1

def runSession (request : CompletionRequest) (connection : Connection) : Session :=
  match connection.opened with
  | none => ⟨none, []⟩
  | some (.error e) => ⟨some (.error e), []⟩
  | some (.ok _) =>
    match awaitEvent serde print "session.created" connection.incoming with
    | none => ⟨none, []⟩
    | some (.error e) => ⟨some (.error e), []⟩
    | some (.ok (_, waiting)) =>
      let out := sendEvents (outgoing print request) connection.sends
      match out.1 with
      | none => ⟨none, out.2⟩
      | some (.error e) => ⟨some (.error e), out.2⟩
      | some (.ok _) => ⟨awaitResponse serde print waiting, out.2⟩

/-- A call that waits for frames that do not come is ended by the timeout. Time does not pass here: a
timeout that cuts off a call which would still have finished, and the close of the connection at
the end, are left out. -/
def complete (checked : Except LlmError Unit) (request : CompletionRequest) (connections : List Connection) :
    Completed :=
  completing checked (some ((attempting (fun connection => (runSession serde print request connection).result)
    connections).getD (.error (.transport "timed out")))) .ok

variable {serde print}

def Passed (serde : SerdeJson) (type : String) (frame : Incoming) : Prop :=
  ∀ r, readFrame serde frame = some r → ∃ event, r = .ok event ∧ event.str "type" ≠ some type ∧
    event.str "type" ≠ some "error"

/-- `event` is the first event of this type in `frames`, with no error before it. -/
structure FirstOf (serde : SerdeJson) (type : String) (frames : List Incoming) (event : Json)
    (rest : List Incoming) : Prop where
  order : ∃ passed frame, frames = passed ++ frame :: rest ∧ (∀ f ∈ passed, Passed serde type f) ∧
    readFrame serde frame = some (.ok event)
  type : event.str "type" = some type

theorem FirstOf.cons {type : String} {frame : Incoming} {frames rest : List Incoming} {event : Json}
    (hframe : Passed serde type frame) (h : FirstOf serde type frames event rest) :
    FirstOf serde type (frame :: frames) event rest := by
  obtain ⟨passed, last, rfl, hpassed, hlast⟩ := h.order
  refine ⟨⟨frame :: passed, last, rfl, ?_, hlast⟩, h.type⟩
  intro f hf
  rcases List.mem_cons.mp hf with rfl | hf
  · exact hframe
  · exact hpassed f hf

theorem awaitEvent_ok {type : String} {frames rest : List Incoming} {event : Json}
    (h : awaitEvent serde print type frames = some (.ok (event, rest))) : FirstOf serde type frames event rest := by
  induction frames with
  | nil => cases h
  | cons frame frames ih =>
      rw [awaitEvent] at h
      split at h
      · rename_i hskip
        refine (ih h).cons fun r hr => ?_
        rw [hskip] at hr
        cases hr
      · cases h
      · rename_i read hread
        split at h
        · rename_i htype
          cases h
          exact ⟨⟨[], frame, rfl, fun _ hf => (by cases hf), hread⟩, htype⟩
        · rename_i htype
          split at h
          · cases h
          · rename_i herror
            refine (ih h).cons fun r hr => ?_
            rw [hread] at hr
            cases hr
            exact ⟨read, rfl, htype, herror⟩

theorem sendEvents_initial (events : List Json) (sends : List (Except String Unit)) :
    (sendEvents events sends).2 <+: events := by
  induction events generalizing sends with
  | nil => exact List.nil_prefix ..
  | cons event events ih =>
      cases sends with
      | nil => exact List.nil_prefix ..
      | cons result sends =>
          cases result with
          | error e => exact List.nil_prefix ..
          | ok _ => exact List.cons_prefix_cons.mpr ⟨rfl, ih sends⟩

theorem sendEvents_ok {events : List Json} {sends : List (Except String Unit)}
    (h : (sendEvents events sends).1 = some (.ok ())) : (sendEvents events sends).2 = events := by
  induction events generalizing sends with
  | nil => rfl
  | cons event events ih =>
      cases sends with
      | nil => cases h
      | cons result sends =>
          cases result with
          | error e => cases h
          | ok _ => exact congrArg (event :: ·) (ih h)

/-- The connection is open and the server has greeted; `waiting` is still to be read. -/
def Greeted (serde : SerdeJson) (connection : Connection) (waiting : List Incoming) : Prop :=
  connection.opened = some (.ok ()) ∧ ∃ event, FirstOf serde "session.created" connection.incoming event waiting

/-- The whole request has been sent, and the response is the one of the first `response.done` after the greeting. -/
structure Responded (serde : SerdeJson) (print : Json → String) (request : CompletionRequest) (connection : Connection)
    (response : CompletionResponse) : Prop where
  sent : (runSession serde print request connection).sent = outgoing print request
  answer : ∃ waiting event rest, Greeted serde connection waiting ∧
    FirstOf serde "response.done" waiting event rest ∧ parseResponseDone serde event = .ok response

theorem awaitResponse_ok {waiting : List Incoming} {response : CompletionResponse}
    (h : awaitResponse serde print waiting = some (.ok response)) :
    ∃ event rest, FirstOf serde "response.done" waiting event rest ∧ parseResponseDone serde event = .ok response := by
  obtain ⟨reply, hreply, hparse⟩ := Option.map_eq_some_iff.mp h
  obtain ⟨read, rfl, hread⟩ := bind_eq_ok.mp hparse
  exact ⟨read.1, read.2, awaitEvent_ok hreply, hread⟩

/-- A session ends before the greeting, and then it has sent nothing, or it sends the request after it. -/
theorem runSession_cases (serde : SerdeJson) (print : Json → String) (request : CompletionRequest)
    (connection : Connection) :
    ((∀ response, (runSession serde print request connection).result ≠ some (.ok response)) ∧
      (runSession serde print request connection).sent = []) ∨
    ∃ waiting, Greeted serde connection waiting ∧
      (runSession serde print request connection).sent = (sendEvents (outgoing print request) connection.sends).2 ∧
      ∀ response, (runSession serde print request connection).result = some (.ok response) →
        (sendEvents (outgoing print request) connection.sends).1 = some (.ok ()) ∧
          awaitResponse serde print waiting = some (.ok response) := by
  rw [runSession]
  split
  · exact .inl ⟨fun _ h => (by cases h), rfl⟩
  · exact .inl ⟨fun _ h => (by cases h), rfl⟩
  · rename_i hopened
    split
    · exact .inl ⟨fun _ h => (by cases h), rfl⟩
    · exact .inl ⟨fun _ h => (by cases h), rfl⟩
    · rename_i event waiting hgreeting
      refine .inr ⟨waiting, ⟨hopened, event, awaitEvent_ok hgreeting⟩, ?_⟩
      dsimp only
      split
      · exact ⟨rfl, fun _ h => by cases h⟩
      · exact ⟨rfl, fun _ h => by cases h⟩
      · rename_i hsent
        exact ⟨rfl, fun response h => ⟨hsent, h⟩⟩

/-- Nothing is sent before the greeting, and then only the request, in its order. -/
theorem runSession_sent (request : CompletionRequest) (connection : Connection) :
    (runSession serde print request connection).sent <+: outgoing print request ∧
      ((runSession serde print request connection).sent ≠ [] → ∃ waiting, Greeted serde connection waiting) := by
  rcases runSession_cases serde print request connection with ⟨-, hsent⟩ | ⟨waiting, hgreeted, hsent, -⟩
  · rw [hsent]
    exact ⟨List.nil_prefix .., fun h => absurd rfl h⟩
  · rw [hsent]
    exact ⟨sendEvents_initial .., fun _ => ⟨waiting, hgreeted⟩⟩

theorem runSession_ok {request : CompletionRequest} {connection : Connection} {response : CompletionResponse}
    (h : (runSession serde print request connection).result = some (.ok response)) :
    Responded serde print request connection response := by
  rcases runSession_cases serde print request connection with ⟨hnone, -⟩ | ⟨waiting, hgreeted, hsent, hok⟩
  · exact absurd h (hnone response)
  · obtain ⟨hall, hresponse⟩ := hok response h
    obtain ⟨event, rest, hdone, hparse⟩ := awaitResponse_ok hresponse
    exact ⟨hsent.trans (sendEvents_ok hall), waiting, event, rest, hgreeted, hdone, hparse⟩

/-- A response is that of a session with the whole request, an error comes from the quota, the timeout or the
last session, which would be repeated if it were not the third, and only a response counts towards the quota. -/
structure RealtimeCompletes (serde : SerdeJson) (print : Json → String) (checked : Except LlmError Unit)
    (request : CompletionRequest) (connections : List Connection) (completed : Completed) : Prop where
  returns : completed.result ≠ none
  recorded : completed.recorded = (completed.result.bind Except.toOption).map CompletionResponse.usage
  answered : ∀ response, completed.result = some (.ok response) → checked = .ok () ∧ ∃ before last after,
    connections = before ++ last :: after ∧
      Retried retryAttempts 0 (fun c => (runSession serde print request c).result) before ∧
      Responded serde print request last response
  failed : ∀ e, completed.result = some (.error e) → checked = .error e ∨ e = .transport "timed out" ∨
    ∃ before last after, connections = before ++ last :: after ∧
      Retried retryAttempts 0 (fun c => (runSession serde print request c).result) before ∧
      (runSession serde print request last).result = some (.error e) ∧
      (isRetryable e = true → before.length + 1 = retryAttempts)

/-- No session sends anything but the request after the greeting, and `complete` returns what one of them came to. -/
theorem realtime_completes (serde : SerdeJson) (print : Json → String) (checked : Except LlmError Unit)
    (request : CompletionRequest) (connections : List Connection) :
    (∀ connection, (runSession serde print request connection).sent <+: outgoing print request ∧
      ((runSession serde print request connection).sent ≠ [] → ∃ waiting, Greeted serde connection waiting)) ∧
    RealtimeCompletes serde print checked request connections
      (complete serde print checked request connections) := by
  refine ⟨runSession_sent request, ?_⟩
  cases checked with
  | error d =>
      refine ⟨fun h => (by cases h), rfl, fun response h => (by cases h), fun e h => .inl ?_⟩
      cases h
      rfl
  | ok _ =>
      have hresult : (complete serde print (.ok ()) request connections).result =
          some (((attempting (fun c => (runSession serde print request c).result) connections).getD
            (.error (.transport "timed out"))) >>= .ok) := rfl
      rw [bind_ok_right] at hresult
      refine ⟨fun h => ?_, rfl, fun response h => ⟨rfl, ?_⟩, fun e h => .inr ?_⟩
      · rw [hresult] at h
        cases h
      · rw [hresult] at h
        cases hattempts : attempting (fun c => (runSession serde print request c).result) connections with
        | none =>
            rw [hattempts] at h
            cases h
        | some r =>
            obtain ⟨before, last, after, horder, hretried, hlast, -⟩ := retryWithBackoff_ends (by decide) hattempts
            rw [hattempts] at h
            exact ⟨before, last, after, horder, hretried, runSession_ok (hlast.trans h)⟩
      · rw [hresult] at h
        cases hattempts : attempting (fun c => (runSession serde print request c).result) connections with
        | none =>
            rw [hattempts] at h
            cases h
            exact .inl rfl
        | some r =>
            obtain ⟨before, last, after, horder, hretried, hlast, hfinal⟩ :=
              retryWithBackoff_ends (by decide) hattempts
            rw [hattempts] at h
            refine .inr ⟨before, last, after, horder, hretried, hlast.trans h, fun he => ?_⟩
            have hlength := hfinal e (Option.some.inj h) he
            omega

def greetingText : String := "\x7b\"type\":\"session.created\"\x7d"

def answerText : String := "\x7b\"type\":\"response.done\",\"response\":\x7b\"output\":[]\x7d\x7d"

def briefReader : SerdeJson where
  tree text :=
    if text = greetingText then .ok (.object [("type", .string "session.created")])
    else if text = answerText then
      .ok (.object [("type", .string "response.done"), ("response", .object [("output", .array [])])])
    else .error "expected value"
  value := id

def briefRequest : CompletionRequest := ⟨"", [], [], 16⟩

/-- The first connection is refused. -/
def briefConnections : List Connection :=
  [⟨some (.error (.transport "refused")), [], []⟩,
    ⟨some (.ok ()), [.other, .text greetingText, .text answerText], [.ok (), .ok ()]⟩]

theorem realtime_completes_brief :
    ∃ before last after, briefConnections = before ++ last :: after ∧
      Retried retryAttempts 0 (fun c => (runSession briefReader (fun _ => "") briefRequest c).result) before ∧
      Responded briefReader (fun _ => "") briefRequest last ⟨[], .endTurn, ⟨0, 0⟩⟩ := by
  have hresult : (complete briefReader (fun _ => "") (.ok ()) briefRequest briefConnections).result =
      some (.ok ⟨[], .endTurn, ⟨0, 0⟩⟩) := rfl
  exact ((realtime_completes briefReader (fun _ => "") (.ok ()) briefRequest briefConnections).2.answered _ hresult).2

end Silo.Llm.OpenaiWs
