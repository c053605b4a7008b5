import Silo.Codec.Event

namespace Silo.Codec

open Silo.Core (Json Number)

structure CostEntry where
  backend : String
  usage : UsageSnapshot
  quota : QuotaConfig

namespace CostEntry

def fields (entry : CostEntry) : List (String × Json) :=
  [("backend", .string entry.backend), ("usage", .object entry.usage.fields),
    ("quota", .object entry.quota.fields)]

def plain (entry : CostEntry) : Bool := entry.usage.plain && entry.quota.plain

theorem plain_fields {entry : CostEntry} (h : entry.plain = true) : plainFields entry.fields = true := by
  obtain ⟨husage, hquota⟩ : entry.usage.plain = true ∧ entry.quota.plain = true := by
    simpa [plain] using h
  simp [fields, plainFields, entry.usage.plain_fields husage, entry.quota.plain_fields hquota]

end CostEntry

inductive ServerMessage
  | hello (harnessId : String) (protocolVersion : UInt32)
  | authChallenge (challengeB64 : String)
  | authOk (clientId : String) (keyId : Option String) (nextSeq : UInt64)
  | authError (message : String)
  | event (event : Event)
  | events (events : List Event)
  | accessReport (report : AccessReport)
  | cost (entries : List CostEntry)
  | pairingCode (code : String) (expiresInSecs : UInt64)
  | pong (nonce : UInt64)
  | error (message : String)
  | shuttingDown (message : Option String)

namespace ServerMessage

def type : ServerMessage → String
  | .hello .. => "hello"
  | .authChallenge .. => "auth_challenge"
  | .authOk .. => "auth_ok"
  | .authError .. => "auth_error"
  | .event .. => "event"
  | .events .. => "events"
  | .accessReport .. => "access_report"
  | .cost .. => "cost"
  | .pairingCode .. => "pairing_code"
  | .pong .. => "pong"
  | .error .. => "error"
  | .shuttingDown .. => "shutting_down"

def variantFields : ServerMessage → List (String × Json)
  | .hello harnessId protocolVersion =>
    [("harness_id", .string harnessId), ("protocol_version", u64 protocolVersion.toUInt64)]
  | .authChallenge challengeB64 => [("challenge_b64", .string challengeB64)]
  | .authOk clientId keyId nextSeq =>
    [("client_id", .string clientId)] ++ optional "key_id" (keyId.map .string) ++ [("next_seq", u64 nextSeq)]
  | .authError message => [("message", .string message)]
  | .event e => [("event", .object e.fields)]
  | .events es => [("events", .array (es.map fun e => .object e.fields))]
  | .accessReport report => [("report", .object report.fields)]
  | .cost entries => [("entries", .array (entries.map fun entry => .object entry.fields))]
  | .pairingCode code expiresInSecs => [("code", .string code), ("expires_in_secs", u64 expiresInSecs)]
  | .pong nonce => [("nonce", u64 nonce)]
  | .error message => [("message", .string message)]
  | .shuttingDown message => optional "message" (message.map .string)

/-- The enum is tagged with its `type`. -/
def fields (message : ServerMessage) : List (String × Json) :=
  ("type", .string message.type) :: message.variantFields

def toJson (message : ServerMessage) : Json := .object message.fields

/-- The integers of the message are below `2 ^ 63` and its floats finite. -/
def plain : ServerMessage → Bool
  | .authOk _ _ nextSeq => small nextSeq
  | .event e => e.plain
  | .events es => es.all Event.plain
  | .cost entries => entries.all CostEntry.plain
  | .pairingCode _ expiresInSecs => small expiresInSecs
  | .pong nonce => small nonce
  | _ => true

theorem small_ofUInt32 (n : UInt32) : small n.toUInt64 = true := by
  have := n.toNat_lt
  simp [small]
  omega

theorem plain_fields {message : ServerMessage} (h : message.plain = true) :
    plainFields message.fields = true := by
  cases message with
  | hello harnessId protocolVersion =>
      simp [fields, variantFields, plainFields, small_ofUInt32 protocolVersion]
  | authOk clientId keyId nextSeq =>
      have hseq : small nextSeq = true := h
      cases keyId <;> simp [fields, variantFields, optional, plainFields, hseq]
  | event e => simp [fields, variantFields, plainFields, e.plain_fields h]
  | events es =>
      have hevents : plainItems (es.map fun e => .object e.fields) = true :=
        plainItems_map fun e hmem => e.plain_fields (List.all_eq_true.mp h e hmem)
      simp [fields, variantFields, plainFields, Codec.plain, hevents]
  | cost entries =>
      have hentries : plainItems (entries.map fun entry => .object entry.fields) = true :=
        plainItems_map fun entry hmem => entry.plain_fields (List.all_eq_true.mp h entry hmem)
      simp [fields, variantFields, plainFields, Codec.plain, hentries]
  | pairingCode code expiresInSecs =>
      have hsecs : small expiresInSecs = true := h
      simp [fields, variantFields, plainFields, hsecs]
  | pong nonce =>
      have hnonce : small nonce = true := h
      simp [fields, variantFields, plainFields, hnonce]
  | shuttingDown message => cases message <;> simp [fields, variantFields, optional, plainFields]
  | _ => simp [fields, variantFields, plainFields]

end ServerMessage

inductive AuthRequest
  | localToken (token : String)
  | pair (code publicKeyB64 clientName : String)
  | challenge (keyId : String)
  | signature (keyId signatureB64 : String)

inductive ClientMessage
  | authenticate (auth : AuthRequest)
  | prompt (text : String)
  | answerQuestion (questionId answer : String)
  | uploadFile (name contentB64 : String)
  | requestEvents (fromSeq : UInt64)
  | requestAccessReport
  | requestCost
  | requestPairingCode
  | interrupt
  | shutdown
  | ping (nonce : UInt64)

def field (fields : List (String × Json)) (key : String) : Option Json :=
  match fields.filter fun f => f.1 = key with
  | [f] => some f.2
  | _ => none

def stringField (fields : List (String × Json)) (key : String) : Option String :=
  (field fields key).bind Json.asStr

def u64Field (fields : List (String × Json)) (key : String) : Option UInt64 :=
  match field fields key with
  | some (.number (.posInt n)) => some n
  | _ => none

/-- A variant is picked by its tag, and fields that it does not have are ignored. -/
def AuthRequest.ofFields (fields : List (String × Json)) : Option AuthRequest := do
  match ← stringField fields "method" with
  | "local_token" => return .localToken (← stringField fields "token")
  | "pair" =>
    return .pair (← stringField fields "code") (← stringField fields "public_key_b64")
      (← stringField fields "client_name")
  | "challenge" => return .challenge (← stringField fields "key_id")
  | "signature" => return .signature (← stringField fields "key_id") (← stringField fields "signature_b64")
  | _ => none

/-- Reads a message from the fields of an object. -/
def ClientMessage.ofFields (fields : List (String × Json)) : Option ClientMessage := do
  match ← stringField fields "type" with
  | "authenticate" => return .authenticate (← AuthRequest.ofFields fields)
  | "prompt" => return .prompt (← stringField fields "text")
  | "answer_question" =>
    return .answerQuestion (← stringField fields "question_id") (← stringField fields "answer")
  | "upload_file" => return .uploadFile (← stringField fields "name") (← stringField fields "content_b64")
  | "request_events" => return .requestEvents (← u64Field fields "from_seq")
  | "request_access_report" => return .requestAccessReport
  | "request_cost" => return .requestCost
  | "request_pairing_code" => return .requestPairingCode
  | "interrupt" => return .interrupt
  | "shutdown" => return .shutdown
  | "ping" => return .ping (← u64Field fields "nonce")
  | _ => none

end Silo.Codec
