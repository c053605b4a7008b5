import Silo.Codec.App.Event

namespace Silo.Codec.App

open Dyn Fields

structure CostEntry where
  backend : String
  usage : UsageSnapshot
  quota : QuotaConfig

namespace CostEntry

def fromJson (json : Fields) : Option CostEntry := do
  let backend ← (json.get "backend").asString
  let usage ← (json.get "usage").asMap.bind UsageSnapshot.fromJson
  let quota ← (json.get "quota").asMap.bind QuotaConfig.fromJson
  return { backend, usage, quota }

def toJson (entry : CostEntry) : Fields :=
  [("backend", .string entry.backend), ("usage", .map entry.usage.toJson), ("quota", .map entry.quota.toJson)]

end CostEntry

inductive ServerMessage
  | hello (harnessId : String) (protocolVersion : Int64)
  | authChallenge (challengeB64 : String)
  | authOk (clientId : String) (keyId : Option String) (nextSeq : Int64)
  | authError (message : String)
  | event (event : Event)
  | events (events : List Event)
  | accessReport (report : AccessReport)
  | cost (entries : List CostEntry)
  | pairingCode (code : String) (expiresInSecs : Int64)
  | pong (nonce : Int64)
  | error (message : String)
  | shuttingDown (message : Option String)

namespace ServerMessage

def fromJson (json : Fields) : Option ServerMessage := do
  match ← orNull asString (json.get "type") with
  | some "hello" =>
    return .hello (← (json.get "harness_id").asString) (← (json.get "protocol_version").asInt)
  | some "auth_challenge" => return .authChallenge (← (json.get "challenge_b64").asString)
  | some "auth_ok" =>
    return .authOk (← (json.get "client_id").asString) (← orNull asString (json.get "key_id"))
      (← (json.get "next_seq").asInt)
  | some "auth_error" => return .authError (← (json.get "message").asString)
  | some "event" => return .event (← (json.get "event").asMap.bind Event.fromJson)
  | some "events" => return .events (← (json.get "events").asList.bind (eachMap Event.fromJson))
  | some "access_report" => return .accessReport (← (json.get "report").asMap.bind AccessReport.fromJson)
  | some "cost" => return .cost (← (json.get "entries").asList.bind (eachMap CostEntry.fromJson))
  | some "pairing_code" =>
    return .pairingCode (← (json.get "code").asString) (← (json.get "expires_in_secs").asInt)
  | some "pong" => return .pong (← (json.get "nonce").asInt)
  | some "error" => return .error (← (json.get "message").asString)
  | some "shutting_down" => return .shuttingDown (← orNull asString (json.get "message"))
  | _ => none

def toJson : ServerMessage → Fields
  | .hello harnessId protocolVersion =>
    [("type", .string "hello"), ("harness_id", .string harnessId), ("protocol_version", .int protocolVersion)]
  | .authChallenge challengeB64 =>
    [("type", .string "auth_challenge"), ("challenge_b64", .string challengeB64)]
  | .authOk clientId keyId nextSeq =>
    [("type", .string "auth_ok"), ("client_id", .string clientId)] ++ ifSome "key_id" (keyId.map .string) ++
      [("next_seq", .int nextSeq)]
  | .authError message => [("type", .string "auth_error"), ("message", .string message)]
  | .event e => [("type", .string "event"), ("event", .map e.toJson)]
  | .events es => [("type", .string "events"), ("events", .list (es.map fun e => .map e.toJson))]
  | .accessReport report => [("type", .string "access_report"), ("report", .map report.toJson)]
  | .cost entries =>
    [("type", .string "cost"), ("entries", .list (entries.map fun entry => .map entry.toJson))]
  | .pairingCode code expiresInSecs =>
    [("type", .string "pairing_code"), ("code", .string code), ("expires_in_secs", .int expiresInSecs)]
  | .pong nonce => [("type", .string "pong"), ("nonce", .int nonce)]
  | .error message => [("type", .string "error"), ("message", .string message)]
  | .shuttingDown message =>
    [("type", .string "shutting_down")] ++ ifSome "message" (message.map .string)

end ServerMessage

inductive AuthRequest
  | localToken (token : String)
  | pair (code publicKeyB64 clientName : String)
  | challenge (keyId : String)
  | signature (keyId signatureB64 : String)

def AuthRequest.toJson : AuthRequest → Fields
  | .localToken token => [("method", .string "local_token"), ("token", .string token)]
  | .pair code publicKeyB64 clientName =>
    [("method", .string "pair"), ("code", .string code), ("public_key_b64", .string publicKeyB64),
      ("client_name", .string clientName)]
  | .challenge keyId => [("method", .string "challenge"), ("key_id", .string keyId)]
  | .signature keyId signatureB64 =>
    [("method", .string "signature"), ("key_id", .string keyId), ("signature_b64", .string signatureB64)]

inductive ClientMessage
  | authenticate (auth : AuthRequest)
  | prompt (text : String)
  | answerQuestion (questionId answer : String)
  | uploadFile (name contentB64 : String)
  | requestEvents (fromSeq : Int64)
  | requestAccessReport
  | requestCost
  | requestPairingCode
  | interrupt
  | shutdown
  | ping (nonce : Int64)

namespace ClientMessage

def toJson : ClientMessage → Fields
  | .authenticate auth => spread [("type", .string "authenticate")] auth.toJson
  | .prompt text => [("type", .string "prompt"), ("text", .string text)]
  | .answerQuestion questionId answer =>
    [("type", .string "answer_question"), ("question_id", .string questionId), ("answer", .string answer)]
  | .uploadFile name contentB64 =>
    [("type", .string "upload_file"), ("name", .string name), ("content_b64", .string contentB64)]
  | .requestEvents fromSeq => [("type", .string "request_events"), ("from_seq", .int fromSeq)]
  | .requestAccessReport => [("type", .string "request_access_report")]
  | .requestCost => [("type", .string "request_cost")]
  | .requestPairingCode => [("type", .string "request_pairing_code")]
  | .interrupt => [("type", .string "interrupt")]
  | .shutdown => [("type", .string "shutdown")]
  | .ping nonce => [("type", .string "ping"), ("nonce", .int nonce)]

/-- No integer of the message is negative. -/
def nonnegative : ClientMessage → Bool
  | .requestEvents fromSeq => decide (0 ≤ fromSeq)
  | .ping nonce => decide (0 ≤ nonce)
  | _ => true

end ClientMessage

end Silo.Codec.App
