import Silo.Codec.Agreement

namespace Silo.Codec

open Silo.Core (Json Number)
open Silo.Core.Json (lookup)

namespace App

def AuthRequest.denote : AuthRequest → Codec.AuthRequest
  | .localToken token => .localToken token
  | .pair code publicKeyB64 clientName => .pair code publicKeyB64 clientName
  | .challenge keyId => .challenge keyId
  | .signature keyId signatureB64 => .signature keyId signatureB64

/-- The message of the harness with the same contents. -/
def ClientMessage.denote : ClientMessage → Codec.ClientMessage
  | .authenticate auth => .authenticate auth.denote
  | .prompt text => .prompt text
  | .answerQuestion questionId answer => .answerQuestion questionId answer
  | .uploadFile name contentB64 => .uploadFile name contentB64
  | .requestEvents fromSeq => .requestEvents fromSeq.toUInt64
  | .requestAccessReport => .requestAccessReport
  | .requestCost => .requestCost
  | .requestPairingCode => .requestPairingCode
  | .interrupt => .interrupt
  | .shutdown => .shutdown
  | .ping nonce => .ping nonce.toUInt64

theorem encodeInt_of_nonneg {n : Int64} (h : 0 ≤ n) : encodeInt n = .posInt n.toUInt64 := by
  simp [encodeInt, h]

theorem ClientMessage.accepted {message : ClientMessage} (h : message.nonnegative = true) :
    ∃ fields, encodeFields message.toJson = some fields ∧
      Codec.ClientMessage.ofFields fields = some message.denote := by
  cases message with
  | authenticate auth => cases auth <;> exact ⟨_, rfl, rfl⟩
  | requestEvents fromSeq =>
      have hseq : 0 ≤ fromSeq := by simpa [nonnegative] using h
      refine ⟨[("type", .string "request_events"), ("from_seq", .number (encodeInt fromSeq))], rfl, ?_⟩
      rw [encodeInt_of_nonneg hseq]
      rfl
  | ping nonce =>
      have hnonce : 0 ≤ nonce := by simpa [nonnegative] using h
      refine ⟨[("type", .string "ping"), ("nonce", .number (encodeInt nonce))], rfl, ?_⟩
      rw [encodeInt_of_nonneg hnonce]
      rfl
  | _ => exact ⟨_, rfl, rfl⟩

end App

theorem get_decodeFields (fields : List (String × Json)) (key : String) :
    (decodeFields fields).get key = ((lookup fields key).map decode).getD .null := by
  induction fields with
  | nil => rfl
  | cons f rest ih =>
      by_cases hk : f.1 = key
      · rw [decodeFields_cons, Fields.get_cons, if_pos hk]
        simp [lookup, hk]
      · rw [decodeFields_cons, Fields.get_cons, if_neg hk, ih]
        simp [lookup, hk]

theorem plainFields_iff {fields : List (String × Json)} :
    plainFields fields = true ↔ (fields.map Prod.fst).Nodup ∧ ∀ f ∈ fields, plain f.2 = true := by
  induction fields with
  | nil => simp [plainFields]
  | cons f rest ih =>
      rw [plainFields_cons, ih, List.map_cons, List.nodup_cons, List.forall_mem_cons]
      have hnew : (∀ g ∈ rest, g.1 ≠ f.1) ↔ f.1 ∉ rest.map Prod.fst := by simp; grind
      rw [hnew]
      tauto

theorem perm_of_lookup {fields : List (String × Json)} {key : String} {value : Json}
    (hkeys : (fields.map Prod.fst).Nodup) (h : lookup fields key = some value) :
    ((key, value) :: fields.filter fun f => f.1 ≠ key).Perm fields := by
  induction fields with
  | nil => cases h
  | cons f rest ih =>
      rw [List.map_cons, List.nodup_cons] at hkeys
      by_cases hk : f.1 = key
      · have hrest : (rest.filter fun g => g.1 ≠ key) = rest := by
          rw [List.filter_eq_self]
          intro g hg
          have hne : g.1 ≠ key := fun heq => hkeys.1 (List.mem_map.mpr ⟨g, hg, heq.trans hk.symm⟩)
          simpa using hne
        have hvalue : f = (key, value) := by
          have : f.2 = value := by simpa [lookup, hk] using h
          exact Prod.ext hk this
        rw [List.filter_cons_of_neg (by simpa using hk), hrest, hvalue]
      · rw [List.filter_cons_of_pos (by simpa using hk)]
        have hlook : lookup rest key = some value := by simpa [lookup, hk] using h
        exact (List.Perm.swap _ _ _).trans ((ih hkeys.2 hlook).cons f)

theorem lookup_filter {fields : List (String × Json)} {key other : String} (hne : key ≠ other) :
    lookup (fields.filter fun f => f.1 ≠ other) key = lookup fields key := by
  induction fields with
  | nil => rfl
  | cons f rest ih =>
      by_cases hk : f.1 = other
      · rw [List.filter_cons_of_neg (by simpa using hk), ih]
        simp [lookup, hk, Ne.symm hne]
      · rw [List.filter_cons_of_pos (by simpa using hk)]
        by_cases hf : f.1 = key
        · simp [lookup, hf]
        · simp only [lookup] at ih
          simp only [lookup, List.find?_cons, hf, decide_false, ih]

def fronted (seq : UInt64) (time : Timestamp) (fields : List (String × Json)) : List (String × Json) :=
  ("seq", u64 seq) :: ("time", .object time.fields) :: fields.filter fun f => f.1 ≠ "seq" ∧ f.1 ≠ "time"

theorem fronted_perm {seq : UInt64} {time : Timestamp} {fields : List (String × Json)}
    (hkeys : (fields.map Prod.fst).Nodup) (hseq : lookup fields "seq" = some (u64 seq))
    (htime : lookup fields "time" = some (.object time.fields)) : (fronted seq time fields).Perm fields := by
  have hfirst := perm_of_lookup hkeys hseq
  have hrest : ((fields.filter fun f => f.1 ≠ "seq").map Prod.fst).Nodup :=
    hkeys.sublist (List.filter_sublist.map Prod.fst)
  have hsecond := perm_of_lookup hrest ((lookup_filter (by decide)).trans htime)
  rw [List.filter_filter] at hsecond
  refine List.Perm.trans ?_ hfirst
  apply List.Perm.cons _
  refine List.Perm.trans (List.Perm.cons _ (List.Perm.of_eq ?_)) hsecond
  apply List.filter_congr
  intro f _
  simp [Bool.and_comm]

theorem unknown_event {fields : List (String × Json)} {seq : UInt64} {time : Timestamp} {kind : String}
    (hplain : plainFields fields = true) (hseq : lookup fields "seq" = some (u64 seq))
    (htime : lookup fields "time" = some (.object time.fields))
    (hkind : lookup fields "kind" = some (.string kind)) (hnew : kind ∉ App.kinds)
    (hsmall : small seq = true) (hsmallTime : time.plain = true) :
    ∃ event, App.Event.fromJson (decodeFields fields) = some event ∧
      event.toJson = decodeFields (fronted seq time fields) := by
  have hraw : ((decodeFields fields).filter fun f => f.1 ≠ "seq" ∧ f.1 ≠ "time") =
      decodeFields (fields.filter fun f => f.1 ≠ "seq" ∧ f.1 ≠ "time") := by
    rw [decodeFields_eq, decodeFields_eq, List.filter_map]
    rfl
  have hpayload := App.EventPayload.fromJson_unknown
    (show (decodeFields fields).get "kind" = .string kind by simp [get_decodeFields, hkind]) hnew
  rw [hraw] at hpayload
  refine ⟨⟨seq.toInt64, time.toApp,
    .unknown (decodeFields (fields.filter fun f => f.1 ≠ "seq" ∧ f.1 ≠ "time"))⟩, ?_, ?_⟩
  · simp [App.Event.fromJson, get_decodeFields, hseq, htime, decode_u64 hsmall, Dyn.asInt,
      asMap_object (time.plain_fields hsmallTime), time.read hsmallTime, hpayload]
  · have hkeys : ((decodeFields (fronted seq time fields)).map Prod.fst).Nodup := by
      have hperm := fronted_perm (plainFields_iff.mp hplain).1 hseq htime
      rw [decodeFields_eq, List.map_map]
      exact (hperm.map Prod.fst).nodup_iff.mpr (plainFields_iff.mp hplain).1
    have hfields : decodeFields (fronted seq time fields) =
        [("seq", Dyn.int seq.toInt64), ("time", Dyn.map time.toApp.toJson)] ++
          decodeFields (fields.filter fun f => f.1 ≠ "seq" ∧ f.1 ≠ "time") := by
      simp [fronted, decode_u64 hsmall, decode_object (time.plain_fields hsmallTime), time.write hsmallTime]
    rw [hfields] at hkeys
    rw [hfields]
    exact Fields.spread_of_nodup hkeys

/-- The two codecs agree: the app reads and writes back what the harness sends, the
harness reads what the app sends, and an event that is unknown to the app keeps its
fields. -/
theorem codecs_agree :
    (∀ message : ServerMessage, message.plain = true →
      ∃ value, (decode message.toJson).asMap.bind App.ServerMessage.fromJson = some value ∧
        encode (.map value.toJson) = some message.toJson) ∧
    (∀ message : App.ClientMessage, message.nonnegative = true →
      ∃ fields, encode (.map message.toJson) = some (.object fields) ∧
        ClientMessage.ofFields fields = some message.denote) ∧
    (∀ (fields : List (String × Json)) (seq : UInt64) (time : Timestamp) (kind : String),
      plainFields fields = true → lookup fields "seq" = some (u64 seq) →
      lookup fields "time" = some (.object time.fields) → time.plain = true →
      lookup fields "kind" = some (.string kind) → kind ∉ App.kinds →
      ∃ event written, (decode (.object fields)).asMap.bind App.Event.fromJson = some event ∧
        encode (.map event.toJson) = some (.object written) ∧ written.Perm fields) := by
  refine ⟨?_, ?_, ?_⟩
  · intro message h
    have hplain := message.plain_fields h
    refine ⟨message.toApp, ?_, ?_⟩
    · rw [ServerMessage.toJson, asMap_object hplain, Option.bind_some, message.read h]
    · rw [message.write h, encode, encodeFields_decode hplain]
      rfl
  · intro message h
    obtain ⟨fields, hwrite, hread⟩ := message.accepted h
    refine ⟨fields, ?_, hread⟩
    rw [encode, hwrite]
    rfl
  · intro fields seq time kind hplain hseq htime hsmallTime hkind hnew
    have hvalues := (plainFields_iff.mp hplain).2
    have hsmall : small seq = true := hvalues _ (Json.key_of_lookup hseq)
    have hperm := fronted_perm (plainFields_iff.mp hplain).1 hseq htime
    have hfronted : plainFields (fronted seq time fields) = true := by
      rw [plainFields_iff]
      refine ⟨(hperm.map Prod.fst).nodup_iff.mpr (plainFields_iff.mp hplain).1, ?_⟩
      intro f hf
      exact hvalues f (hperm.mem_iff.mp hf)
    obtain ⟨event, hread, hwrite⟩ := unknown_event hplain hseq htime hkind hnew hsmall hsmallTime
    refine ⟨event, fronted seq time fields, ?_, ?_, hperm⟩
    · rw [asMap_object hplain, Option.bind_some, hread]
    · rw [hwrite, encode, encodeFields_decode hfronted]
      rfl

def farewell : List (String × Json) :=
  [("kind", .string "farewell"), ("seq", u64 7), ("time", .object (Timestamp.fields ⟨3, none⟩)),
    ("tone", .string "warm")]

theorem codecs_agree_examples :
    (∃ value, (decode (ServerMessage.pong 5).toJson).asMap.bind App.ServerMessage.fromJson = some value ∧
      encode (.map value.toJson) = some (ServerMessage.pong 5).toJson) ∧
    (∃ fields, encode (.map (App.ClientMessage.ping 5).toJson) = some (.object fields) ∧
      ClientMessage.ofFields fields = some (.ping 5)) ∧
    ∃ event written, (decode (.object farewell)).asMap.bind App.Event.fromJson = some event ∧
      encode (.map event.toJson) = some (.object written) ∧ written.Perm farewell :=
  ⟨codecs_agree.1 (.pong 5) (by decide), codecs_agree.2.1 (.ping 5) (by decide),
    codecs_agree.2.2 farewell 7 ⟨3, none⟩ "farewell" (by decide) rfl rfl (by decide) rfl (by decide)⟩

end Silo.Codec
