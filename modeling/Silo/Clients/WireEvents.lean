import Silo.Clients.EventStore
import Silo.Codec.Agreement
import Silo.Codec.App.EventStore
import Silo.Frontend.Interactive
import Silo.Tui.App

namespace Silo.Clients

open Silo.Lib Silo.Core Silo.Harness

-- The numbers that the names of agents on the wire stand for.
variable (agent : String → AgentId)

def originOfWire : Codec.FileOrigin → FileOrigin
  | .client clientId => .client clientId
  | .llm a => .llm (agent a)

/-- What the machines of the clients and of the frontend keep of a payload on the wire. They
have no part in two kinds. -/
def payloadOfWire : Codec.EventPayload → Option EventPayload
  | .harnessStarted .. | .accessReportUpdated _ => none
  | .userPrompt clientId clientName text => some (.userPrompt clientId clientName text)
  | .assistantText a text => some (.assistantText (agent a) text)
  | .toolUse a call => some (.toolUse (agent a) call)
  | .toolResult a toolUseId toolName output => some (.toolResult (agent a) toolUseId toolName output)
  | .agentSpawned parent a name prompt => some (.agentSpawned (agent parent) (agent a) name prompt)
  | .agentCompleted a result isError => some (.agentCompleted (agent a) result isError)
  | .questionAsked id a question => some (.questionAsked id (agent a) (.object question.fields))
  | .questionAnswered id clientId answer => some (.questionAnswered id clientId answer)
  | .fileShared name contentB64 origin => some (.fileShared name contentB64 (originOfWire agent origin))
  | .costReport backend _ _ => some (.costReport backend)
  | .turnComplete a stopReason => some (.turnComplete (agent a) stopReason)
  | .interrupted a => some (.interrupted (agent a))
  | .awaitingInput => some .awaitingInput
  | .error context message => some (.error context message)
  | .shutdown message => some (.shutdown message)

structure OnWire (wire : Codec.Event) (e : Event EventPayload) : Prop where
  seq : e.seq = wire.seq.toNat
  payload : payloadOfWire agent wire.payload = some e.payload

variable {agent} {wire : Codec.Event} {e : Event EventPayload}

variable (agent) in
theorem busyAfter_ofWire (payload : Codec.EventPayload) :
    Tui.busyAfter payload = (payloadOfWire agent payload).bind busyAfter := by
  cases payload <;> rfl

variable (agent) in
theorem busySignal_ofWire (payload : Codec.EventPayload) :
    Codec.App.EventStore.busySignal payload.toApp = (payloadOfWire agent payload).bind EventStore.busySignal := by
  cases payload <;> rfl

section Tui

structure Keeps (app : Silo.Tui.App) (kept : App) : Prop where
  lastSeq : kept.lastSeq = app.lastSeq.map UInt64.toNat
  busy : kept.busy = app.busy
  awaitingInput : kept.awaitingInput = app.awaitingInput

variable {app : Silo.Tui.App} {kept : App}

theorem keeps_new (addr fingerprint : String) (workspace : Option String) (debug : Bool) :
    Keeps (.new addr fingerprint workspace debug) .new := ⟨rfl, rfl, rfl⟩

theorem note_flags (payload : Codec.EventPayload) : (app.note payload).lastSeq = app.lastSeq ∧
    (app.note payload).busy = app.busy ∧
    (app.note payload).awaitingInput = (match payload with
      | .awaitingInput => true
      | .userPrompt .. => false
      | _ => app.awaitingInput) := by
  cases payload with
  | agentSpawned parent a name prompt => cases name <;> exact ⟨rfl, rfl, rfl⟩
  | questionAnswered id clientId answer =>
      rw [Silo.Tui.App.note]
      split <;> exact ⟨rfl, rfl, rfl⟩
  | _ => exact ⟨rfl, rfl, rfl⟩

theorem Keeps.applyEvent (h : Keeps app kept) (he : OnWire agent wire e) (outside : Silo.Tui.Outside) :
    Keeps (app.applyEvent outside wire) (kept.applyEvent e) := by
  have hskip : (kept.lastSeq.any fun last => decide (e.seq ≤ last)) =
      app.lastSeq.any fun last => decide (wire.seq ≤ last) := by
    rw [h.lastSeq, he.seq]
    cases app.lastSeq <;> simp [UInt64.le_iff_toNat_le]
  have hbusy : busyAfter e.payload = Silo.Tui.busyAfter wire.payload := by
    rw [busyAfter_ofWire agent, he.payload, Option.bind_some]
  rw [App.applyEvent, Silo.Tui.App.applyEvent, hskip]
  split
  · exact h
  · constructor
    · simp [note_flags, he.seq]
    · simp [note_flags, hbusy, h.busy]
    · simp only [note_flags, h.awaitingInput]
      have hpayload := he.payload
      generalize e.payload = payload at hpayload
      cases hwire : wire.payload <;> rw [hwire] at hpayload <;> cases hpayload <;> rfl

theorem Keeps.applyEvents {wires : List Codec.Event} {es : List (Event EventPayload)} (h : Keeps app kept)
    (hes : List.Forall₂ (OnWire agent) wires es) (outside : Silo.Tui.Outside) :
    Keeps (app.handleServer outside (.events wires)) (kept.handleServer (.events es)) := by
  rw [Silo.Tui.App.handleServer, App.handleServer, ServerFrame.all]
  induction hes generalizing app kept with
  | nil => exact h
  | cons he _ ih => exact ih (h.applyEvent he outside)

end Tui

section App

structure Stores (store : Codec.App.EventStore) (kept : EventStore) : Prop where
  keys : ∀ seq, store.entries.containsKey seq = kept.containsKey seq
  busySeq : store.busySeq = kept.busySeq.elim (-1) Int.ofNat
  busy : store.busy = kept.busy

variable (agent) in
structure Read (r : Codec.App.Received) (e : Event EventPayload) : Prop where
  seq : r.seq = e.seq
  payload : ∃ payload : Codec.EventPayload, r.payload = payload.toApp ∧ payloadOfWire agent payload = some e.payload

variable {store : Codec.App.EventStore} {kept : EventStore} {r : Codec.App.Received}

theorem stores_empty : Stores .empty .empty := ⟨fun _ => rfl, rfl, rfl⟩

theorem Read.busySignal (he : Read agent r e) :
    Codec.App.EventStore.busySignal r.payload = EventStore.busySignal e.payload := by
  obtain ⟨payload, hr, hpayload⟩ := he.payload
  rw [hr, busySignal_ofWire agent, hpayload, Option.bind_some]

theorem Stores.keep (h : Stores store kept) (he : Read agent r e) :
    Stores (store.keep r) ({ kept with entries := kept.entries ++ [e] }.trackBusy e) := by
  have hkeys (seq : Nat) : (store.entries.put r).containsKey seq =
      EventStore.containsKey { kept with entries := kept.entries ++ [e] } seq := by
    rw [KeyedMap.containsKey_put, h.keys, EventStore.containsKey, EventStore.containsKey, List.any_append, he.seq]
    simp
  rw [Codec.App.EventStore.keep, Codec.App.EventStore.trackBusy, EventStore.trackBusy, he.busySignal]
  cases EventStore.busySignal e.payload with
  | none => exact ⟨hkeys, h.busySeq, h.busy⟩
  | some signal =>
      have hlater : store.busySeq < r.seq ↔ (kept.busySeq.all fun seq => decide (seq < e.seq)) = true := by
        rw [h.busySeq, he.seq]
        cases kept.busySeq <;> simp
        omega
      simp only [hlater]
      split
      · exact ⟨hkeys, by simp [he.seq], rfl⟩
      · exact ⟨hkeys, h.busySeq, h.busy⟩

theorem Stores.insert (h : Stores store kept) (he : Read agent r e) : Stores (store.insert r).1 (kept.insert e) := by
  rw [Codec.App.EventStore.insert, EventStore.insert, h.keys, he.seq]
  split
  · exact h
  · exact ⟨(h.keep he).keys, (h.keep he).busySeq, (h.keep he).busy⟩

theorem Stores.insertAll {batch : List Codec.App.Received} {es : List (Event EventPayload)} (h : Stores store kept)
    (hes : List.Forall₂ (Read agent) batch es) : Stores (store.insertAll batch).1 (kept.insertAll es) := by
  have hfold {n : Nat} : Stores (batch.foldl Codec.App.EventStore.insertNext (store, n)).1 (kept.insertAll es) := by
    induction hes generalizing store kept n with
    | nil => exact h
    | @cons r e batch es he _ ih =>
        rw [List.foldl_cons, EventStore.insertAll, List.foldl_cons, Codec.App.EventStore.insertNext, EventStore.insert,
          h.keys, he.seq]
        split
        · exact ih h
        · exact ih (h.keep he)
  rw [Codec.App.EventStore.insertAll]
  split
  · exact ⟨hfold.keys, hfold.busySeq, hfold.busy⟩
  · exact hfold

theorem Stores.nextSeq (h : Stores store kept) : store.nextSeq = kept.nextSeq := by
  have hhas (seq : Nat) : kept.Has seq ↔ ∃ r ∈ store.entries.entries, r.seq = seq := by
    rw [EventStore.Has, ← h.keys, KeyedMap.containsKey_iff]
  rw [Codec.App.EventStore.nextSeq]
  cases hlast : store.entries.lastKey with
  | none =>
      obtain hnone : store.entries.entries = [] := by simpa [KeyedMap.lastKey] using hlast
      by_contra hne
      obtain ⟨top, -, htop⟩ := EventStore.has_top (Nat.pos_of_ne_zero (Ne.symm hne))
      obtain ⟨r, hr, -⟩ := (hhas top).mp htop
      rw [hnone] at hr
      cases hr
  | some last =>
      have hle := store.entries.le_lastKey hlast
      obtain ⟨r, hr, rfl⟩ := Option.map_eq_some_iff.mp hlast
      apply Nat.le_antisymm
      · exact ((hhas r.seq).mpr ⟨r, List.mem_of_getLast? hr, rfl⟩).lt
      · by_contra hlt
        obtain ⟨top, hge, htop⟩ := EventStore.has_top (Nat.lt_of_not_le hlt)
        obtain ⟨other, hother, rfl⟩ := (hhas top).mp htop
        exact absurd (hle other hother) (Nat.not_le_of_lt hge)

end App

section Messages

open Silo.Frontend (AuthRequest ClientMessage)

def authOfWire : Codec.AuthRequest → AuthRequest
  | .localToken token => .localToken token
  | .pair code publicKeyB64 clientName => .pair code publicKeyB64 clientName
  | .challenge keyId => .challenge keyId
  | .signature keyId signatureB64 => .signature keyId signatureB64

def messageOfWire : Codec.ClientMessage → ClientMessage
  | .authenticate auth => .authenticate (authOfWire auth)
  | .prompt text => .prompt text
  | .answerQuestion questionId answer => .answerQuestion questionId answer
  | .uploadFile name contentB64 => .uploadFile name contentB64
  | .requestEvents fromSeq => .requestEvents fromSeq.toNat
  | .requestAccessReport => .requestAccessReport
  | .requestCost => .requestCost
  | .requestPairingCode => .requestPairingCode
  | .interrupt => .interrupt
  | .shutdown => .shutdown
  | .ping nonce => .ping nonce.toNat

def fits : ClientMessage → Prop
  | .requestEvents fromSeq => fromSeq < 2 ^ 64
  | .ping nonce => nonce < 2 ^ 64
  | _ => True

/-- Whatever the machine handles is read from the fields of some object. -/
theorem exists_ofFields {message : ClientMessage} (h : fits message) :
    ∃ fields wire, Codec.ClientMessage.ofFields fields = some wire ∧ messageOfWire wire = message := by
  cases message with
  | authenticate auth =>
      cases auth with
      | localToken token =>
          exact ⟨[("type", .string "authenticate"), ("method", .string "local_token"), ("token", .string token)],
            .authenticate (.localToken token), rfl, rfl⟩
      | pair code publicKeyB64 clientName =>
          exact ⟨[("type", .string "authenticate"), ("method", .string "pair"), ("code", .string code),
            ("public_key_b64", .string publicKeyB64), ("client_name", .string clientName)],
            .authenticate (.pair code publicKeyB64 clientName), rfl, rfl⟩
      | challenge keyId =>
          exact ⟨[("type", .string "authenticate"), ("method", .string "challenge"), ("key_id", .string keyId)],
            .authenticate (.challenge keyId), rfl, rfl⟩
      | signature keyId signatureB64 =>
          exact ⟨[("type", .string "authenticate"), ("method", .string "signature"), ("key_id", .string keyId),
            ("signature_b64", .string signatureB64)], .authenticate (.signature keyId signatureB64), rfl, rfl⟩
  | prompt text => exact ⟨[("type", .string "prompt"), ("text", .string text)], .prompt text, rfl, rfl⟩
  | answerQuestion questionId answer =>
      exact ⟨[("type", .string "answer_question"), ("question_id", .string questionId), ("answer", .string answer)],
        .answerQuestion questionId answer, rfl, rfl⟩
  | uploadFile name contentB64 =>
      exact ⟨[("type", .string "upload_file"), ("name", .string name), ("content_b64", .string contentB64)],
        .uploadFile name contentB64, rfl, rfl⟩
  | requestEvents fromSeq =>
      refine ⟨[("type", .string "request_events"), ("from_seq", Codec.u64 (.ofNat fromSeq))],
        .requestEvents (.ofNat fromSeq), rfl, ?_⟩
      rw [messageOfWire, UInt64.toNat_ofNat_of_lt' h]
  | requestAccessReport => exact ⟨[("type", .string "request_access_report")], .requestAccessReport, rfl, rfl⟩
  | requestCost => exact ⟨[("type", .string "request_cost")], .requestCost, rfl, rfl⟩
  | requestPairingCode => exact ⟨[("type", .string "request_pairing_code")], .requestPairingCode, rfl, rfl⟩
  | interrupt => exact ⟨[("type", .string "interrupt")], .interrupt, rfl, rfl⟩
  | shutdown => exact ⟨[("type", .string "shutdown")], .shutdown, rfl, rfl⟩
  | ping nonce =>
      refine ⟨[("type", .string "ping"), ("nonce", Codec.u64 (.ofNat nonce))], .ping (.ofNat nonce), rfl, ?_⟩
      rw [messageOfWire, UInt64.toNat_ofNat_of_lt' h]

end Messages

end Silo.Clients
