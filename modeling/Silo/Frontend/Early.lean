import Silo.Frontend.Tasks

namespace Silo.Frontend

open Silo.Core Silo.Harness

/-- The connection has not reached the message phase, or is past it. -/
def Phase.early : Phase → Bool
  | .ready _ | .emitting _ _ _ | .answering _ _ _ _ | .resolved _ _ _ | .commanding _ _ => false
  | _ => true

/-- The task is in the middle of a message. -/
def Phase.busy : Phase → Bool
  | .emitting _ _ _ | .answering _ _ _ _ | .resolved _ _ _ | .commanding _ _ => true
  | _ => false

namespace State

variable {cfg : Config} {s t u : State} {c d : Nat}

/-- The step touches its own connection, the key registry and the outstanding
pairing codes, and nothing else. -/
structure OwnConn (c : Nat) (s t : State) : Prop where
  bus : t.bus = s.bus
  commands : t.commands = s.commands
  questions : t.questions = s.questions
  calls : t.calls = s.calls
  asked : t.asked = s.asked
  interrupts : t.interrupts = s.interrupts
  interrupted : t.interrupted = s.interrupted
  prompts : t.prompts = s.prompts
  taken : t.taken = s.taken
  accepted : t.accepted = s.accepted
  shutdown : t.shutdown = s.shutdown
  now : t.now = s.now
  minted : t.pairing.minted = s.pairing.minted
  others : ∀ d, d ≠ c → t.conns d = s.conns d

theorem OwnConn.refl (s : State) : OwnConn c s s := by
  constructor <;> first | rfl | exact fun _ _ => rfl

theorem OwnConn.trans (h : OwnConn c s t) (h' : OwnConn c t u) : OwnConn c s u where
  bus := h'.bus.trans h.bus
  commands := h'.commands.trans h.commands
  questions := h'.questions.trans h.questions
  calls := h'.calls.trans h.calls
  asked := h'.asked.trans h.asked
  interrupts := h'.interrupts.trans h.interrupts
  interrupted := h'.interrupted.trans h.interrupted
  prompts := h'.prompts.trans h.prompts
  taken := h'.taken.trans h.taken
  accepted := h'.accepted.trans h.accepted
  shutdown := h'.shutdown.trans h.shutdown
  now := h'.now.trans h.now
  minted := h'.minted.trans h.minted
  others d hd := (h'.others d hd).trans (h.others d hd)

theorem ownConn_setConn (conn : Conn) : OwnConn c s (s.setConn c conn) := by
  constructor <;> first | rfl | skip
  intro d hd
  simp [setConn, hd]

theorem ownConn_goto (phase : Phase) : OwnConn c s (s.goto c phase) := ownConn_setConn _

theorem ownConn_say (message : ServerMessage) : OwnConn c s (s.say c message) := ownConn_setConn _

theorem ownConn_deny (message : String) : OwnConn c s (s.deny c message) := (ownConn_say _).trans (ownConn_goto _)

theorem ownConn_tables (keys : AuthorizedKeys) (codes : List (String × Mint)) (redeemed : List Redemption) :
    OwnConn c s { s with keys := keys, pairing := { s.pairing with codes := codes }, redeemed := redeemed } := by
  constructor <;> first | rfl | exact fun _ _ => rfl

@[simp] theorem setConn_conns (conn : Conn) : (s.setConn c conn).conns c = conn := by simp [setConn]

@[simp] theorem goto_phase (phase : Phase) : ((s.goto c phase).conns c).phase = phase := by simp [goto]

@[simp] theorem say_phase (message : ServerMessage) :
    ((s.say c message).conns c).phase = (s.conns c).phase := by simp [say]

@[simp] theorem deny_phase (message : String) : ((s.deny c message).conns c).phase = .closed := by simp [deny]

theorem ownConn_authenticate (pending : Option (String × Bytes32)) (draw : Draw) (auth : AuthRequest) :
    OwnConn c s (s.authenticate cfg c pending draw auth) := by
  cases auth with
  | localToken token =>
      simp only [authenticate]
      split
      · exact ownConn_goto _
      · exact ownConn_deny _
  | pair code publicKeyB64 clientName =>
      simp only [authenticate, PairingCodes.redeemAt]
      split
      · next heq =>
          obtain ⟨-, rfl⟩ := Prod.mk.inj heq
          exact (ownConn_tables s.keys _ s.redeemed).trans (ownConn_deny _)
      · next heq =>
          obtain ⟨-, rfl⟩ := Prod.mk.inj heq
          split
          · exact (ownConn_tables s.keys _ _).trans (ownConn_deny _)
          · exact (ownConn_tables s.keys _ _).trans (ownConn_goto _)
  | challenge keyId =>
      simp only [authenticate]
      split
      · exact ownConn_deny _
      · exact (ownConn_setConn _).trans (ownConn_say _)
  | signature keyId signatureB64 =>
      simp only [authenticate]
      split
      · exact ownConn_deny _
      · split
        · exact ownConn_deny _
        · split
          · exact ownConn_deny _
          · split
            · exact ownConn_goto _
            · exact ownConn_deny _

theorem early_authenticate (pending : Option (String × Bytes32)) (draw : Draw) (auth : AuthRequest) :
    ((s.authenticate cfg c pending draw auth).conns c).phase.early = true := by
  cases auth with
  | localToken token =>
      simp only [authenticate]
      split <;> simp [Phase.early]
  | pair code publicKeyB64 clientName =>
      simp only [authenticate]
      split
      · simp [Phase.early]
      · split <;> simp [Phase.early]
  | challenge keyId =>
      simp only [authenticate]
      split <;> simp [Phase.early]
  | signature keyId signatureB64 =>
      simp only [authenticate]
      split
      · simp [Phase.early]
      · split
        · simp [Phase.early]
        · split
          · simp [Phase.early]
          · split <;> simp [Phase.early]

theorem ownConn_authFrame (pending : Option (String × Bytes32)) (draw : Draw) (frame : Frame) :
    OwnConn c s (s.authFrame cfg c pending draw frame) := by
  cases frame with
  | text message =>
      cases message with
      | none => exact ownConn_deny _
      | some message =>
          cases message with
          | authenticate auth => exact (ownConn_setConn _).trans (ownConn_authenticate ..)
          | _ => exact ownConn_deny _
  | close => exact ownConn_goto _
  | other => exact OwnConn.refl s

theorem early_authFrame (h : (s.conns c).phase.early = true) (pending : Option (String × Bytes32))
    (draw : Draw) (frame : Frame) : ((s.authFrame cfg c pending draw frame).conns c).phase.early = true := by
  cases frame with
  | text message =>
      cases message with
      | none => simp [authFrame, Phase.early]
      | some message =>
          cases message with
          | authenticate auth => exact early_authenticate ..
          | _ => simp [authFrame, Phase.early]
  | close => simp [authFrame, Phase.early]
  | other => exact h

theorem busy_of_early {phase : Phase} (h : phase.early = true) : phase.busy = false := by
  cases phase <;> first | rfl | cases h

theorem ownConn_connStep {act : ConnAct} (h : (s.conns c).phase.early = true)
    (hn : s.connStep cfg c act = some t) : OwnConn c s t ∧ (t.conns c).phase.busy = false := by
  simp only [connStep] at hn
  split at hn
  · split at hn
    · cases hn
    · cases hn
      exact ⟨ownConn_goto _, by simp [Phase.busy]⟩
  · cases hn
    refine ⟨(ownConn_say _).trans (ownConn_goto _), ?_⟩
    rw [goto_phase]
    split <;> rfl
  · cases hn
    exact ⟨ownConn_authFrame .., busy_of_early (early_authFrame h ..)⟩
  · cases hn
    exact ⟨ownConn_deny _, by simp [Phase.busy]⟩
  · split at hn
    · cases hn
    · split at hn
      · cases hn
        exact ⟨(ownConn_tables _ s.pairing.codes s.redeemed).trans (ownConn_goto _), by simp [Phase.busy]⟩
      · cases hn
        exact ⟨(ownConn_tables _ s.pairing.codes s.redeemed).trans (ownConn_deny _), by simp [Phase.busy]⟩
  · cases hn
    exact ⟨ownConn_goto _, by simp [Phase.busy]⟩
  · cases hn
    refine ⟨(ownConn_say _).trans (ownConn_goto _), ?_⟩
    rw [goto_phase]
    split <;> rfl
  · next heq => simp [heq, Phase.early] at h
  · next heq => simp [heq, Phase.early] at h
  · next heq => simp [heq, Phase.early] at h
  · next heq => simp [heq, Phase.early] at h
  · next heq => simp [heq, Phase.early] at h
  · split at hn
    · cases hn
      exact ⟨ownConn_goto _, by simp [Phase.busy]⟩
    · cases hn
  · cases hn

inductive ConnEffect (s : State) (c : Nat) : ConnAct → State → Prop
  | early {act : ConnAct} {t : State} (h : (s.conns c).phase.early = true) (hownConn : OwnConn c s t)
      (hbusy : (t.conns c).phase.busy = false) : ConnEffect s c act t
  | message (client : Client) (draw : Draw) (message : ClientMessage)
      (h : (s.conns c).phase = .ready client) :
      ConnEffect s c (.frame (.text (some message)) draw) (s.handleMessage c client draw message)
  | unrecognized (client : Client) (draw : Draw) (h : (s.conns c).phase = .ready client) :
      ConnEffect s c (.frame (.text none) draw) (s.say c (.error "unrecognized message"))
  | ignored (client : Client) (draw : Draw) (h : (s.conns c).phase = .ready client) :
      ConnEffect s c (.frame .other draw) s
  | close {act : ConnAct}
      (h : (∃ client, (s.conns c).phase = .ready client) ∨
        ∃ client command, (s.conns c).phase = .commanding client command) :
      ConnEffect s c act (s.goto c .closed)
  | send (client : Client) (id : String) (question : Nat) (answer : String)
      (h : (s.conns c).phase = .answering client id question answer)
      (hlive : (s.calls question).listening = true) :
      ConnEffect s c .send ({ s.setSlot question (.sent (.answered answer)) with
        accepted := s.accepted ++ [Accepted.mk question client.id answer] }.goto c (.resolved client id answer))
  | lost (client : Client) (id : String) (question : Nat) (answer : String)
      (h : (s.conns c).phase = .answering client id question answer)
      (hgone : (s.calls question).listening = false) : ConnEffect s c .send (s.goto c (.ready client))
  | emitAnswer (client : Client) (id answer : String) (time : Timestamp)
      (h : (s.conns c).phase = .resolved client id answer) :
      ConnEffect s c (.emitAnswer time)
        (s.connEmit c client time (.questionAnswered id (some client.id) answer) none)
  | resume (client : Client) (seq : Nat) (text : Option String)
      (h : (s.conns c).phase = .emitting client seq text) (hf : s.inFlight seq = false) :
      ConnEffect s c .resume ({ s with prompts := s.prompts ++ text.toList }.goto c (.ready client))
  | command (client : Client) (command : FrontendCommand) (delivered : Bool)
      (h : (s.conns c).phase = .commanding client command) :
      ConnEffect s c (.command delivered)
        ({ s with commands := if delivered then s.commands ++ [command] else s.commands }.goto c (.ready client))

theorem connStep_effect {act : ConnAct} (hn : s.connStep cfg c act = some t) : ConnEffect s c act t := by
  cases he : (s.conns c).phase.early with
  | true =>
      obtain ⟨hownConn, hbusy⟩ := ownConn_connStep he hn
      exact .early he hownConn hbusy
  | false =>
      simp only [connStep] at hn
      split at hn
      all_goals try (next heq => simp [heq, Phase.early] at he; done)
      · next frame draw client heq =>
          cases hn
          cases frame with
          | text message =>
              cases message with
              | none => exact .unrecognized client draw heq
              | some message => exact .message client draw message heq
          | close => exact .close (.inl ⟨client, heq⟩)
          | other => exact .ignored client draw heq
      · next client id question answer heq =>
          split at hn
          · next hlive =>
              cases hn
              exact .send client id question answer heq hlive
          · next hgone =>
              cases hn
              exact .lost client id question answer heq (by simpa using hgone)
      · next time client id answer heq =>
          cases hn
          exact .emitAnswer client id answer time heq
      · next client seq text heq =>
          split at hn
          · cases hn
          · next hf =>
              cases hn
              exact .resume client seq text heq (by simpa using hf)
      · next delivered client command heq =>
          cases hn
          exact .command client command delivered heq
      · split at hn
        · next hawaits =>
            cases hn
            apply ConnEffect.close
            cases hphase : (s.conns c).phase with
            | ready client => exact .inl ⟨client, rfl⟩
            | commanding client command => exact .inr ⟨client, command, rfl⟩
            | _ => simp_all [Phase.awaits, Phase.early]
        · cases hn
      · cases hn

end State

end Silo.Frontend
