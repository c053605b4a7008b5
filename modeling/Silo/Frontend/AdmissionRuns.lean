import Silo.Frontend.Admission

namespace Silo.Frontend

open Silo.Lib Silo.Core Silo.Harness

namespace State

variable {cfg : Config} {s t u : State} {c d : Nat}

theorem Gate.setConn {conn : Conn} (h : Gate cfg s) (hc : Progress cfg s c conn) :
    Gate cfg (s.setConn c conn) := by
  have hg : Grows s (s.setConn c conn) := .of_eq List.prefix_rfl rfl rfl
  apply h.move hg (h.codes.of_eq rfl rfl) (ownConn_setConn conn).others
  rw [setConn_conns]
  exact hc.grows hg

theorem Gate.close {conn : Conn} (h : Gate cfg s) (hc : conn.phase = .closed) : Gate cfg (s.setConn c conn) :=
  h.setConn (progress_closed hc)

theorem setConn_goto (conn : Conn) (phase : Phase) :
    (s.setConn c conn).goto c phase = s.setConn c { conn with phase := phase } := by
  simp [goto, State.setConn]

theorem setConn_say (conn : Conn) (message : ServerMessage) :
    (s.setConn c conn).say c message = s.setConn c { conn with out := conn.out ++ [message] } := by
  simp [say, State.setConn]

theorem setConn_deny (conn : Conn) (message : String) :
    (s.setConn c conn).deny c message =
      s.setConn c { conn with out := conn.out ++ [.authError message], phase := .closed } := by
  rw [deny, setConn_say, setConn_goto]

theorem Gate.deny (h : Gate cfg s) (message : String) : Gate cfg (s.deny c message) := by
  rw [State.deny, say, setConn_goto]
  exact h.close rfl

theorem Gate.redeem (h : Gate cfg s) (code : String) :
    Gate cfg { s with
      pairing := (s.pairing.redeemAt code s.now).2
      redeemed := s.redeemed ++
        ((s.pairing.redeemAt code s.now).1.map fun mint => Redemption.mk c code mint s.now).toList } := by
  constructor
  · exact h.codes.redeem code rfl rfl
  · intro d
    refine (h.conns d).grows ⟨List.prefix_rfl, ?_, fun _ _ hl => hl, fun _ hr => hr⟩
    exact fun r hr => List.mem_append_left _ hr

theorem Gate.register (h : Gate cfg s) {keyId : String} (hfresh : s.keys.records.lookup keyId = none)
    (publicKeyB64 clientName : String) (saved : Bool) :
    Gate cfg { s with keys := (s.keys.add keyId publicKeyB64 clientName saved).2 } := by
  constructor
  · exact h.codes.of_eq rfl rfl
  · intro d
    refine (h.conns d).grows ⟨List.prefix_rfl, fun _ hr => hr, ?_, ?_⟩
    · intro id record hl
      have hne : id ≠ keyId := by
        rintro rfl
        rw [hfresh] at hl
        cases hl
      cases saved <;> simpa [AuthorizedKeys.add, List.lookup_cons, beq_false_of_ne hne] using hl
    · intro records hr
      cases saved <;> simp [AuthorizedKeys.add, hr]

theorem isChallenge_of_mem_dropLast {heard : List AuthRequest} {auth : AuthRequest}
    (h : ∀ auth ∈ heard, auth.isChallenge = true) :
    ∀ a ∈ (heard ++ [auth]).dropLast, a.isChallenge = true := by
  rw [List.dropLast_concat]
  exact h

theorem gate_authenticate {pending : Option (String × Bytes32)} (h : Gate cfg s)
    (hphase : (s.conns c).phase = .authenticating pending) (draw : Draw) (auth : AuthRequest) :
    Gate cfg ((s.setConn c { s.conns c with heard := (s.conns c).heard ++ [auth] }).authenticate cfg c
      pending draw auth) := by
  obtain ⟨hpending, hheard⟩ : pending = (s.conns c).issued.getLast? ∧
      ∀ auth ∈ (s.conns c).heard, auth.isChallenge = true := by
    simpa [Progress, hphase] using h.conns c
  cases auth with
  | localToken token =>
      simp only [authenticate]
      split
      · next hdigest =>
          rw [setConn_goto]
          apply h.setConn
          exact .localToken token (by simp) ((constantTimeEq_iff _ _).mp hdigest)
      · rw [setConn_deny]
        exact h.close rfl
  | pair code publicKeyB64 clientName =>
      have hredeem := h.redeem (c := c) code
      simp only [authenticate]
      split
      · next pairing heq =>
          rw [show s.pairing.redeemAt code s.now = (none, pairing) from heq] at hredeem
          simp only [Option.map_none, Option.toList_none, List.append_nil] at hredeem
          change Gate cfg (({ s with pairing := pairing }.setConn c _).deny c _)
          rw [setConn_deny]
          exact hredeem.close rfl
      · next mint pairing heq =>
          rw [show s.pairing.redeemAt code s.now = (some mint, pairing) from heq] at hredeem
          simp only [Option.map_some, Option.toList_some] at hredeem
          split
          · change Gate cfg (({ s with pairing := pairing, redeemed := s.redeemed ++ [_] }.setConn c _).deny c _)
            rw [setConn_deny]
            exact hredeem.close rfl
          · next key hkey =>
              change Gate cfg (({ s with pairing := pairing, redeemed := s.redeemed ++ [_] }.setConn c _).goto c _)
              rw [setConn_goto]
              apply hredeem.setConn
              have hr := hredeem.codes.redeemed ⟨c, code, mint, s.now⟩ (by simp)
              exact ⟨code, by simp, ⟨⟨c, code, mint, s.now⟩, by simp, rfl, rfl, hr⟩, by rw [hkey]; rfl⟩
  | challenge keyId =>
      simp only [authenticate]
      split
      · rw [setConn_deny]
        exact h.close rfl
      · simp only [setConn_conns]
        rw [setConn_say]
        simp only [State.setConn, Function.update_idem]
        apply h.setConn
        refine ⟨by simp, ?_⟩
        simpa [or_imp, forall_and, AuthRequest.isChallenge] using hheard
  | signature keyId signatureB64 =>
      simp only [authenticate]
      split
      · rw [setConn_deny]
        exact h.close rfl
      · next pendingId challenge =>
          split
          · rw [setConn_deny]
            exact h.close rfl
          · next hid =>
              split
              · rw [setConn_deny]
                exact h.close rfl
              · next key hkey =>
                  split
                  · next hvalid =>
                      obtain ⟨record, hrecord, hparse⟩ := Option.bind_eq_some_iff.mp hkey
                      rw [setConn_goto]
                      apply h.setConn
                      rw [not_not.mp hid] at hpending
                      exact ⟨signatureB64, by simp, challenge, record, key, hpending.symm, hrecord, hparse, hvalid,
                        isChallenge_of_mem_dropLast hheard⟩
                  · rw [setConn_deny]
                    exact h.close rfl

theorem gate_authFrame {pending : Option (String × Bytes32)} (h : Gate cfg s)
    (hphase : (s.conns c).phase = .authenticating pending) (draw : Draw) (frame : Frame) :
    Gate cfg (s.authFrame cfg c pending draw frame) := by
  cases frame with
  | text message =>
      cases message with
      | none => exact h.deny _
      | some message =>
          cases message with
          | authenticate auth => exact gate_authenticate h hphase draw auth
          | _ => exact h.deny _
  | close => exact h.close rfl
  | other => exact h

theorem gate_early {act : ConnAct} (h : Gate cfg s) (he : (s.conns c).phase.early = true)
    (hn : s.connStep cfg c act = some t) : Gate cfg t := by
  have hprogress := h.conns c
  simp only [connStep] at hn
  split at hn
  · next heq =>
      split at hn
      · cases hn
      · cases hn
        apply h.setConn
        simpa [Progress, heq] using hprogress
  · next heq =>
      cases hn
      rw [say, setConn_goto]
      apply h.setConn
      simp only [Progress, heq] at hprogress
      split
      · exact trivial
      · exact ⟨by rw [hprogress.2]; rfl, by rw [hprogress.1]; simp⟩
  · next heq =>
      cases hn
      exact gate_authFrame h heq _ _
  · cases hn
    exact h.deny _
  · next keyId saved publicKeyB64 clientName heq =>
      simp only [Progress, heq] at hprogress
      obtain ⟨code, hheard, hredeemed, hvalid⟩ := hprogress
      split at hn
      · cases hn
      · next hfresh =>
          have hkeys := h.register (Option.not_isSome_iff_eq_none.mp hfresh) publicKeyB64 clientName saved
          cases saved with
          | true =>
              cases hn
              apply hkeys.setConn
              refine .pair code publicKeyB64 clientName keyId hheard hredeemed hvalid ?_
              refine ⟨(keyId, ⟨publicKeyB64, clientName⟩) :: s.keys.records, ?_, by simp⟩
              simp [AuthorizedKeys.add]
          | false =>
              cases hn
              exact hkeys.deny _
  · next keyId heq =>
      cases hn
      simp only [Progress, heq] at hprogress
      obtain ⟨signatureB64, hheard, hsigned⟩ := hprogress
      apply h.setConn
      exact .signature keyId signatureB64 hheard hsigned
  · next clientId outcome heq =>
      cases hn
      rw [say, setConn_goto]
      apply h.setConn
      simp only [Progress, heq] at hprogress
      split
      · exact trivial
      · exact hprogress.keep rfl rfl
  · next heq => simp [heq, Phase.early] at he
  · next heq => simp [heq, Phase.early] at he
  · next heq => simp [heq, Phase.early] at he
  · next heq => simp [heq, Phase.early] at he
  · next heq => simp [heq, Phase.early] at he
  · split at hn
    · cases hn
      exact h.close rfl
    · cases hn
  · cases hn

/-- A task past its authentication: it keeps what it was admitted on, and the tables
change at most by a mint. -/
theorem Gate.passed {conn : Conn} (h : Gate cfg s) (he : (s.conns c).phase.early = false)
    (hkeys : t.keys = s.keys) (hredeemed : t.redeemed = s.redeemed)
    (hpairing : t.pairing = s.pairing ∨ ∃ code now, t.pairing = s.pairing.mintAt code now)
    (hconns : t.conns = Function.update s.conns c conn) (hh : conn.heard = (s.conns c).heard)
    (hi : conn.issued = (s.conns c).issued) (hp : conn.phase.early = false ∨ conn.phase = .closed) :
    Gate cfg t := by
  have hg : Grows s t := by
    apply Grows.of_eq _ hredeemed hkeys
    obtain hp | ⟨code, now, hp⟩ := hpairing
    · simp [hp]
    · simp [hp, PairingCodes.mintAt]
  apply h.move (c := c) hg
  · obtain hp | ⟨code, now, hp⟩ := hpairing
    · exact h.codes.of_eq hp hredeemed
    · exact h.codes.mint code now hp hredeemed
  · intro d hd
    rw [hconns, Function.update_of_ne hd]
  · rw [hconns, Function.update_self]
    obtain hp | hp := hp
    · apply progress_of_admitted _ hp
      exact ((admitted_of_progress (h.conns c) he).grows hg).keep hh hi
    · exact progress_closed hp

theorem gate_handleMessage {client : Client} (h : Gate cfg s) (hphase : (s.conns c).phase = .ready client)
    (draw : Draw) (message : ClientMessage) : Gate cfg (s.handleMessage c client draw message) := by
  have he : (s.conns c).phase.early = false := by rw [hphase]; rfl
  cases message with
  | requestPairingCode => exact h.passed he rfl rfl (.inr ⟨draw.code, s.now, rfl⟩) rfl rfl rfl (.inl he)
  | prompt text => exact h.passed he rfl rfl (.inl rfl) rfl rfl rfl (.inl rfl)
  | uploadFile name contentB64 => exact h.passed he rfl rfl (.inl rfl) rfl rfl rfl (.inl rfl)
  | interrupt => exact h.passed he rfl rfl (.inl rfl) rfl rfl rfl (.inl rfl)
  | shutdown => exact h.passed he rfl rfl (.inl rfl) rfl rfl rfl (.inl rfl)
  | answerQuestion questionId answer =>
      simp only [handleMessage]
      split
      · exact h
      · exact h.passed he rfl rfl (.inl rfl) rfl rfl rfl (.inl rfl)
  | _ => exact h.passed he rfl rfl (.inl rfl) rfl rfl rfl (.inl he)

theorem gate_connStep {act : ConnAct} (h : Gate cfg s) (hn : s.connStep cfg c act = some t) : Gate cfg t := by
  have heffect := connStep_effect hn
  have hlate {phase : Phase} (hphase : (s.conns c).phase = phase) (he : phase.early = false) :
      (s.conns c).phase.early = false := by rw [hphase]; exact he
  cases heffect with
  | early he _ _ => exact gate_early h he hn
  | message client draw message hphase => exact gate_handleMessage h hphase draw message
  | unrecognized client draw hphase =>
      exact h.passed (hlate hphase rfl) rfl rfl (.inl rfl) rfl rfl rfl (.inl (hlate hphase rfl))
  | ignored client draw hphase => exact h
  | close _ => exact h.close rfl
  | send client id question answer hphase _ =>
      exact h.passed (hlate hphase rfl) rfl rfl (.inl rfl) rfl rfl rfl (.inl rfl)
  | lost client id question answer hphase _ =>
      exact h.passed (hlate hphase rfl) rfl rfl (.inl rfl) rfl rfl rfl (.inl rfl)
  | emitAnswer client id answer time hphase =>
      exact h.passed (hlate hphase rfl) rfl rfl (.inl rfl) rfl rfl rfl (.inl rfl)
  | resume client seq text hphase _ =>
      exact h.passed (hlate hphase rfl) rfl rfl (.inl rfl) rfl rfl rfl (.inl rfl)
  | command client command delivered hphase =>
      exact h.passed (hlate hphase rfl) rfl rfl (.inl rfl) rfl rfl rfl (.inl rfl)

theorem Gate.elsewhere (h : Gate cfg s) (hconns : t.conns = s.conns) (hkeys : t.keys = s.keys)
    (hpairing : t.pairing = s.pairing) (hredeemed : t.redeemed = s.redeemed) : Gate cfg t := by
  constructor
  · exact h.codes.of_eq hpairing hredeemed
  · intro d
    rw [hconns]
    exact (h.conns d).grows (.of_eq (by simp [hpairing]) hredeemed hkeys)

theorem gate_runTool (h : Gate cfg s) (agent : AgentId) (call : ToolCall) (time : Timestamp) :
    Gate cfg (s.runTool cfg agent call time) := by
  simp only [runTool]
  split
  · exact h
  · split
    · split
      · exact h
      · simp only [insertQuestion]
        split <;> exact h.elsewhere rfl rfl rfl rfl
    · split
      · split
        · exact h
        · exact h.elsewhere rfl rfl rfl rfl
      · exact h

theorem gate_callStep {n : Nat} {act : CallAct} (h : Gate cfg s) (hn : s.callStep cfg n act = some t) :
    Gate cfg t := by
  simp only [callStep] at hn
  split at hn
  · cases hn
    exact h.elsewhere rfl rfl rfl rfl
  · split at hn
    · cases hn
    · split at hn
      case h_4 => cases hn
      all_goals
        cases hn
        exact h.elsewhere rfl rfl rfl rfl
  · split at hn
    · cases hn
    · cases hn
      exact h.elsewhere rfl rfl rfl rfl
  · split at hn
    · cases hn
    · cases hn
      exact h.elsewhere rfl rfl rfl rfl
  · cases hn

theorem gate_interruptStep {i : Nat} {act : InterruptAct} (h : Gate cfg s)
    (hn : s.interruptStep i act = some t) : Gate cfg t := by
  simp only [interruptStep] at hn
  split at hn
  · obtain ⟨e, -, rfl⟩ := Option.map_eq_some_iff.mp hn
    split <;> exact h.elsewhere rfl rfl rfl rfl
  · cases hn
    exact h.elsewhere rfl rfl rfl rfl
  · split at hn
    · cases hn
    · cases hn
      exact h.elsewhere rfl rfl rfl rfl
  · cases hn

theorem gate_next {act : Act} (h : Gate cfg s) (hn : s.next cfg act = some t) : Gate cfg t := by
  cases act with
  | conn c act => exact gate_connStep h hn
  | runTool agent call time =>
      cases hn
      exact gate_runTool h agent call time
  | call n act => exact gate_callStep h hn
  | interrupting i act => exact gate_interruptStep h hn
  | interrupt =>
      cases hn
      rw [interrupt]
      split
      · exact h
      · exact h.elsewhere rfl rfl rfl rfl
  | nextUserInput =>
      simp only [next, nextUserInput] at hn
      split at hn
      · split at hn
        · cases hn
        · cases hn
          exact h.elsewhere rfl rfl rfl rfl
      · cases hn
  | emit time payload =>
      simp only [next] at hn
      split at hn
      · cases hn
      · cases hn
        exact h.elsewhere rfl rfl rfl rfl
  | emitJournal seq =>
      obtain ⟨bus, -, rfl⟩ := Option.map_eq_some_iff.mp hn
      exact h.elsewhere rfl rfl rfl rfl
  | emitBroadcast seq =>
      obtain ⟨bus, -, rfl⟩ := Option.map_eq_some_iff.mp hn
      exact h.elsewhere rfl rfl rfl rfl
  | tick nanos =>
      cases hn
      exact h.elsewhere rfl rfl rfl rfl
  | watchCost backend =>
      cases hn
      exact h.elsewhere rfl rfl rfl rfl
  | shutdown message =>
      simp only [next] at hn
      split at hn
      · cases hn
        exact h.elsewhere rfl rfl rfl rfl
      · cases hn
  | clearQuestions =>
      simp only [next] at hn
      split at hn
      · cases hn
        exact h.elsewhere rfl rfl rfl rfl
      · cases hn

theorem gate_start (records : List (String × KeyRecord)) (now : Nat) (issue : Option PairingCode) :
    Gate cfg (start records now issue) := by
  constructor
  · constructor
    · cases issue <;> simp [start, PairingCodes.new, PairingCodes.mintAt]
    · simp [start]
    · simp [start]
  · intro c
    simp [Progress, start]

theorem gate_of_reachable (hr : (machine cfg).Reachable s) : Gate cfg s := by
  apply hr.invariant
  · rintro _ ⟨records, now, issue, rfl⟩
    exact gate_start records now issue
  · intro s u l h _ hn
    exact gate_next h hn

/-- What the connection is told since `s`. -/
def ToldOnly (s : State) (c : Nat) (t : State) : Prop :=
  ∃ said, (t.conns c).out = (s.conns c).out ++ said ∧ ∀ message ∈ said, message.ofAuth = true

theorem told_nothing (h : (t.conns c).out = (s.conns c).out) : ToldOnly s c t := ⟨[], by simp [h], by simp⟩

theorem told_deny (message : String) (h : (t.conns c).out = (s.conns c).out) : ToldOnly s c (t.deny c message) :=
  ⟨[.authError message], by simp [State.deny, goto, say, h], by simp [ServerMessage.ofAuth]⟩

theorem told_authenticate (pending : Option (String × Bytes32)) (draw : Draw) (auth : AuthRequest)
    (h : (t.conns c).out = (s.conns c).out) : ToldOnly s c (t.authenticate cfg c pending draw auth) := by
  cases auth with
  | localToken token =>
      simp only [authenticate]
      split
      · exact told_nothing (by simp [goto, h])
      · exact told_deny _ h
  | pair code publicKeyB64 clientName =>
      simp only [authenticate]
      split
      · exact told_deny _ h
      · split
        · exact told_deny _ h
        · exact told_nothing (by simp [goto, h])
  | challenge keyId =>
      simp only [authenticate]
      split
      · exact told_deny _ h
      · exact ⟨[.authChallenge (cfg.crypto.b64 draw.challenge.toList)], by simp [say, h],
          by simp [ServerMessage.ofAuth]⟩
  | signature keyId signatureB64 =>
      simp only [authenticate]
      split
      · exact told_deny _ h
      · split
        · exact told_deny _ h
        · split
          · exact told_deny _ h
          · split
            · exact told_nothing (by simp [goto, h])
            · exact told_deny _ h

/-- A frame of the authentication phase is answered with a challenge or an error. -/
theorem told_authFrame (pending : Option (String × Bytes32)) (draw : Draw) (frame : Frame) :
    ToldOnly s c (s.authFrame cfg c pending draw frame) := by
  cases frame with
  | text message =>
      cases message with
      | none => exact told_deny _ rfl
      | some message =>
          cases message with
          | authenticate auth => exact told_authenticate pending draw auth (by simp)
          | _ => exact told_deny _ rfl
  | close => exact told_nothing (by simp [authFrame, goto])
  | other => exact told_nothing rfl

theorem told_frame {frame : Frame} {draw : Draw} (he : (s.conns c).phase.early = true)
    (hn : s.next cfg (.conn c (.frame frame draw)) = some t) : ToldOnly s c t := by
  simp only [next, connStep] at hn
  split at hn
  all_goals first | contradiction | skip
  · next heq _ =>
      cases heq
      cases hn
      exact told_authFrame ..
  · next heq => simp [heq, Phase.early] at he

/-- Who is in the message phase, and what a connection can do before it. -/
structure OnlyAuthenticated (cfg : Config) (s : State) : Prop where
  admitted : ∀ c, (s.conns c).phase.early = false → Admitted cfg s c (s.conns c)
  once : (s.redeemed.map fun r => r.mint.serial).Nodup
  silent : ∀ c act t, (s.conns c).phase.early = true → s.next cfg (.conn c act) = some t → OwnConn c s t
  unread : ∀ c frame draw t, (s.conns c).phase.early = true →
    s.next cfg (.conn c (.frame frame draw)) = some t → ToldOnly s c t

theorem only_authenticated_clients_act (hr : (machine cfg).Reachable s) : s.OnlyAuthenticated cfg where
  admitted c he := admitted_of_progress ((gate_of_reachable hr).conns c) he
  once := (gate_of_reachable hr).codes.once
  silent _ _ _ he hn := (ownConn_connStep he hn).1
  unread _ _ _ _ he hn := told_frame he hn

/-- Text is its bytes, and a signature is the challenge followed by the key. -/
def plainCrypto : Crypto where
  sha256 bytes := ⟨((bytes ++ List.replicate 32 0).take 32).toArray, by simp⟩
  b64 bytes := String.ofList (bytes.map fun b => Char.ofNat b.toNat)
  unb64 text := some (text.toList.map fun ch => ch.toNat.toUInt8)
  validKey _ := true
  verify key challenge signature := signature = challenge.toList ++ key.toList

def plain : Config where
  crypto := plainCrypto
  token := "token"
  harnessId := "harness"
  protocolVersion := 1
  ids n := toString n
  parseQuestion := .ok
  parseSendUserFile _ := .error "SendUserFile requires a 'path' string"

def firstCode : PairingCode := ⟨"AAAAAAAA", pairingCode_first⟩

def chance : Draw := ⟨⟨0, none⟩, firstCode, Vector.replicate 32 67⟩

def logsIn (c : Nat) (auth : AuthRequest) : Act := .conn c (.frame (.text (some (.authenticate auth))) chance)

/-- One client pairs with the printed code, another signs a challenge with the key. -/
def pairThenSign : List Act :=
  let key := String.ofList (List.replicate 32 'K')
  [.conn 0 .accept, .conn 0 .hello, logsIn 0 (.pair "AAAAAAAA" key "phone"), .conn 0 (.register "key-1" true),
    .conn 0 (.announce "first"), .conn 1 .accept, .conn 1 .hello, logsIn 1 (.challenge "key-1"),
    logsIn 1 (.signature "key-1" (String.ofList (List.replicate 32 'C') ++ key)), .conn 1 .nameClient,
    .conn 1 (.announce "second")]

theorem only_authenticated_clients_act_pair_and_sign :
    ∃ s, (machine plain).Reachable s ∧
      ((s.conns 0).phase.early = false ∧ (s.conns 1).phase.early = false ∧ s.redeemed.length = 1) ∧
      s.OnlyAuthenticated plain := by
  obtain ⟨s, hr, hp⟩ := Machine.exists_of_run pairThenSign
    (fun s => decide ((s.conns 0).phase.early = false ∧ (s.conns 1).phase.early = false ∧ s.redeemed.length = 1))
    (s := start [] 0 (some firstCode)) (M := machine plain) ⟨[], 0, some firstCode, rfl⟩ rfl
  exact ⟨s, hr, of_decide_eq_true hp, only_authenticated_clients_act hr⟩

end State

end Silo.Frontend
