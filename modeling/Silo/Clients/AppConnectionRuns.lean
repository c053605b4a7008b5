import Mathlib.Data.List.Basic
import Silo.Clients.AppConnection

namespace Silo.Clients

open Silo.Lib

namespace AppConnection

variable {maxAutoReconnects : Nat} {s t : AppConnection} {n origin : Nat}

structure Single (s : AppConnection) : Prop where
  live : s.live = [] ∨ ∃ c, s.live = [c] ∧ s.channel = some c
  listening : ∀ c ∈ s.listening, s.channel = some c ∧ s.subscription = some c
  attempts : s.attempts = [] ∨ (∃ a, s.attempts = [a]) ∧ s.channel = none ∧ s.disconnects = []
  disconnects : s.disconnects ≠ [] → s.timer = false ∧ s.listening = []
  closing : ∀ x, .close x ∈ s.disconnects → s.channel = none ∨ s.channel = x
  released : s.released = true → s.channel = none ∧ s.attempts = [] ∧ s.timer = false ∧ s.status = .disconnected
  silent : ∀ sent ∈ s.sent, sent.released = false
  replies : ∀ sent ∈ s.sent, ∀ origin, sent.origin = some origin → sent.channel = origin

theorem Single.live_eq_nil (h : Single s) (hchannel : s.channel = none) : s.live = [] := by
  rcases h.live with hlive | ⟨c, -, hc⟩
  · exact hlive
  · cases hchannel.symm.trans hc

theorem Single.listening_eq_nil (h : Single s) (hchannel : s.channel = none) : s.listening = [] := by
  apply List.eq_nil_iff_forall_not_mem.mpr
  intro c hc
  cases hchannel.symm.trans (h.listening c hc).1

theorem Single.obedient (h : Single s) : s.Obedient := by
  refine ⟨?_, ?_, h.silent, h.replies⟩
  · rcases h.live with hlive | ⟨c, hlive, -⟩
    · simp [hlive]
    · simp [hlive]
  · intro hreleased
    obtain ⟨hchannel, -, -, hstatus⟩ := h.released hreleased
    exact ⟨h.live_eq_nil hchannel, hstatus⟩

theorem of_unreleased {p : Prop} (hreleased : s.released = false) (hr : s.released = true) : p := by
  rw [hreleased] at hr
  cases hr

theorem Single.not_released (h : Single s) {c : Nat} (hc : s.channel = some c) : s.released = false := by
  by_contra hreleased
  cases hc.symm.trans (h.released (by simpa using hreleased)).1

theorem send_of_some {c : Nat} (hc : s.channel = some c) (origin : Option Nat) (frame : Frame) :
    s.send origin frame = { s with sent := s.sent ++ [⟨frame, c, origin, s.released⟩] } := by
  simp [AppConnection.send, hc]

theorem giveUp_of_some {c : Nat} (hc : s.channel = some c) (origin : Nat) :
    s.giveUp origin = { s with closing := true, status := .failed }.await origin (.close c) := by
  simp [AppConnection.giveUp, AppConnection.await, hc]

theorem Single.send (h : Single s) (origin : Option Nat) (frame : Frame)
    (horigin : s.channel = none ∨ origin = none ∨ s.channel = origin) : Single (s.send origin frame) := by
  cases hchannel : s.channel with
  | none => simpa [AppConnection.send, hchannel] using h
  | some c =>
      have hnew := h.not_released hchannel
      rw [send_of_some hchannel]
      refine { h with silent := ?_, replies := ?_ }
      · intro sent hsent
        rcases List.mem_append.mp hsent with hsent | hsent
        · exact h.silent sent hsent
        · rw [List.mem_singleton.mp hsent]
          exact hnew
      · intro sent hsent o ho
        rcases List.mem_append.mp hsent with hsent | hsent
        · exact h.replies sent hsent o ho
        · rw [List.mem_singleton.mp hsent] at ho ⊢
          rcases horigin with hnone | hnone | hsome
          · cases hchannel.symm.trans hnone
          · cases hnone.symm.trans ho
          · exact Option.some.inj (hchannel.symm.trans (hsome.trans ho))

theorem channel_send (origin : Option Nat) (frame : Frame) : (s.send origin frame).channel = s.channel := by
  cases hchannel : s.channel <;> simp [AppConnection.send, hchannel]

theorem Single.handlers (h : Single s) (handlers : List (Nat × Stage)) : Single { s with handlers := handlers } :=
  { h with }

theorem Single.await (h : Single s) (origin : Nat) (stage : Stage) : Single (s.await origin stage) := h.handlers _

theorem Single.status (h : Single s) {c : Nat} (hc : s.channel = some c) (status : ConnectionStatus) :
    Single { s with status := status } := by
  refine { h with released := ?_ }
  intro hreleased
  cases hc.symm.trans (h.released hreleased).1

theorem Single.giveUp (h : Single s) (hc : s.channel = some origin) : Single (s.giveUp origin) := by
  have hs : Single { s with closing := true, status := .failed } := { h.status hc .failed with }
  rw [giveUp_of_some hc]
  exact hs.await origin _

theorem Single.welcome (h : Single s) (hc : s.channel = some origin) : Single (s.welcome origin) := by
  have hs : Single { s with reconnectAttempt := 0, status := .connected } := { h.status hc .connected with }
  have hfirst := hs.send origin .requestEvents (.inr (.inr hc))
  have hsecond := hfirst.send origin .requestAccessReport (.inr (.inr ((channel_send ..).trans hc)))
  exact hsecond.send origin .requestCost (.inr (.inr ((channel_send ..).trans ((channel_send ..).trans hc))))

theorem Single.handleMessage (h : Single s) (hc : s.channel = some origin) (message : Message) :
    Single (s.handleMessage origin message) := by
  cases message with
  | hello => exact (h.status hc .authenticating).await origin .token
  | authChallenge => exact h.await origin .challengeKeyId
  | authOk keyId =>
      simp only [AppConnection.handleMessage]
      split
      · exact h.await origin .writeSeed
      · exact h.welcome hc
  | authError => exact h.giveUp hc
  | shuttingDown => exact { h with }
  | other => exact h

theorem Single.erase_live (h : Single s) (c : Nat) : Single { s with live := s.live.erase c } := by
  refine { h with live := ?_ }
  rcases h.live with hlive | ⟨x, hlive, hx⟩
  · exact .inl (by simp [hlive])
  · by_cases hxc : x = c
    · exact .inl (by simp [hlive, hxc])
    · exact .inr ⟨x, by simp [hlive, hxc], hx⟩

theorem Single.proceed (h : Single s) (stage : Stage) (result : Bool)
    (hsends : stage.sends result = true → s.channel = none ∨ s.channel = some origin)
    (hsets : stage.sets s.pairingCode result = true → s.channel = some origin) :
    Single (s.proceed origin stage result) := by
  have hsend : ∀ frame, stage.sends result = true → Single (s.send (some origin) frame) := by
    intro frame hstage
    apply h.send
    rcases hsends hstage with hnone | hsome
    · exact .inl hnone
    · exact .inr (.inr hsome)
  cases stage with
  | token =>
      cases result with
      | false => exact h.await origin .keyId
      | true => exact hsend _ rfl
  | keyId => exact h.await origin _
  | seed hasKeyId =>
      simp only [AppConnection.proceed]
      split
      case isTrue hfound => exact hsend _ hfound
      case isFalse hmissing =>
        split
        case isTrue => exact h.await origin .keyPair
        case isFalse hcode => exact h.giveUp (hsets (by simp [Stage.sets, hmissing, hcode]))
  | keyPair => exact h.await origin .privateKey
  | privateKey =>
      have hs : Single { s with pendingKeySeed := true } := { h with }
      exact hs.await origin .publicKey
  | publicKey => exact hsend _ rfl
  | challengeKeyId => exact h.await origin _
  | challengeSeed hasKeyId =>
      simp only [AppConnection.proceed]
      split
      case isTrue => exact h.await origin .challengePair
      case isFalse hmissing => exact h.status (hsets (by simp [Stage.sets, hmissing])) .failed
  | challengePair => exact h.await origin .sign
  | sign => exact hsend _ rfl
  | writeSeed => exact h.await origin .writeKeyId
  | writeKeyId =>
      have hs : Single { s with pendingKeySeed := false, pairingCode := false } := { h with }
      exact hs.welcome (hsets rfl)
  | close channel => exact h.erase_live channel

theorem Single.scheduleReconnect (h : Single s) (hdisconnects : s.disconnects = []) (hreleased : s.released = false) :
    Single (s.scheduleReconnect maxAutoReconnects) := by
  simp only [AppConnection.scheduleReconnect]
  split
  case isTrue => exact { h with released := of_unreleased hreleased }
  case isFalse =>
    split
    case isTrue => exact { h with released := of_unreleased hreleased }
    case isFalse =>
      refine { h with disconnects := ?_, released := ?_ }
      · exact fun hne => absurd hdisconnects hne
      · exact of_unreleased hreleased

theorem Single.onDisconnected (h : Single s) (hlive : s.live = []) (hlistening : s.listening = [])
    (hattempts : s.attempts = []) (hdisconnects : s.disconnects = []) (hreleased : s.released = false) :
    Single (s.onDisconnected maxAutoReconnects) := by
  have hgone : Single { s with subscription := none, channel := none } := by
    refine { h with live := .inl hlive, listening := ?_, attempts := .inl hattempts, closing := ?_, released := ?_ }
    · simp [hlistening]
    · simp [hdisconnects]
    · exact of_unreleased hreleased
  simp only [AppConnection.onDisconnected]
  split
  case isTrue =>
    split
    case isTrue => exact hgone
    case isFalse => exact { hgone with released := of_unreleased hreleased }
  case isFalse => exact hgone.scheduleReconnect hdisconnects hreleased

theorem Single.beginConnect (h : Single s) (hreleased : s.released = false)
    (hidle : s.active = true ∨ (s.attempts = [] ∧ s.disconnects = [] ∧ s.channel = none)) :
    Single s.beginConnect := by
  simp only [AppConnection.beginConnect]
  split
  case isTrue => exact h
  case isFalse hactive =>
    obtain ⟨hattempts, hdisconnects, hchannel⟩ := hidle.resolve_left hactive
    refine { h with attempts := ?_, disconnects := ?_, released := ?_ }
    · exact .inr ⟨⟨.settings, by simp [hattempts]⟩, hchannel, hdisconnects⟩
    · exact fun hne => absurd hdisconnects hne
    · exact of_unreleased hreleased

theorem idle_of_orderly (h : (s.active || (s.attempts.isEmpty && s.disconnects.isEmpty && s.channel.isNone)) = true) :
    s.active = true ∨ (s.attempts = [] ∧ s.disconnects = [] ∧ s.channel = none) := by
  simpa [and_assoc] using h

theorem Single.attempt (h : Single s) {a : Attempt} (hn : s.attempts[n]? = some a) :
    s.attempts = [a] ∧ n = 0 ∧ s.channel = none ∧ s.disconnects = [] ∧ s.released = false := by
  rcases h.attempts with hnil | ⟨⟨a', ha'⟩, hchannel, hdisconnects⟩
  · simp [hnil] at hn
  · have hlt := (List.getElem?_eq_some_iff.mp hn).1
    rw [ha', List.length_singleton] at hlt
    obtain rfl : n = 0 := by omega
    obtain rfl : a' = a := by simpa [ha'] using hn
    refine ⟨ha', rfl, hchannel, hdisconnects, ?_⟩
    by_contra hreleased
    rw [(h.released (by simpa using hreleased)).2.1] at ha'
    cases ha'

theorem Single.fails (h : Single s) {a : Attempt} (hn : s.attempts[n]? = some a) :
    Single ({ s with attempts := s.attempts.eraseIdx n }.scheduleReconnect maxAutoReconnects) := by
  obtain ⟨hattempts, rfl, -, hdisconnects, hreleased⟩ := h.attempt hn
  have hs : Single { s with attempts := s.attempts.eraseIdx 0 } := by
    refine { h with attempts := .inl (by simp [hattempts]), released := ?_ }
    exact of_unreleased hreleased
  exact hs.scheduleReconnect hdisconnects hreleased

theorem Single.disconnecting (h : Single s) (hne : s.disconnects ≠ []) :
    s.attempts = [] ∧ s.timer = false ∧ s.listening = [] :=
  ⟨h.attempts.resolve_right fun hright => hne hright.2.2, h.disconnects hne⟩

theorem Single.abandons (h : Single s) (hne : s.disconnects ≠ []) (n : Nat) :
    Single { s with disconnects := s.disconnects.eraseIdx n } := by
  obtain ⟨hattempts, htimer, hlistening⟩ := h.disconnecting hne
  refine { h with attempts := .inl hattempts, disconnects := ?_, closing := ?_ }
  · exact fun _ => ⟨htimer, hlistening⟩
  · exact fun x hx => h.closing x (List.mem_of_mem_eraseIdx hx)

theorem Single.connect (h : Single s) (horderly : s.orderly .connect = true)
    (hnext : s.next maxAutoReconnects .connect = some t) : Single t := by
  have hs : Single { s with released := false, reconnectAttempt := 0 } := { h with released := by simp }
  simp only [AppConnection.next] at hnext
  split at hnext
  case isTrue =>
    obtain rfl := Option.some.inj hnext
    exact { h with released := by simp }
  case isFalse =>
    obtain rfl := Option.some.inj hnext
    exact hs.beginConnect rfl (idle_of_orderly horderly)

theorem Single.fire (h : Single s) (horderly : s.orderly .fire = true)
    (hnext : s.next maxAutoReconnects .fire = some t) : Single t := by
  simp only [AppConnection.next] at hnext
  split at hnext
  case isTrue htimer =>
    obtain rfl := Option.some.inj hnext
    have hreleased : s.released = false := by
      by_contra hreleased
      cases htimer.symm.trans (h.released (by simpa using hreleased)).2.2.1
    have hs : Single { s with timer := false } := by
      refine { h with disconnects := fun hne => ⟨rfl, (h.disconnects hne).2⟩, released := ?_ }
      exact of_unreleased hreleased
    exact hs.beginConnect hreleased (idle_of_orderly horderly)
  case isFalse => cases hnext

theorem Single.settings {ok : Bool} (h : Single s)
    (hnext : s.next maxAutoReconnects (.settings n ok) = some t) : Single t := by
  simp only [AppConnection.next] at hnext
  split at hnext
  case isFalse => cases hnext
  case isTrue hn =>
    obtain ⟨hattempts, rfl, hchannel, hdisconnects, hreleased⟩ := h.attempt hn
    split at hnext
    case isTrue =>
      obtain rfl := Option.some.inj hnext
      refine { h with attempts := ?_, released := of_unreleased hreleased }
      exact .inr ⟨⟨.factory, by simp [hattempts]⟩, hchannel, hdisconnects⟩
    case isFalse =>
      obtain rfl := Option.some.inj hnext
      exact h.fails hn

theorem Single.factory {ok : Bool} (h : Single s)
    (hnext : s.next maxAutoReconnects (.factory n ok) = some t) : Single t := by
  simp only [AppConnection.next] at hnext
  split at hnext
  case isFalse => cases hnext
  case isTrue hn =>
    obtain ⟨hattempts, rfl, hchannel, hdisconnects, hreleased⟩ := h.attempt hn
    split at hnext
    case isTrue =>
      obtain rfl := Option.some.inj hnext
      have hlive := h.live_eq_nil hchannel
      have hlistening := h.listening_eq_nil hchannel
      refine { h with live := ?_, listening := ?_, attempts := ?_, disconnects := ?_, closing := ?_, released := ?_ }
      · exact .inr ⟨s.opened, by simp [hlive], rfl⟩
      · simp [hlistening]
      · exact .inl (by simp [hattempts])
      · exact fun hne => absurd hdisconnects hne
      · simp [hdisconnects]
      · exact of_unreleased hreleased
    case isFalse =>
      obtain rfl := Option.some.inj hnext
      exact h.fails hn

theorem Single.disconnect (h : Single s) (horderly : s.orderly .disconnect = true)
    (hnext : s.next maxAutoReconnects .disconnect = some t) : Single t := by
  obtain rfl := Option.some.inj hnext
  have hattempts : s.attempts = [] := by simpa [orderly] using horderly
  have hnone : s.listening.filter (fun c => some c ≠ s.subscription) = [] := by
    apply List.filter_eq_nil_iff.mpr
    intro c hc
    simp [(h.listening c hc).2]
  refine { h with listening := ?_, attempts := .inl hattempts, disconnects := ?_, closing := ?_, released := ?_ }
  · exact fun c hc => h.listening c (List.mem_filter.mp hc).1
  · exact fun _ => ⟨rfl, hnone⟩
  · intro x hx
    exact h.closing x (by simpa using hx)
  · intro hr
    obtain ⟨hchannel, -, -, hstatus⟩ := h.released hr
    exact ⟨hchannel, hattempts, rfl, hstatus⟩

theorem Single.cancelled {ok : Bool} (h : Single s)
    (hnext : s.next maxAutoReconnects (.cancelled n ok) = some t) : Single t := by
  simp only [AppConnection.next] at hnext
  split at hnext
  case isFalse => cases hnext
  case isTrue hn =>
    have hne : s.disconnects ≠ [] := List.ne_nil_of_mem (List.mem_of_getElem? hn)
    obtain ⟨hattempts, htimer, hlistening⟩ := h.disconnecting hne
    split at hnext
    case isTrue =>
      obtain rfl := Option.some.inj hnext
      refine { h with listening := ?_, attempts := .inl hattempts, disconnects := ?_, closing := ?_ }
      · simp [hlistening]
      · exact fun _ => ⟨htimer, hlistening⟩
      · intro x hx
        rcases List.mem_or_eq_of_mem_set hx with hx | hx
        · exact h.closing x hx
        · obtain rfl := Closing.close.inj hx
          exact .inr rfl
    case isFalse =>
      obtain rfl := Option.some.inj hnext
      exact h.abandons hne n

theorem Single.closed {ok : Bool} (h : Single s)
    (hnext : s.next maxAutoReconnects (.closed n ok) = some t) : Single t := by
  simp only [AppConnection.next] at hnext
  split at hnext
  case h_2 => cases hnext
  case h_1 x hn =>
    have hmem := List.mem_of_getElem? hn
    have hne : s.disconnects ≠ [] := List.ne_nil_of_mem hmem
    obtain ⟨hattempts, htimer, hlistening⟩ := h.disconnecting hne
    split at hnext
    case isTrue =>
      obtain rfl := Option.some.inj hnext
      have hlive : s.live.filter (fun c => some c ≠ x) = [] := by
        rcases h.live with hlive | ⟨c, hlive, hc⟩
        · simp [hlive]
        · rcases h.closing x hmem with hnone | hx
          · cases hc.symm.trans hnone
          · simp [hlive, ← hx, hc]
      refine { h with live := .inl hlive, listening := ?_, attempts := .inl hattempts, disconnects := ?_,
                      closing := fun _ _ => .inl rfl, released := fun _ => ⟨rfl, hattempts, htimer, rfl⟩ }
      · simp [hlistening]
      · exact fun _ => ⟨htimer, hlistening⟩
    case isFalse =>
      obtain rfl := Option.some.inj hnext
      exact h.abandons hne n

theorem Single.resume {result : Option Bool} (h : Single s) (horderly : s.orderly (.resume n result) = true)
    (hnext : s.next maxAutoReconnects (.resume n result) = some t) : Single t := by
  simp only [AppConnection.next] at hnext
  split at hnext
  case h_1 => cases hnext
  case h_2 origin stage hn =>
    cases result with
    | none =>
        obtain rfl := Option.some.inj hnext
        exact h.handlers _
    | some result =>
        obtain rfl := Option.some.inj hnext
        simp only [orderly, hn, Bool.and_eq_true, Bool.or_eq_true, Bool.not_eq_true', decide_eq_true_eq,
          Option.isNone_iff_eq_none] at horderly
        obtain ⟨hsends, hsets⟩ := horderly
        apply (h.handlers _).proceed
        · intro hstage
          rcases hsends with (hnot | hnone) | hsome
          · cases hstage.symm.trans hnot
          · exact .inl hnone
          · exact .inr hsome
        · intro hstage
          rcases hsets with hnot | hsome
          · cases hstage.symm.trans hnot
          · exact hsome

theorem Single.done {c : Nat} (h : Single s) (hnext : s.next maxAutoReconnects (.done c) = some t) : Single t := by
  simp only [AppConnection.next] at hnext
  split at hnext
  case isFalse => cases hnext
  case isTrue hc =>
    obtain rfl := Option.some.inj hnext
    obtain ⟨hchannel, -⟩ := h.listening c hc.1
    have hlive : s.live = [] := by
      apply h.live.resolve_right
      rintro ⟨x, hlive, hx⟩
      obtain rfl : x = c := Option.some.inj (hx.symm.trans hchannel)
      exact hc.2 (by simp [hlive])
    have hdisconnects : s.disconnects = [] := by
      by_contra hne
      rw [(h.disconnects hne).2] at hc
      simp at hc
    have hattempts : s.attempts = [] := by
      refine h.attempts.resolve_right fun hright => ?_
      cases hchannel.symm.trans hright.2.1
    have hlistening : s.listening.filter (· ≠ c) = [] := by
      apply List.filter_eq_nil_iff.mpr
      intro x hx
      simpa using Option.some.inj ((h.listening x hx).1.symm.trans hchannel)
    have hs : Single { s with listening := s.listening.filter (· ≠ c) } := by
      refine { h with listening := ?_, disconnects := fun hne => absurd hdisconnects hne }
      exact fun x hx => h.listening x (List.mem_filter.mp hx).1
    exact hs.onDisconnected hlive hlistening hattempts hdisconnects (h.not_released hchannel)

theorem Single.next {act : Act} (h : Single s) (horderly : s.orderly act = true)
    (hnext : s.next maxAutoReconnects act = some t) : Single t := by
  cases act with
  | connect => exact h.connect horderly hnext
  | fire => exact h.fire horderly hnext
  | settings n ok => exact h.settings hnext
  | factory n ok => exact h.factory hnext
  | disconnect => exact h.disconnect horderly hnext
  | cancelled n ok => exact h.cancelled hnext
  | closed n ok => exact h.closed hnext
  | frame c message =>
      simp only [AppConnection.next] at hnext
      split at hnext
      case isTrue hc =>
        obtain rfl := Option.some.inj hnext
        exact h.handleMessage (h.listening c hc).1 message
      case isFalse => cases hnext
  | resume n result => exact h.resume horderly hnext
  | drop c =>
      simp only [AppConnection.next] at hnext
      split at hnext
      case isTrue =>
        obtain rfl := Option.some.inj hnext
        exact h.erase_live c
      case isFalse => cases hnext
  | done c => exact h.done hnext
  | send =>
      obtain rfl := Option.some.inj hnext
      exact h.send none .user (.inr (.inl rfl))

theorem obedient_of_orderly (maxAutoReconnects : Nat) (s : AppConnection)
    (h : (machine maxAutoReconnects).ReachableUnder (fun s act => s.orderly act = true) s) : s.Obedient := by
  have hs : Single s := by
    refine h.invariant ?_ fun hs hc hn => Single.next hs hc hn
    rintro _ ⟨pairingCode, rfl⟩
    constructor <;> simp [start]
  exact hs.obedient

/-- A connection with a local token is opened, lost, opened again by the timer and closed. -/
def reconnecting : List Act :=
  [.connect, .settings 0 true, .factory 0 true, .frame 0 .hello, .resume 0 (some true), .frame 0 (.authOk false),
    .drop 0, .done 0, .fire, .settings 0 true, .factory 0 true, .frame 1 .hello, .resume 0 (some true),
    .disconnect, .cancelled 0 true, .closed 0 true]

theorem obedient_reconnecting :
    ∃ s, (machine 5).ReachableUnder (fun s act => s.orderly act = true) s ∧ s.Obedient ∧ s.released = true ∧
      s.sent.map (fun sent => (sent.frame, sent.channel)) = [(.localToken, 0), (.requestEvents, 0),
        (.requestAccessReport, 0), (.requestCost, 0), (.localToken, 1)] := by
  obtain ⟨s, hs, hout⟩ := Machine.exists_of_runChecked (M := machine 5) orderly reconnecting
    (fun s => decide (s.released = true ∧ s.sent.map (fun sent => (sent.frame, sent.channel)) =
      [(.localToken, 0), (.requestEvents, 0), (.requestAccessReport, 0), (.requestCost, 0), (.localToken, 1)]))
    ⟨false, rfl⟩ (by decide)
  exact ⟨s, hs, obedient_of_orderly 5 s hs, of_decide_eq_true hout⟩

/-- The connection is closed while the factory is at work, which opens the channel after
all. -/
def closedEarly : List Act :=
  [.connect, .settings 0 true, .disconnect, .cancelled 0 true, .closed 0 true, .factory 0 true]

/-- Then it is opened again, and the token for the first channel goes to the second. -/
def openedAgain : List Act :=
  closedEarly ++ [Act.connect, .frame 0 .hello, .settings 0 true, .factory 0 true, .resume 0 (some true)]

theorem disobedient_closedEarly :
    (∃ s, (machine 5).Reachable s ∧ s.released = true ∧ s.live = [0] ∧ ¬ s.Obedient) ∧
    ∃ s, (machine 5).Reachable s ∧ s.live = [0, 1] ∧ ⟨.localToken, 1, some 0, false⟩ ∈ s.sent ∧ ¬ s.Obedient := by
  constructor
  · obtain ⟨s, hs, hout⟩ := Machine.exists_of_run (M := machine 5) closedEarly
      (fun s => decide (s.released = true ∧ s.live = [0])) ⟨false, rfl⟩ (by decide)
    obtain ⟨hreleased, hlive⟩ := of_decide_eq_true hout
    refine ⟨s, hs, hreleased, hlive, fun h => ?_⟩
    cases hlive.symm.trans (h.closed hreleased).1
  · obtain ⟨s, hs, hout⟩ := Machine.exists_of_run (M := machine 5) openedAgain
      (fun s => decide (s.live = [0, 1] ∧ ⟨.localToken, 1, some 0, false⟩ ∈ s.sent)) ⟨false, rfl⟩ (by decide)
    obtain ⟨hlive, hsent⟩ := of_decide_eq_true hout
    refine ⟨s, hs, hlive, hsent, fun h => ?_⟩
    cases h.replies _ hsent 0 rfl

end AppConnection

end Silo.Clients
