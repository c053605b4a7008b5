import Silo.Clients.EventStore

namespace Silo.Clients

open Silo.Lib Silo.Core Silo.Harness

variable {history : History EventPayload} {a b b' : Nat} {wire : List (ServerFrame EventPayload)}
  {e : Event EventPayload} {es : List (Event EventPayload)}

def Channel.base (channel : Channel) (store : EventStore) : Nat :=
  if channel.replied then store.nextSeq else channel.ahead.getD store.nextSeq

theorem Channel.base_of_closed {channel : Channel} {store : EventStore} (h : channel.closed) :
    channel.base store = store.nextSeq := by
  rw [Channel.base]
  obtain h | h := h
  · simp [h]
  · simp [h]

structure Link.Sound (history : History EventPayload) (store : EventStore) (b : Nat)
    (link : Link EventPayload) : Prop where
  wire : ∀ frame ∈ link.wire, ∀ e ∈ frame.all, history.Has e
  announced : link.announced ≤ history.events.length
  live : link.nextLive ≤ history.events.length
  requests : ∀ fromSeq ∈ link.requests, fromSeq ≤ b
  order : LiveInOrder link.announced link.nextLive store.Has link.wire
  replies : RepliesClose link.announced b store.Has link.wire

structure Channel.Sound (history : History EventPayload) (store : EventStore) (channel : Channel) : Prop where
  low : ∀ seq, seq < channel.base store → store.Has seq
  ahead : ∀ b, channel.ahead = some b → b ≤ store.nextSeq
  sent : ∀ fromSeq ∈ channel.sent, fromSeq ≤ channel.base store
  fresh : channel.link = none → channel.replied = false
  link : ∀ link, channel.link = some link → link.Sound history store (channel.base store) ∧
    (channel.replied = true → link.announced ≤ store.nextSeq)

structure HarnessConnection.Sound (s : HarnessConnection) : Prop where
  has : ∀ e ∈ s.store.entries, s.history.Has e
  idle : s.channel = none → s.store.Gapless
  channel : ∀ channel, s.channel = some channel → channel.Sound s.history s.store

theorem Channel.base_le {channel : Channel} {store : EventStore} (h : channel.Sound history store) :
    channel.base store ≤ store.nextSeq := by
  rw [Channel.base]
  split
  · exact Nat.le_refl _
  · cases hahead : channel.ahead with
    | none => exact Nat.le_refl _
    | some b => exact h.ahead b hahead

theorem Channel.gapless_of_closed {channel : Channel} {store : EventStore} (h : channel.Sound history store)
    (hc : channel.closed) : store.Gapless := by
  intro seq hlt
  apply h.low
  rw [Channel.base_of_closed hc]
  exact hlt

namespace Link.Sound

variable {store store' : EventStore} {link link' : Link EventPayload}

theorem emit (h : link.Sound history store b) (time : Timestamp) (payload : EventPayload) :
    link.Sound (history.emit time payload) store b where
  wire frame hframe e he := (h.wire frame hframe e he).emit time payload
  announced := by
    have := h.announced
    rw [History.length_emit]
    omega
  live := by
    have := h.live
    rw [History.length_emit]
    omega
  requests := h.requests
  order := h.order
  replies := h.replies

theorem push (h : link.Sound history store b) (hp : link.push history = some link') :
    link'.Sound history store b ∧ link'.announced = link.announced := by
  obtain ⟨e, he, rfl⟩ := Option.map_eq_some_iff.mp hp
  refine ⟨⟨?_, h.announced, (List.getElem?_eq_some_iff.mp he).1, h.requests, ?_, ?_⟩, rfl⟩
  · intro frame hframe d hd
    obtain hframe | hframe := List.mem_append.mp hframe
    · exact h.wire frame hframe d hd
    · rw [List.mem_singleton.mp hframe, ServerFrame.all, List.mem_singleton] at hd
      rw [hd]
      exact History.has_of_getElem? he
  · exact h.order.push (history.seqs _ e he)
  · exact h.replies.push e

theorem reply (h : link.Sound history store b) (hstore : ∀ seq, store.Has seq → seq < history.events.length)
    (hr : link.reply history = some link') :
    link'.Sound history store b ∧ link'.announced = link.announced := by
  rw [Link.reply] at hr
  split at hr
  · cases hr
  · next fromSeq requests hrequests =>
      cases hr
      have hfrom := h.requests fromSeq (by simp [hrequests])
      refine ⟨⟨?_, h.announced, h.live, ?_, h.order.reply _, ?_⟩, rfl⟩
      · intro frame hframe d hd
        obtain hframe | hframe := List.mem_append.mp hframe
        · exact h.wire frame hframe d hd
        · rw [List.mem_singleton.mp hframe] at hd
          exact History.has_of_mem_since hd
      · intro other hmem
        exact h.requests other (by simp [hrequests, hmem])
      · exact h.replies.reply hfrom h.announced hstore h.wire

theorem request (h : link.Sound history store b) {fromSeq : Nat} (hfrom : fromSeq ≤ b) :
    (link.request fromSeq).Sound history store b where
  wire := h.wire
  announced := h.announced
  live := h.live
  requests other hmem := by
    obtain hmem | hmem := List.mem_append.mp hmem
    · exact h.requests other hmem
    · rw [List.mem_singleton.mp hmem]
      exact hfrom
  order := h.order
  replies := h.replies

end Link.Sound

theorem addingAll_iff {store : EventStore} (seq : Nat) :
    addingAll store.Has es seq ↔ (store.insertAll es).Has seq := by
  rw [addingAll, EventStore.has_insertAll]

theorem adding_iff {store : EventStore} (seq : Nat) : adding store.Has e seq ↔ (store.insert e).Has seq := by
  rw [adding, EventStore.has_insert]

theorem Closing.gapless {store : EventStore} (h : Closing store.Has a b es)
    (hlow : ∀ seq, seq < b → store.Has seq) :
    (store.insertAll es).Gapless ∧ a ≤ (store.insertAll es).nextSeq := by
  obtain ⟨fromSeq, len, hfrom, hlen, hes, hS⟩ := h
  have hiff (seq : Nat) : (store.insertAll es).Has seq ↔ seq < len := by
    rw [EventStore.has_insertAll, hes]
    constructor
    · rintro (h | h)
      · exact hS seq h
      · exact h.2
    · intro h
      by_cases hb : seq < b
      · exact .inl (hlow seq hb)
      · exact .inr ⟨by omega, h⟩
  refine ⟨EventStore.gapless_of_initial (n := len) (fun seq => (hiff seq).mpr) fun seq => (hiff seq).mp, ?_⟩
  cases len with
  | zero => omega
  | succ len =>
      have := ((hiff len).mpr (Nat.lt_succ_self _)).lt
      omega

theorem gapless_insert {store : EventStore} (hlow : store.Gapless) (h : ∀ seq, seq < e.seq → store.Has seq) :
    (store.insert e).Gapless := by
  intro seq hlt
  obtain ⟨top, hle, htop⟩ := EventStore.has_top hlt
  rw [EventStore.has_insert] at htop ⊢
  obtain htop | rfl := htop
  · exact .inl (hlow seq (Nat.lt_of_le_of_lt hle htop.lt))
  · by_cases heq : seq = e.seq
    · exact .inr heq
    · exact .inl (h seq (by omega))

theorem Link.Sound.take {store store' : EventStore} {link : Link EventPayload} {frame : ServerFrame EventPayload}
    (h : link.Sound history store b) (hwire : link.wire = frame :: wire) (hb : b ≤ b')
    (horder : LiveInOrder link.announced link.nextLive store'.Has wire)
    (hreplies : RepliesClose link.announced b' store'.Has wire) :
    ({ link with wire := wire } : Link EventPayload).Sound history store' b' where
  wire f hf := h.wire f (by rw [hwire]; exact List.mem_cons_of_mem _ hf)
  announced := h.announced
  live := h.live
  requests other hmem := Nat.le_trans (h.requests other hmem) hb
  order := horder
  replies := hreplies

theorem Channel.Sound.event {store : EventStore} {channel : Channel} {link : Link EventPayload}
    (h : channel.Sound history store) (hlink : channel.link = some link) (hwire : link.wire = .event e :: wire) :
    ({ channel with
      link := some { link with wire := wire }
      ahead := HarnessConnection.noteAhead channel store e } : Channel).Sound history (store.insert e) := by
  obtain ⟨hl, hreplied⟩ := h.link link hlink
  have horder := hl.order
  have hreplies := hl.replies
  rw [hwire] at horder hreplies
  have hgrows : ∀ seq, store.Has seq → (store.insert e).Has seq := fun seq hs => EventStore.has_insert.mpr (.inl hs)
  have hnext := EventStore.nextSeq_mono hgrows
  generalize hnote : HarnessConnection.noteAhead channel store e = ahead
  -- The base is kept or grows, and nothing below it is missing.
  obtain ⟨hbase, hlow, hahead⟩ : channel.base store ≤
        ({ channel with link := some { link with wire := wire }, ahead := ahead } : Channel).base (store.insert e) ∧
      (∀ seq, seq < ({ channel with link := some { link with wire := wire }, ahead := ahead } : Channel).base
        (store.insert e) → (store.insert e).Has seq) ∧
      ∀ b, ahead = some b → b ≤ store.nextSeq := by
    cases hr : channel.replied with
    | true =>
        have hgapless := Channel.gapless_of_closed h (.inl hr)
        have hall : (store.insert e).Gapless := by
          apply gapless_insert hgapless
          intro seq hlt
          by_cases ha : link.announced ≤ seq
          · exact horder.1 seq ha hlt
          · exact hgapless seq (Nat.lt_of_lt_of_le (Nat.lt_of_not_le ha) (hreplied hr))
        simp only [HarnessConnection.noteAhead, hr, Bool.not_true, Bool.false_and, Bool.false_eq_true,
          if_false] at hnote
        simp only [Channel.base, hr, if_true]
        exact ⟨hnext, hall, hnote ▸ h.ahead⟩
    | false =>
        cases hold : channel.ahead with
        | some b =>
            simp only [HarnessConnection.noteAhead, hr, hold, Option.isNone_some, Bool.and_false, Bool.false_and,
              Bool.false_eq_true, if_false] at hnote
            have hlow := h.low
            simp only [Channel.base, hr, hold, ← hnote, Bool.false_eq_true, if_false, Option.getD_some] at hlow ⊢
            refine ⟨Nat.le_refl _, fun seq hlt => hgrows seq (hlow seq hlt), ?_⟩
            rintro _ ⟨rfl⟩
            exact h.ahead b hold
        | none =>
            have hgapless := Channel.gapless_of_closed h (.inr hold)
            simp only [HarnessConnection.noteAhead, hr, hold, Option.isNone_none, Bool.not_false, Bool.true_and,
              decide_eq_true_eq] at hnote
            simp only [Channel.base, hr, hold, Bool.false_eq_true, if_false, Option.getD_none]
            split at hnote
            · simp only [← hnote, Option.getD_some, Option.some.injEq]
              exact ⟨Nat.le_refl _, fun seq hlt => hgrows seq (hgapless seq hlt), by rintro _ rfl; exact Nat.le_refl _⟩
            · next hle =>
                simp only [← hnote, Option.getD_none]
                refine ⟨hnext, ?_, by simp⟩
                apply gapless_insert hgapless
                intro seq hlt
                exact hgapless seq (by omega)
  refine ⟨hlow, ?_, ?_, by simp, ?_⟩
  · intro b hb
    exact Nat.le_trans (hahead b hb) hnext
  · intro fromSeq hmem
    exact Nat.le_trans (h.sent fromSeq hmem) hbase
  · rintro _ ⟨rfl⟩
    refine ⟨hl.take hwire hbase ?_ ?_, fun hr => Nat.le_trans (hreplied hr) hnext⟩
    · exact horder.2.mono fun seq => (adding_iff seq).mp
    · exact RepliesClose.mono (S := adding store.Has e) hreplies hbase adding_iff

theorem Channel.Sound.events {store : EventStore} {channel : Channel} {link : Link EventPayload}
    (h : channel.Sound history store) (hlink : channel.link = some link) (hwire : link.wire = .events es :: wire) :
    ({ channel with link := some { link with wire := wire }, replied := true } : Channel).Sound history
      (store.insertAll es) := by
  obtain ⟨hl, hreplied⟩ := h.link link hlink
  have horder := hl.order
  have hreplies := hl.replies
  rw [hwire] at horder hreplies
  obtain ⟨hclosing, hreplies⟩ := hreplies
  obtain ⟨hgapless, hannounced⟩ := hclosing.gapless h.low
  have hnext : store.nextSeq ≤ (store.insertAll es).nextSeq :=
    EventStore.nextSeq_mono fun seq hs => EventStore.has_insertAll.mpr (.inl hs)
  have hbase : channel.base store ≤ (store.insertAll es).nextSeq := Nat.le_trans (Channel.base_le h) hnext
  refine ⟨hgapless, ?_, ?_, by simp, ?_⟩
  · intro b hb
    exact Nat.le_trans (h.ahead b hb) hnext
  · intro fromSeq hmem
    exact Nat.le_trans (h.sent fromSeq hmem) hbase
  · rintro _ ⟨rfl⟩
    refine ⟨hl.take hwire hbase ?_ ?_, fun _ => hannounced⟩
    · exact LiveInOrder.mono (S := addingAll store.Has es) horder fun seq => (addingAll_iff seq).mp
    · exact hreplies.mono hbase addingAll_iff

namespace HarnessConnection

variable {s t : HarnessConnection} {act : Act}

theorem Sound.lt (h : s.Sound) {seq : Nat} (hs : s.store.Has seq) : seq < s.history.events.length := by
  obtain ⟨e, he, rfl⟩ := EventStore.has_iff.mp hs
  exact (h.has e he).lt

theorem Sound.setChannel (h : s.Sound) {channel : Channel} (hc : channel.Sound s.history s.store) :
    { s with channel := some channel }.Sound where
  has := h.has
  idle := by simp
  channel := by
    rintro _ ⟨rfl⟩
    exact hc

theorem Channel.Sound.setLink {channel : Channel} {link : Link EventPayload} (h : channel.Sound s.history s.store)
    (hl : link.Sound s.history s.store (channel.base s.store) ∧
      (channel.replied = true → link.announced ≤ s.store.nextSeq)) :
    ({ channel with link := some link } : Channel).Sound s.history s.store where
  low := h.low
  ahead := h.ahead
  sent := h.sent
  fresh := by simp
  link := by
    rintro _ ⟨rfl⟩
    exact hl

theorem Sound.requestEvents (h : s.Sound) (hclosed : ∀ channel, s.channel = some channel → channel.closed) :
    s.requestEvents.Sound := by
  rw [HarnessConnection.requestEvents]
  split
  · exact h
  · next channel hchannel =>
      have hc := h.channel channel hchannel
      have hbase : s.store.nextSeq ≤ channel.base s.store :=
        Nat.le_of_eq (Channel.base_of_closed (hclosed channel hchannel)).symm
      split
      · apply h.setChannel
        refine ⟨hc.low, hc.ahead, ?_, hc.fresh, hc.link⟩
        intro fromSeq hmem
        obtain hmem | hmem := List.mem_append.mp hmem
        · exact hc.sent fromSeq hmem
        · rw [List.mem_singleton.mp hmem]
          exact hbase
      · next link hlink =>
          obtain ⟨hl, hreplied⟩ := hc.link link hlink
          exact h.setChannel (Channel.Sound.setLink hc ⟨hl.request hbase, hreplied⟩)

theorem Sound.handleFrame (h : s.Sound) {channel : Channel} {link : Link EventPayload}
    {frame : ServerFrame EventPayload} {wire : List (ServerFrame EventPayload)} (hchannel : s.channel = some channel)
    (hlink : channel.link = some link) (hwire : link.wire = frame :: wire) :
    (s.handleFrame channel { link with wire := wire } frame).Sound := by
  have hc := h.channel channel hchannel
  have hframe := (hc.link link hlink).1.wire frame (by simp [hwire])
  cases frame with
  | event e =>
      refine ⟨?_, by simp [HarnessConnection.handleFrame], ?_⟩
      · intro d hd
        obtain hd | rfl := EventStore.mem_insert hd
        · exact h.has d hd
        · exact hframe d (by simp [ServerFrame.all])
      · rintro _ ⟨rfl⟩
        exact hc.event hlink hwire
  | events es =>
      refine ⟨?_, by simp [HarnessConnection.handleFrame], ?_⟩
      · intro d hd
        obtain hd | hd := EventStore.mem_insertAll hd
        · exact h.has d hd
        · exact hframe d hd
      · rintro _ ⟨rfl⟩
        exact hc.events hlink hwire

theorem sound_start : start.Sound where
  has := by simp [start, EventStore.empty]
  idle _ := EventStore.gapless_empty
  channel := by simp [start]

theorem sound_next (h : s.Sound) (hc : s.holesClose act) (hn : s.next act = some t) : t.Sound := by
  cases act with
  | emit time payload =>
      cases hn
      refine ⟨fun e he => (h.has e he).emit time payload, h.idle, ?_⟩
      intro channel hchannel
      obtain ⟨hlow, hahead, hsent, hfresh, hlink⟩ := h.channel channel hchannel
      refine ⟨hlow, hahead, hsent, hfresh, ?_⟩
      intro link hl
      exact ⟨(hlink link hl).1.emit time payload, (hlink link hl).2⟩
  | connect =>
      simp only [next] at hn
      split at hn
      · next hnone =>
          cases hn
          apply h.setChannel
          exact ⟨h.idle hnone, by simp, by simp, by simp, by simp⟩
      · cases hn
  | accept =>
      obtain ⟨channel, hchannel, hn⟩ := Option.bind_eq_some_iff.mp hn
      have hchan := h.channel channel hchannel
      split at hn
      · next hnone =>
          cases hn
          have hreplied := hchan.fresh hnone
          apply h.setChannel
          refine ⟨hchan.low, hchan.ahead, by simp, by simp, ?_⟩
          rintro _ ⟨rfl⟩
          refine ⟨⟨by simp [Link.accept], Nat.le_refl _, Nat.le_refl _, hchan.sent, ?_, trivial⟩, ?_⟩
          · intro seq hle hlt
            exact absurd (Nat.lt_of_le_of_lt hle hlt) (Nat.lt_irrefl _)
          · intro hr
            rw [hreplied] at hr
            cases hr
      · cases hn
  | push =>
      obtain ⟨channel, hchannel, hn⟩ := Option.bind_eq_some_iff.mp hn
      obtain ⟨link, hlink, hn⟩ := Option.bind_eq_some_iff.mp hn
      obtain ⟨link', hpush, rfl⟩ := Option.map_eq_some_iff.mp hn
      have hchan := h.channel channel hchannel
      obtain ⟨hl, hreplied⟩ := hchan.link link hlink
      obtain ⟨hl', heq⟩ := hl.push hpush
      exact h.setChannel (Channel.Sound.setLink hchan ⟨hl', heq ▸ hreplied⟩)
  | reply =>
      obtain ⟨channel, hchannel, hn⟩ := Option.bind_eq_some_iff.mp hn
      obtain ⟨link, hlink, hn⟩ := Option.bind_eq_some_iff.mp hn
      obtain ⟨link', hreply, rfl⟩ := Option.map_eq_some_iff.mp hn
      have hchan := h.channel channel hchannel
      obtain ⟨hl, hreplied⟩ := hchan.link link hlink
      obtain ⟨hl', heq⟩ := hl.reply (fun seq => h.lt) hreply
      exact h.setChannel (Channel.Sound.setLink hchan ⟨hl', heq ▸ hreplied⟩)
  | authOk writesKey =>
      obtain ⟨channel, hchannel, hn⟩ := Option.bind_eq_some_iff.mp hn
      split at hn
      · have hchan := h.channel channel hchannel
        have hwelcomed : { s with channel := some { channel with welcomed := true } }.Sound :=
          h.setChannel ⟨hchan.low, hchan.ahead, hchan.sent, hchan.fresh, hchan.link⟩
        cases writesKey with
        | true =>
            cases hn
            exact ⟨hwelcomed.has, hwelcomed.idle, hwelcomed.channel⟩
        | false =>
            cases hn
            apply hwelcomed.requestEvents
            rintro _ ⟨rfl⟩
            exact hc channel hchannel
      · cases hn
  | written =>
      simp only [next] at hn
      split at hn
      · cases hn
        have hless : { s with writing := s.writing - 1 }.Sound := ⟨h.has, h.idle, h.channel⟩
        exact hless.requestEvents hc
      · cases hn
  | frame =>
      obtain ⟨channel, hchannel, hn⟩ := Option.bind_eq_some_iff.mp hn
      obtain ⟨link, hlink, hn⟩ := Option.bind_eq_some_iff.mp hn
      split at hn
      · cases hn
      · next frame wire hwire =>
          split at hn
          · cases hn
            exact h.handleFrame hchannel hlink hwire
          · cases hn
  | lose =>
      simp only [next] at hn
      split at hn
      · cases hn
      · next channel hchannel =>
          cases hn
          refine ⟨h.has, ?_, by simp⟩
          intro _
          exact Channel.gapless_of_closed (h.channel channel hchannel) (hc channel hchannel)

def checked (s : HarnessConnection) : Act → Bool
  | .authOk false | .written | .lose => s.channel.all fun channel => channel.replied || channel.ahead.isNone
  | _ => true

def tells (text : String) : Act := .emit ⟨0, none⟩ (.assistantText topLevelAgentId text)

end HarnessConnection

end Silo.Clients
