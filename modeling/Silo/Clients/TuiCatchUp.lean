import Silo.Clients.Tui

namespace Silo.Clients

open Silo.Lib Silo.Core Silo.Harness

variable {history : History EventPayload}

def ServerFrame.allOf (frames : List (ServerFrame EventPayload)) : List (Event EventPayload) :=
  frames.flatMap ServerFrame.all

open ServerFrame

/-- What is on the wire takes a client that has the first `q` events to `w` without a gap,
and so do the requests that wait and the events that the pump has still to send. -/
structure Link.Flows (history : History EventPayload) (q w : Nat) (link : Link EventPayload) : Prop where
  has : ∀ e ∈ allOf link.wire, history.Has e
  wire : advance q (allOf link.wire) = some w
  bound : w ≤ history.events.length
  live : link.nextLive ≤ history.events.length
  answered : link.requests = [] → link.nextLive ≤ w
  requests : ∀ fromSeq ∈ link.requests, fromSeq ≤ w ∧ (link.announced ≤ fromSeq → link.nextLive ≤ w)

namespace Link

variable {link link' : Link EventPayload} {q w : Nat}

theorem Flows.emit (h : link.Flows history q w) (time : Timestamp) (payload : EventPayload) :
    link.Flows (history.emit time payload) q w where
  has e he := (h.has e he).emit time payload
  wire := h.wire
  bound := by
    have := h.bound
    rw [History.length_emit]
    omega
  live := by
    have := h.live
    rw [History.length_emit]
    omega
  answered := h.answered
  requests := h.requests

theorem flows_request (hq : q ≤ history.events.length) :
    ((Link.accept history).request q).Flows history q q where
  has := by simp [accept, request, allOf]
  wire := rfl
  bound := hq
  live := Nat.le_refl _
  answered := by simp [accept, request]
  requests := by
    intro fromSeq hmem
    simp only [accept, request, List.nil_append, List.mem_singleton] at hmem ⊢
    subst hmem
    exact ⟨Nat.le_refl _, id⟩

theorem Flows.push (h : link.Flows history q w)
    (hprompt : ∀ fromSeq ∈ link.requests, link.announced ≤ fromSeq) (hp : link.push history = some link') :
    ∃ w', link'.Flows history q w' := by
  obtain ⟨e, he, rfl⟩ := Option.map_eq_some_iff.mp hp
  have hseq := history.seqs _ e he
  have hlt := (List.getElem?_eq_some_iff.mp he).1
  have hle : link.nextLive ≤ w := by
    cases hrequests : link.requests with
    | nil => exact h.answered hrequests
    | cons fromSeq requests =>
        have hmem : fromSeq ∈ link.requests := by simp [hrequests]
        exact (h.requests fromSeq hmem).2 (hprompt fromSeq hmem)
  have hbound := h.bound
  have hwire : allOf (link.wire ++ [.event e]) = allOf link.wire ++ [e] := by
    simp [allOf, ServerFrame.all]
  refine ⟨max w (link.nextLive + 1), ?_, ?_, by omega, hlt, ?_, ?_⟩
  · rw [hwire]
    intro d hd
    obtain hd | hd := List.mem_append.mp hd
    · exact h.has d hd
    · rw [List.mem_singleton.mp hd]
      exact History.has_of_getElem? he
  · simp [hwire, advance_append, h.wire, advance, fit, hseq, hle]
  · intro _
    simp only
    omega
  · intro fromSeq hmem
    have := h.requests fromSeq hmem
    exact ⟨by omega, fun _ => by simp only; omega⟩

theorem Flows.reply (h : link.Flows history q w) (hr : link.reply history = some link') :
    ∃ w', link'.Flows history q w' := by
  rw [Link.reply] at hr
  split at hr
  · cases hr
  · next fromSeq requests hrequests =>
      cases hr
      have hfrom := (h.requests fromSeq (by simp [hrequests])).1
      have hwire : allOf (link.wire ++ [ServerFrame.events (history.since fromSeq)]) =
          allOf link.wire ++ history.since fromSeq := by
        simp [allOf, ServerFrame.all]
      refine ⟨history.events.length, ?_, ?_, Nat.le_refl _, h.live, fun _ => h.live, ?_⟩
      · rw [hwire]
        intro d hd
        obtain hd | hd := List.mem_append.mp hd
        · exact h.has d hd
        · exact History.has_of_mem_since hd
      · simp only [hwire, advance_append, h.wire, Option.bind_some]
        exact advance_since history hfrom h.bound
      · intro other hmem
        have hother := (h.requests other (by simp [hrequests, hmem])).1
        have := h.bound
        exact ⟨by omega, fun _ => h.live⟩

theorem Flows.take {frame : ServerFrame EventPayload} {wire : List (ServerFrame EventPayload)}
    (h : link.Flows history q w) (hwire : link.wire = frame :: wire) :
    ∃ q', advance q frame.all = some q' ∧ ({ link with wire := wire } : Link EventPayload).Flows history q' w := by
  have hall : allOf link.wire = frame.all ++ allOf wire := by simp [hwire, allOf]
  have hadvance := h.wire
  rw [hall, advance_append] at hadvance
  obtain ⟨q', hq', hadvance⟩ := Option.bind_eq_some_iff.mp hadvance
  refine ⟨q', hq', ?_, hadvance, h.bound, h.live, h.answered, h.requests⟩
  intro e he
  exact h.has e (by rw [hall]; exact List.mem_append_right _ he)

end Link

namespace Tui

variable {s t : Tui} {act : Act}

/-- No live event is sent before the backlog reply, unless nothing is missing before it. -/
def replyFirst (s : Tui) : Act → Prop
  | .push => ∀ link, s.link = some link → ∀ fromSeq ∈ link.requests, link.announced ≤ fromSeq
  | _ => True

def queued (s : Tui) : List (Event EventPayload) := allOf (s.queue.map Prod.snd)

/-- The app has the first `k` events, and gets to `q` with what the network task has
handed on. -/
structure Sound (s : Tui) (k q : Nat) : Prop where
  app : s.app.Agrees s.history k
  received : ∀ e ∈ s.received, e.seq < k
  has : ∀ e ∈ s.queued, s.history.Has e
  queue : advance k s.queued = some q
  lastSeq : s.lastSeq = last q
  bound : q ≤ s.history.events.length
  link : ∀ link, s.link = some link → ∃ w, link.Flows s.history q w

theorem Sound.complete {k q : Nat} (h : s.Sound k q) : s.Complete where
  applied := by
    rw [h.app.applied]
    exact List.take_prefix _ _
  received e he := by
    have := h.received e he
    have := h.app.bound
    simp only [h.app.applied, List.length_take]
    omega

theorem last_elim (q : Nat) : (last q).elim 0 (· + 1) = q := by cases q <;> rfl

theorem sound_start : start.Sound 0 0 where
  app := ⟨Nat.le_refl _, rfl, rfl⟩
  received := by simp [start]
  has := by simp [start, queued, allOf]
  queue := rfl
  lastSeq := rfl
  bound := Nat.le_refl _
  link := by simp [start]

theorem Sound.setLink {k q : Nat} {link : Option (Link EventPayload)} (h : s.Sound k q)
    (hlink : ∀ l, link = some l → ∃ w, l.Flows s.history q w) : { s with link := link }.Sound k q where
  app := h.app
  received := h.received
  has := h.has
  queue := h.queue
  lastSeq := h.lastSeq
  bound := h.bound
  link := hlink

theorem Sound.receive {k q w : Nat} {link : Link EventPayload} {frame : ServerFrame EventPayload}
    {wire : List (ServerFrame EventPayload)} (h : s.Sound k q) (hflows : link.Flows s.history q w)
    (hwire : link.wire = frame :: wire) : ∃ q', (s.receive link frame wire).Sound k q' := by
  obtain ⟨q', hq', hrest⟩ := hflows.take hwire
  have hqueued : (s.receive link frame wire).queued = s.queued ++ frame.all := by
    simp [queued, Tui.receive, allOf]
  refine ⟨q', h.app, h.received, ?_, ?_, ?_, ?_, ?_⟩
  · rw [hqueued]
    intro e he
    obtain he | he := List.mem_append.mp he
    · exact h.has e he
    · exact hflows.has e (by simp [hwire, allOf, he])
  · rw [hqueued, advance_append, h.queue]
    exact hq'
  · simp only [Tui.receive, trackSeq, h.lastSeq]
    exact foldl_observe hq'
  · exact Nat.le_trans (le_of_advance hrest.wire).1 hrest.bound
  · intro l hl
    cases hl
    exact ⟨w, hrest⟩

theorem Sound.handle {k q conn : Nat} {frame : ServerFrame EventPayload}
    {queue : List (Nat × ServerFrame EventPayload)} (h : s.Sound k q) (hqueue : s.queue = (conn, frame) :: queue) :
    ∃ k', (s.handle conn frame queue).Sound k' q := by
  have hqueued : s.queued = frame.all ++ allOf (queue.map Prod.snd) := by simp [queued, hqueue, allOf]
  have hadvance := h.queue
  rw [hqueued, advance_append] at hadvance
  obtain ⟨k', hk', hadvance⟩ := Option.bind_eq_some_iff.mp hadvance
  have hframe : ∀ e ∈ frame.all, s.history.Has e := by
    intro e he
    exact h.has e (by rw [hqueued]; exact List.mem_append_left _ he)
  obtain ⟨hle, hlt⟩ := le_of_advance hk'
  refine ⟨k', h.app.handleServer hframe hk', ?_, ?_, hadvance, h.lastSeq, h.bound, h.link⟩
  · intro e he
    obtain he | he := List.mem_append.mp he
    · exact Nat.lt_of_lt_of_le (h.received e he) hle
    · exact hlt e he
  · intro e he
    exact h.has e (by rw [hqueued]; exact List.mem_append_right _ he)

theorem sound_next {k q : Nat} (h : s.Sound k q) (hc : s.replyFirst act) (hn : s.next act = some t) :
    ∃ k q, t.Sound k q := by
  cases act with
  | emit time payload =>
      cases hn
      refine ⟨k, q, h.app.emit time payload, h.received, ?_, h.queue, h.lastSeq, ?_, ?_⟩
      · intro e he
        exact (h.has e he).emit time payload
      · have := h.bound
        simp only [History.length_emit]
        omega
      · intro link hlink
        obtain ⟨w, hw⟩ := h.link link hlink
        exact ⟨w, hw.emit time payload⟩
  | connect =>
      simp only [next] at hn
      split at hn
      · cases hn
        refine ⟨k, q, h.app, h.received, h.has, h.queue, h.lastSeq, h.bound, ?_⟩
        intro link hlink
        cases hlink
        rw [h.lastSeq, last_elim]
        exact ⟨q, Link.flows_request h.bound⟩
      · cases hn
  | push =>
      obtain ⟨link, hlink, hn⟩ := Option.bind_eq_some_iff.mp hn
      obtain ⟨link', hpush, rfl⟩ := Option.map_eq_some_iff.mp hn
      obtain ⟨w, hw⟩ := h.link link hlink
      refine ⟨k, q, h.setLink ?_⟩
      rintro l ⟨rfl⟩
      exact hw.push (hc link hlink) hpush
  | reply =>
      obtain ⟨link, hlink, hn⟩ := Option.bind_eq_some_iff.mp hn
      obtain ⟨link', hreply, rfl⟩ := Option.map_eq_some_iff.mp hn
      obtain ⟨w, hw⟩ := h.link link hlink
      refine ⟨k, q, h.setLink ?_⟩
      rintro l ⟨rfl⟩
      exact hw.reply hreply
  | receive =>
      simp only [next] at hn
      split at hn
      · cases hn
      · next link hlink =>
          split at hn
          · cases hn
          · next frame wire hwire =>
              cases hn
              obtain ⟨w, hw⟩ := h.link link hlink
              obtain ⟨q', hq'⟩ := h.receive hw hwire
              exact ⟨k, q', hq'⟩
  | handle =>
      simp only [next] at hn
      split at hn
      · cases hn
      · next conn frame queue hqueue =>
          cases hn
          obtain ⟨k', hk'⟩ := h.handle hqueue
          exact ⟨k', q, hk'⟩
  | lose =>
      simp only [next] at hn
      split at hn
      · cases hn
      · cases hn
        exact ⟨k, q, h.setLink (by simp)⟩

/-- When every backlog reply comes before the live events of its connection, the app has
at all times the events up to the highest it received. -/
theorem tui_catch_up_complete (hr : machine.ReachableUnder replyFirst s) : s.Complete := by
  obtain ⟨k, q, h⟩ : ∃ k q, s.Sound k q := by
    apply hr.invariant (I := fun s => ∃ k q, s.Sound k q)
    · rintro _ rfl
      exact ⟨0, 0, sound_start⟩
    · rintro s u l ⟨k, q, h⟩ hc hn
      exact sound_next h hc hn
  exact h.complete

def checked (s : Tui) : Act → Bool
  | .push => s.link.all fun link => link.requests.all fun fromSeq => link.announced ≤ fromSeq
  | _ => true

theorem replyFirst_of_checked (s : Tui) (act : Act) (h : s.checked act = true) : s.replyFirst act := by
  cases act with
  | push =>
      intro link hlink fromSeq hmem
      simp only [checked, hlink, Option.all_some, List.all_eq_true, decide_eq_true_eq] at h
      exact h fromSeq hmem
  | _ => trivial

def tells (text : String) : Act := .emit ⟨0, none⟩ (.assistantText topLevelAgentId text)

theorem tui_catch_up_complete_reconnect :
    ∃ s, machine.ReachableUnder replyFirst s ∧ s.current ∧ s.app.applied.length = 4 ∧ s.Complete := by
  obtain ⟨s, hr, hp⟩ := Machine.exists_of_runChecked checked
    [tells "a", tells "b", .connect, .reply, tells "c", .receive, .lose, .connect, .reply, tells "d", .push, .receive,
      .receive, .handle, .handle, .handle]
    (fun s => s.link.isSome && decide (s.caughtUp = some s.conn) && decide (s.app.applied.length = 4))
    (s := start) (M := machine) rfl rfl
  simp only [Bool.and_eq_true, decide_eq_true_eq] at hp
  have hr := hr.mono replyFirst_of_checked
  exact ⟨s, hr, hp.1, hp.2, tui_catch_up_complete hr⟩

/-- A live event that overtakes the backlog reply makes the app skip the backlog. -/
theorem live_event_hides_backlog : ∃ s, machine.Reachable s ∧ s.current ∧ ¬ s.Complete := by
  obtain ⟨s, hr, hp⟩ := Machine.exists_of_run
    [tells "a", tells "b", .connect, tells "c", .push, .reply, .receive, .receive, .handle, .handle]
    (fun s => s.link.isSome && decide (s.caughtUp = some s.conn) && decide (s.app.applied.map Event.seq = [2]))
    (s := start) (M := machine) rfl rfl
  simp only [Bool.and_eq_true, decide_eq_true_eq] at hp
  refine ⟨s, hr, hp.1, ?_⟩
  intro h
  obtain ⟨rest, hrest⟩ := h.applied
  obtain ⟨e, happlied, hseq⟩ := List.map_eq_singleton_iff.mp hp.2
  have hfirst : s.history.events[0]? = some e := by rw [← hrest, happlied]; rfl
  have := s.history.seqs 0 e hfirst
  omega

end Tui

end Silo.Clients
