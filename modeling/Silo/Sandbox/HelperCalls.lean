import Silo.Sandbox.HelperReplies

namespace Silo.Sandbox.HelperSession

open Silo.Lib Silo.Harness

variable {s t : HelperSession} {n m i : Nat} {reply : Reply} {debug : HelperPayload → String}

theorem counted_start : Counted start := by
  constructor
  · intro n hn
    rfl
  · intro ho
    exact Nat.zero_le _
  · intro ho
    cases ho
  · intro e he
    cases he
  · exact List.nodup_nil
  · intro hr
    simp [start] at hr

theorem Counted.keep (h : Counted s) (hdrawn : t.drawn = s.drawn) (howner : t.owner = s.owner)
    (hcompleted : t.completed = s.completed) (hfresh : ∀ n, s.calls n = .unborn → t.calls n = .unborn)
    (hdone : ∀ n, (s.calls n).stage.done = true → (t.calls n).stage = (s.calls n).stage)
    (htaken : t.reader = .ended ∨ (∃ waiters, t.reader = .draining waiters) → t.pending = none) : Counted t := by
  constructor
  · intro n hn
    exact hfresh n (h.fresh n (hdrawn ▸ hn))
  · intro ho
    rw [hdrawn]
    exact h.first (howner ▸ ho)
  · intro ho n
    have hd := h.idle (howner ▸ ho) n
    rwa [hdone n hd]
  · intro e he
    have hr := h.returned e (hcompleted ▸ he)
    rw [hdone e.1 (by rw [hr]; rfl), hr]
  · rw [hcompleted]
    exact h.completions
  · exact htaken

theorem Counted.complete (h : Counted s) (hn : (s.calls n).stage.done = false) :
    Counted (s.complete n reply) := by
  have hne {m : Nat} (hm : (s.calls m).stage.done = true) : m ≠ n := by
    rintro rfl
    rw [hn] at hm
    cases hm
  constructor
  · intro m hm
    have hm := h.fresh m hm
    simp [HelperSession.complete, setStage, setCall, hne (m := m) (by rw [hm]; rfl), hm]
  · exact h.first
  · intro ho m
    have hm := h.idle ho m
    simpa [HelperSession.complete, hne hm] using hm
  · intro e he
    obtain he | he := List.mem_append.mp he
    · have hr := h.returned e he
      simpa [HelperSession.complete, hne (m := e.1) (by rw [hr]; rfl)] using hr
    · rw [List.mem_singleton.mp he]
      simp [HelperSession.complete]
  · simp only [HelperSession.complete, List.map_append, List.map_cons, List.map_nil]
    apply List.nodup_append.mpr
    refine ⟨h.completions, List.pairwise_singleton .., ?_⟩
    intro m hm k hk
    obtain ⟨e, he, rfl⟩ := List.mem_map.mp hm
    rw [List.mem_singleton.mp hk]
    exact hne (by rw [h.returned e he]; rfl)
  · exact h.taken

theorem Counted.congr (h : Counted s) (hc : t.calls = s.calls) (hdrawn : t.drawn = s.drawn)
    (howner : t.owner = s.owner) (hcompleted : t.completed = s.completed) (hr : t.reader = s.reader)
    (hp : t.pending = s.pending) : Counted t := by
  apply h.keep hdrawn howner hcompleted
  · intro n hn
    rwa [hc]
  · intro n hn
    rw [hc]
  · rw [hr, hp]
    exact h.taken

theorem counted_setStage {stage : Stage} (h : Counted s) (hn : (s.calls n).stage.done = false) :
    Counted (s.setStage n stage) := by
  have hne {m : Nat} (hm : (s.calls m).stage.done = true) : m ≠ n := by
    rintro rfl
    rw [hn] at hm
    cases hm
  refine h.keep rfl rfl rfl ?_ ?_ h.taken
  · intro m hm
    simp [setStage, setCall, hne (m := m) (by rw [hm]; rfl), hm]
  · intro m hm
    simp [hne hm]

theorem counted_setSlot {slot : Slot} (h : Counted s) (hn : (s.calls n).stage ≠ .unborn) :
    Counted (s.setSlot n slot) := by
  refine h.keep rfl rfl rfl ?_ ?_ h.taken
  · intro m hm
    have hne : m ≠ n := by
      rintro rfl
      rw [hm] at hn
      exact hn rfl
    simp [setSlot, setCall, hne, hm]
  · intro m hm
    simp

theorem Held.born (h : Held s) (hn : n ∈ s.senders) : (s.calls n).stage ≠ .unborn := by
  intro hu
  have hstarted := (h.usable n hn).1
  rw [hu] at hstarted
  cases hstarted

theorem counted_discard (h : Counted s) (hh : Held s) (id : UInt64) : Counted (s.discard id) := by
  obtain ⟨hd, -⟩ | ⟨map, m, hp, hl, hd⟩ := discard_cases s id
  · rwa [hd]
  · rw [hd]
    have hmem : m ∈ s.senders := by
      obtain ⟨before, after, rfl, -⟩ := List.lookup_eq_some_iff.mp hl
      simp [senders, entries, hp]
    have hset : Counted (s.setSlot m .dropped) := counted_setSlot h (hh.born hmem)
    refine hset.keep rfl rfl rfl (fun _ hn => hn) (fun _ _ => rfl) ?_
    intro hr
    rw [h.taken hr] at hp
    cases hp

theorem counted_register (h : Counted s) (hh : Held s) (hn : (s.calls n).stage = .drawn) :
    Counted (s.register n) := by
  have hborn : (s.calls n).stage ≠ .unborn := by simp [hn]
  rw [register]
  cases hp : s.pending with
  | none =>
      apply (counted_setSlot h hborn).complete
      rw [setSlot_stage, hn]
      rfl
  | some map =>
      have hd := counted_discard h hh (s.calls n).id
      have hs : Counted ((s.discard (s.calls n).id).setStage n .registered) := by
        apply counted_setStage hd
        rw [discard_stage, hn]
        rfl
      refine hs.keep rfl rfl rfl (fun _ hn => hn) (fun _ _ => rfl) ?_
      intro hr
      have hnone := hs.taken hr
      simp only [setStage_pending] at hnone
      simp [hnone]

theorem counted_receive (h : Counted s) (response : HelperResponse) : Counted (s.receive response) := by
  simp only [receive]
  split
  · exact h.congr rfl rfl rfl rfl rfl rfl
  · split
    · exact h.congr rfl rfl rfl rfl rfl rfl
    · exact h.keep rfl rfl rfl (fun _ hn => hn) (fun _ _ => rfl) (by simp)

theorem counted_draw {op : HelperOp} (h : Counted s) (hp : s.owner.permits op s.drawn = true) :
    Counted { s.setCall s.drawn ⟨op, s.nextId, .drawn, .empty⟩ with
      nextId := s.nextId + 1, drawn := s.drawn + 1 } := by
  have hborn := h.fresh s.drawn (Nat.le_refl _)
  constructor
  · intro n hn
    have hlt : s.drawn < n := hn
    simpa [setCall, Nat.ne_of_gt hlt] using h.fresh n (Nat.le_of_lt hlt)
  · intro ho
    have ho : s.owner = .connecting := ho
    simp only [ho, Owner.permits, Bool.and_eq_true, decide_eq_true_eq] at hp
    simp [hp.2]
  · intro ho
    have ho : s.owner.gone = true := ho
    cases hs : s.owner <;> simp [hs, Owner.gone, Owner.permits] at ho hp
  · intro e he
    have hr := h.returned e he
    have hne : e.1 ≠ s.drawn := by
      intro heq
      simp [heq, hborn, Call.unborn] at hr
    simpa [setCall, hne] using hr
  · exact h.completions
  · exact h.taken

theorem counted_pass {owner : Owner} (h : Counted s) (hne : owner ≠ .connecting)
    (hidle : s.idle = true ∨ s.owner = .connecting ∧ (s.calls 0).stage.done = true) :
    Counted { s with owner := owner } := by
  constructor
  · exact h.fresh
  · intro ho
    exact absurd ho hne
  · intro _ n
    by_cases hn : s.drawn ≤ n
    · have hu := h.fresh n hn
      simp [hu, Call.unborn, Stage.done]
    · obtain hi | ⟨ho, hzero⟩ := hidle
      · exact List.all_eq_true.mp hi n (List.mem_range.mpr (by omega))
      · have hfirst := h.first ho
        have hn : n = 0 := by omega
        simpa [hn] using hzero
  · exact h.returned
  · exact h.completions
  · exact h.taken

theorem counted_effect (h : Counted s) (hh : Held s) (he : Effect s t) : Counted t := by
  cases he with
  | draw op hp => exact counted_draw h hp
  | register n hs => exact counted_register h hh hs
  | advance n stage execs requests hold _ _ _ =>
      exact (counted_setStage h (done_of_outstanding hold)).congr rfl rfl rfl rfl rfl rfl
  | unsend n hs =>
      apply counted_setStage (counted_discard h hh _)
      rw [discard_stage, hs]
      rfl
  | finish n reply hs =>
      have hset : Counted (s.complete n reply) := h.complete (by rw [hs]; rfl)
      exact hset.congr rfl rfl rfl rfl rfl rfl
  | write => exact h.congr rfl rfl rfl rfl rfl rfl
  | receive response => exact counted_receive h response
  | streamEnd => exact h.keep rfl rfl rfl (fun _ hn => hn) (fun _ _ => rfl) (by simp)
  | deliver response waiter hr =>
      have hmem : waiter ∈ s.senders := by simp [senders, hr, Reader.waiters]
      have hset : Counted (s.setSlot waiter (.sent response.reply)) := counted_setSlot h (hh.born hmem)
      exact hset.keep rfl rfl rfl (fun _ hn => hn) (fun _ _ => rfl) (by simp [deliver])
  | take hr =>
      rw [take]
      cases hp : s.pending with
      | none => exact h.keep rfl rfl rfl (fun _ hn => hn) (fun _ _ => rfl) (fun _ => rfl)
      | some map => exact h.keep rfl rfl rfl (fun _ hn => hn) (fun _ _ => rfl) (fun _ => rfl)
  | drain waiters waiter hr hw =>
      have hmem : waiter ∈ s.senders := by simp [senders, hr, Reader.waiters, hw]
      have hset : Counted (s.setSlot waiter (.sent (.error closedError))) := counted_setSlot h (hh.born hmem)
      exact hset.keep rfl rfl rfl (fun _ hn => hn) (fun _ _ => rfl) (fun _ => h.taken (.inr ⟨waiters, hr⟩))
  | readerEnd hr =>
      exact h.keep rfl rfl rfl (fun _ hn => hn) (fun _ _ => rfl) (fun _ => h.taken (.inr ⟨[], hr⟩))
  | pass owner _ hne hidle => exact counted_pass h hne hidle
  | abort => exact h.keep rfl rfl rfl (fun _ hn => hn) (fun _ _ => rfl) (fun _ => rfl)

theorem effect_started (hc : Counted s) (he : Effect s t) (hn : (s.calls n).stage.started = true) :
    (t.calls n).stage.started = true ∧ (t.calls n).id = (s.calls n).id := by
  cases he with
  | draw op =>
      have hne : n ≠ s.drawn := by
        rintro rfl
        rw [hc.fresh s.drawn (Nat.le_refl _)] at hn
        cases hn
      simpa [setCall, hne] using hn
  | register m =>
      rw [register]
      cases s.pending with
      | none =>
          simp only [HelperSession.complete, setStage_stage, setStage_id, setSlot_stage, setSlot_id, and_true]
          split
          · rfl
          · exact hn
      | some map =>
          simp only [setStage_stage, setStage_id, discard_stage, discard_id, and_true]
          split
          · rfl
          · exact hn
  | advance m stage execs requests _ hnew =>
      simp only [setStage_stage, setStage_id, and_true]
      split
      · exact hnew
      · exact hn
  | unsend m =>
      simp only [unsend, setStage_stage, setStage_id, discard_stage, discard_id, and_true]
      split
      · rfl
      · exact hn
  | finish m reply =>
      simp only [finish, HelperSession.complete, setStage_stage, setStage_id, and_true]
      split
      · rfl
      · exact hn
  | write | streamEnd | readerEnd | pass | abort => exact ⟨hn, rfl⟩
  | receive response =>
      simp only [receive]
      split
      · exact ⟨hn, rfl⟩
      · split <;> exact ⟨hn, rfl⟩
  | deliver response waiter =>
      simp only [deliver, setSlot_stage, setSlot_id, and_true]
      exact hn
  | take =>
      rw [take]
      split <;> exact ⟨hn, rfl⟩
  | drain waiters waiter =>
      simp only [drain, setSlot_stage, setSlot_id, and_true]
      exact hn

theorem effect_deliveries (he : Effect s t) : t.deliveries = s.deliveries ∨
    ∃ waiter ∈ s.reader.waiters, t.deliveries = s.deliveries ++ [(s.received.length - 1, waiter)] := by
  cases he with
  | deliver response waiter hr => exact .inr ⟨waiter, by simp [hr, Reader.waiters], rfl⟩
  | register n =>
      rw [register]
      cases s.pending with
      | none => exact .inl rfl
      | some map => exact .inl (discard_same s _).2.2
  | unsend n => exact .inl (discard_same s _).2.2
  | receive response =>
      simp only [receive]
      split
      · exact .inl rfl
      · split <;> exact .inl rfl
  | take =>
      rw [take]
      split <;> exact .inl rfl
  | draw | advance | finish | write | streamEnd | drain | readerEnd | pass | abort => exact .inl rfl

/-- After its reader has ended a session neither receives nor delivers. -/
theorem effect_ended (hr : s.reader = .ended) (he : Effect s t) :
    t.reader = .ended ∧ t.received = s.received ∧ t.deliveries = s.deliveries := by
  cases he with
  | register n =>
      rw [register]
      cases s.pending with
      | none => exact ⟨hr, rfl, rfl⟩
      | some map =>
          obtain ⟨hr', hrec, hd⟩ := discard_same s (s.calls n).id
          exact ⟨hr'.trans hr, hrec, hd⟩
  | unsend n =>
      obtain ⟨hr', hrec, hd⟩ := discard_same s (s.calls n).id
      exact ⟨hr'.trans hr, hrec, hd⟩
  | draw | advance | finish | write | pass => exact ⟨hr, rfl, rfl⟩
  | receive _ h | streamEnd h | deliver _ _ h | take h | drain _ _ h | readerEnd h | abort _ h =>
      rw [hr] at h
      cases h

/-- The invariant of a session. -/
structure Sound (s : HelperSession) : Prop where
  held : Held s
  traced : Traced s
  counted : Counted s
  addressed : ∀ d ∈ s.deliveries, (s.calls d.2).stage.started = true

theorem sound_start : Sound start := by
  refine ⟨held_start, traced_start, counted_start, ?_⟩
  intro d hd
  cases hd

theorem Sound.next {l : Label} (h : Sound s) (hn : s.next debug l = some t) : Sound t := by
  have he := effect_of_next hn
  refine ⟨held_effect h.held h.counted he, traced_effect h.traced h.held h.counted he,
    counted_effect h.counted h.held he, ?_⟩
  intro d hd
  apply (effect_started h.counted he ?_).1
  obtain hsame | ⟨waiter, hw, hmore⟩ := effect_deliveries he
  · exact h.addressed d (hsame ▸ hd)
  · rw [hmore] at hd
    obtain hd | hd := List.mem_append.mp hd
    · exact h.addressed d hd
    · rw [List.mem_singleton.mp hd]
      exact (h.held.usable waiter (List.mem_append_right _ hw)).1

theorem sound_of_reachable (h : (machine debug).Reachable s) : Sound s := by
  refine h.invariant ?_ fun hs _ hn => hs.next hn
  rintro s rfl
  exact sound_start

/-- What came of the calls so far: none has returned twice, a reply other than
the closing error was delivered to its call by a response with the call's id, and
no response was delivered twice. -/
structure Correlated (s : HelperSession) : Prop where
  once : (s.completed.map Prod.fst).Nodup
  own : ∀ n reply, (n, reply) ∈ s.completed → reply ≠ .error closedError → ∃ i, s.Delivered i n reply
  single : (s.deliveries.map Prod.fst).Nodup

/-- A session whose reader has ended: no call is left in the map or without a
reply, one about to register is turned away at once, and from then on the calls
return only the closing error and what had been delivered to them before. -/
structure Closed (debug : HelperPayload → String) (s : HelperSession) : Prop where
  emptied : s.pending = none
  failed : ∀ n, (s.calls n).stage.outstanding = true → ∃ reply, (s.calls n).slot.reply? = some reply ∧
    (reply = .error closedError ∨ ∃ i, s.Delivered i n reply)
  refuses : ∀ n, (s.calls n).stage = .drawn → ∃ t, s.next debug (.register n) = some t ∧
    (n, .error closedError) ∈ t.completed
  later : ∀ t, (machine debug).RunsTo (fun _ _ => True) s t → t.pending = none ∧
    ∀ n reply, (n, reply) ∈ t.completed → reply = .error closedError ∨
      (s.calls n).stage.started = true ∧ ∃ i, s.Delivered i n reply

theorem Sound.completed (h : Sound s) (hc : (n, reply) ∈ s.completed) : s.Accounted n reply :=
  h.traced.stages n reply (.inr (h.counted.returned (n, reply) hc))

theorem Sound.correlated (h : Sound s) : Correlated s := by
  refine ⟨h.counted.completions, ?_, h.traced.single⟩
  intro n reply hc hne
  exact (h.completed hc).resolve_left hne

theorem Sound.replied (h : Sound s) (hr : s.reader = .ended) (hn : (s.calls n).stage.outstanding = true) :
    ∃ reply, (s.calls n).slot.reply? = some reply := by
  have hp := h.counted.taken (.inl hr)
  cases hslot : (s.calls n).slot with
  | empty =>
      have hmem := h.held.kept n hn hslot
      simp [senders, entries, hp, hr, Reader.waiters] at hmem
  | sent reply => exact ⟨reply, rfl⟩
  | dropped => exact ⟨_, rfl⟩

/-- `t` comes after `s`, whose reader had ended. -/
structure After (s t : HelperSession) : Prop where
  sound : Sound t
  reader : t.reader = .ended
  received : t.received = s.received
  deliveries : t.deliveries = s.deliveries
  ids : ∀ n, (s.calls n).stage.started = true →
    (t.calls n).stage.started = true ∧ (t.calls n).id = (s.calls n).id

theorem After.next {u : HelperSession} {l : Label} (h : After s t) (hn : t.next debug l = some u) :
    After s u := by
  have he := effect_of_next hn
  obtain ⟨hr, hrec, hd⟩ := effect_ended h.reader he
  refine ⟨h.sound.next hn, hr, hrec.trans h.received, hd.trans h.deliveries, ?_⟩
  intro n hs
  obtain ⟨hstarted, hid⟩ := h.ids n hs
  obtain ⟨hstarted', hid'⟩ := effect_started h.sound.counted he hstarted
  exact ⟨hstarted', hid'.trans hid⟩

theorem after_of_runsTo (h : Sound s) (hr : s.reader = .ended)
    (hruns : (machine debug).RunsTo (fun _ _ => True) s t) : After s t := by
  have hs : After s s := ⟨h, hr, rfl, rfl, fun _ hn => ⟨hn, rfl⟩⟩
  exact hruns.invariant (fun ha _ hn => ha.next hn) hs

theorem After.completed (h : After s t) (hs : Sound s) (hc : (n, reply) ∈ t.completed) :
    reply = .error closedError ∨ (s.calls n).stage.started = true ∧ ∃ i, s.Delivered i n reply := by
  obtain hclosed | ⟨i, hmem, response, hi, hid, hreply⟩ := h.sound.completed hc
  · exact .inl hclosed
  · rw [h.deliveries] at hmem
    rw [h.received] at hi
    have hstarted := hs.addressed (i, n) hmem
    rw [(h.ids n hstarted).2] at hid
    exact .inr ⟨hstarted, i, hmem, response, hi, hid, hreply⟩

theorem Sound.closed (h : Sound s) (hr : s.reader = .ended) : Closed debug s := by
  have hp := h.counted.taken (.inl hr)
  constructor
  · exact hp
  · intro n hn
    obtain ⟨reply, hreply⟩ := h.replied hr hn
    exact ⟨reply, hreply, h.traced.accounted hreply⟩
  · intro n hn
    refine ⟨s.register n, if_pos hn, ?_⟩
    simp [register, hp, HelperSession.complete]
  · intro t hruns
    have ha := after_of_runsTo h hr hruns
    refine ⟨ha.sound.counted.taken (.inl ha.reader), ?_⟩
    intro n reply hc
    exact ha.completed h hc

theorem requests_correlated (h : (machine debug).Reachable s) :
    Correlated s ∧ (s.reader = .ended → Closed debug s) :=
  ⟨(sound_of_reachable h).correlated, (sound_of_reachable h).closed⟩

/-- The stream ends with one of two concurrent reads unanswered, after the other
was answered twice. -/
theorem requests_correlated_at_end : ∃ s, (machine fun _ => "").Reachable s ∧
    (s.reader = .ended ∧ s.completed.length = 2 ∧ (s.calls 2).stage = .waiting) ∧
    Correlated s ∧ (s.reader = .ended → Closed (fun _ => "") s) := by
  let reads : List Label :=
    [.draw (.readFile "a" none none), .draw (.readFile "b" none none), .register 1, .register 2, .track 2,
      .track 1, .send 1, .send 2]
  let replies : List Label :=
    [.receive ⟨1, .error "gone"⟩, .deliver, .receive ⟨1, .ok .ack⟩, .hear 1, .streamEnd, .finish 1, .take,
      .drain 2, .readerEnd]
  obtain ⟨s, hs, hp⟩ := Machine.exists_of_run (M := machine fun _ => "") (s := start)
    ([Label.draw .hello, .register 0, .track 0, .send 0, .write, .receive ⟨0, .ok (.hello "0.1.0" 42)⟩, .deliver,
      .hear 0, .finish 0, .handshake] ++ reads ++ replies)
    (fun s => decide (s.reader = .ended ∧ s.completed.length = 2 ∧ (s.calls 2).stage = .waiting)) rfl
    rfl
  exact ⟨s, hs, of_decide_eq_true hp, requests_correlated hs⟩

end Silo.Sandbox.HelperSession
