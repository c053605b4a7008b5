import Silo.Sandbox.HelperWaiters

namespace Silo.Sandbox.HelperSession

open Silo.Lib Silo.Harness

variable {s t : HelperSession} {n m i : Nat} {id : UInt64} {reply : Reply} {debug : HelperPayload → String}

/-- The response received at `i`-th was delivered to call `n`, and it says `reply`. -/
def Delivered (s : HelperSession) (i n : Nat) (reply : Reply) : Prop :=
  (i, n) ∈ s.deliveries ∧ ∃ response,
    s.received[i]? = some response ∧ response.id = (s.calls n).id ∧ response.reply = reply

/-- `reply` is the closing error or was delivered to call `n`. -/
def Accounted (s : HelperSession) (n : Nat) (reply : Reply) : Prop :=
  reply = .error closedError ∨ ∃ i, s.Delivered i n reply

structure Traced (s : HelperSession) : Prop where
  hand : ∀ response waiter, s.reader = .holding response waiter →
    response.id = (s.calls waiter).id ∧ s.received.getLast? = some response ∧
      ∀ d ∈ s.deliveries, d.1 + 1 < s.received.length
  logged : ∀ d ∈ s.deliveries, d.1 < s.received.length
  single : (s.deliveries.map Prod.fst).Nodup
  slots : ∀ n reply, (s.calls n).slot = .sent reply → s.Accounted n reply
  stages : ∀ n reply, (s.calls n).stage = .settled reply ∨ (s.calls n).stage = .returned reply →
    s.Accounted n reply

theorem Accounted.mono (h : s.Accounted n reply) (hid : (t.calls n).id = (s.calls n).id)
    (hr : s.received <+: t.received) (hd : s.deliveries ⊆ t.deliveries) : t.Accounted n reply := by
  obtain h | ⟨i, hmem, response, hi, hown, hreply⟩ := h
  · exact .inl h
  · refine .inr ⟨i, hd hmem, response, ?_, by rw [hid, hown], hreply⟩
    obtain ⟨rest, hrest⟩ := hr
    obtain ⟨hlt, hget⟩ := List.getElem?_eq_some_iff.mp hi
    rw [← hrest, List.getElem?_append_left hlt, hi]

theorem Traced.keep (h : Traced s) (hid : ∀ n, (t.calls n).id = (s.calls n).id)
    (hreader : ∀ response waiter, t.reader = .holding response waiter → s.reader = .holding response waiter)
    (hr : t.received = s.received) (hd : t.deliveries = s.deliveries)
    (hslots : ∀ n reply, (t.calls n).slot = .sent reply →
      (s.calls n).slot = .sent reply ∨ reply = .error closedError)
    (hstages : ∀ n reply, (t.calls n).stage = .settled reply ∨ (t.calls n).stage = .returned reply →
      ((s.calls n).stage = .settled reply ∨ (s.calls n).stage = .returned reply) ∨ s.Accounted n reply) :
    Traced t := by
  have hmono {n : Nat} {reply : Reply} (ha : s.Accounted n reply) : t.Accounted n reply :=
    ha.mono (hid n) (by simp [hr]) (by rw [hd]; exact fun _ hx => hx)
  constructor
  · intro response waiter hh
    rw [hr, hd, hid]
    exact h.hand response waiter (hreader response waiter hh)
  · rw [hr, hd]
    exact h.logged
  · rw [hd]
    exact h.single
  · intro n reply hs
    obtain hs | rfl := hslots n reply hs
    · exact hmono (h.slots n reply hs)
    · exact .inl rfl
  · intro n reply hs
    obtain hs | ha := hstages n reply hs
    · exact hmono (h.stages n reply hs)
    · exact hmono ha

theorem discard_slot (h : ((s.discard id).calls n).slot = .sent reply) : (s.calls n).slot = .sent reply := by
  obtain ⟨hd, -⟩ | ⟨map, m, -, -, hd⟩ := discard_cases s id
  · rwa [hd] at h
  · rw [hd] at h
    change ((s.setSlot m .dropped).calls n).slot = _ at h
    rw [setSlot_slot] at h
    split at h
    · cases h
    · exact h

theorem discard_same (s : HelperSession) (id : UInt64) : (s.discard id).reader = s.reader ∧
    (s.discard id).received = s.received ∧ (s.discard id).deliveries = s.deliveries := by
  obtain ⟨hd, -⟩ | ⟨map, m, -, -, hd⟩ := discard_cases s id
  · rw [hd]
    exact ⟨rfl, rfl, rfl⟩
  · rw [hd]
    exact ⟨rfl, rfl, rfl⟩

theorem traced_register (h : Traced s) (n : Nat) : Traced (s.register n) := by
  rw [register]
  cases hp : s.pending with
  | none =>
      refine h.keep ?_ (fun _ _ hh => hh) rfl rfl ?_ ?_
      · intro m
        simp [complete]
      · intro m reply hs
        simp only [complete, setStage_slot, setSlot_slot] at hs
        grind
      · intro m reply hs
        simp only [complete, setStage_stage, setSlot_stage] at hs
        split at hs
        · have heq : Except.error closedError = reply := by simpa using hs
          exact .inr (.inl heq.symm)
        · exact .inl hs
  | some map =>
      obtain ⟨hr, hrec, hdel⟩ := discard_same s (s.calls n).id
      refine h.keep ?_ ?_ hrec hdel ?_ ?_
      · intro m
        simp
      · intro response waiter hh
        rw [← hr]
        exact hh
      · intro m reply hs
        simp only [setStage_slot] at hs
        exact .inl (discard_slot hs)
      · intro m reply hs
        simp only [setStage_stage, discard_stage] at hs
        split at hs
        · simp at hs
        · exact .inl hs

theorem traced_unsend (h : Traced s) (n : Nat) : Traced (s.unsend n) := by
  obtain ⟨hr, hrec, hdel⟩ := discard_same s (s.calls n).id
  refine h.keep ?_ ?_ hrec hdel ?_ ?_
  · intro m
    simp [unsend]
  · intro response waiter hh
    rw [← hr]
    exact hh
  · intro m reply hs
    simp only [unsend, setStage_slot] at hs
    exact .inl (discard_slot hs)
  · intro m reply hs
    simp only [unsend, setStage_stage, discard_stage] at hs
    split at hs
    · have heq : Except.error closedError = reply := by simpa using hs
      exact .inr (.inl heq.symm)
    · exact .inl hs

theorem Traced.accounted (h : Traced s) (hs : (s.calls n).slot.reply? = some reply) : s.Accounted n reply := by
  cases hslot : (s.calls n).slot with
  | empty => simp [hslot, Slot.reply?] at hs
  | sent reply' =>
      simp only [hslot, Slot.reply?, Option.some.injEq] at hs
      exact h.slots n reply (hs ▸ hslot)
  | dropped =>
      simp only [hslot, Slot.reply?, Option.some.injEq] at hs
      exact .inl hs.symm

theorem traced_receive (h : Traced s) (hh : Held s) (hr : s.reader = .reading) (response : HelperResponse) :
    Traced (s.receive response) := by
  have hkeep (t : HelperSession) (hc : t.calls = s.calls) (hrec : t.received = s.received ++ [response])
      (hd : t.deliveries = s.deliveries)
      (hhold : ∀ r w, t.reader = .holding r w → r = response ∧ response.id = (s.calls w).id) : Traced t := by
    have hmono {n : Nat} {reply : Reply} (ha : s.Accounted n reply) : t.Accounted n reply :=
      ha.mono (by rw [hc]) (by rw [hrec]; exact List.prefix_append ..) (by rw [hd]; exact fun _ hx => hx)
    constructor
    · intro r w hrw
      obtain ⟨rfl, hid⟩ := hhold r w hrw
      refine ⟨by rw [hc, hid], by simp [hrec], ?_⟩
      intro d hmem
      rw [hd] at hmem
      have hlt := h.logged d hmem
      simp only [hrec, List.length_append, List.length_singleton]
      omega
    · intro d hmem
      rw [hd] at hmem
      have hlt := h.logged d hmem
      simp only [hrec, List.length_append, List.length_singleton]
      omega
    · rw [hd]
      exact h.single
    · intro n reply hs
      rw [hc] at hs
      exact hmono (h.slots n reply hs)
    · intro n reply hs
      rw [hc] at hs
      exact hmono (h.stages n reply hs)
  simp only [receive]
  cases hp : s.pending with
  | none => exact hkeep _ rfl rfl rfl (by simp [hr])
  | some map =>
      dsimp only
      cases hl : map.lookup response.id with
      | none => exact hkeep _ rfl rfl rfl (by simp [hr])
      | some waiter =>
          refine hkeep _ rfl rfl rfl ?_
          intro r w hrw
          cases hrw
          obtain ⟨before, after, rfl, -⟩ := List.lookup_eq_some_iff.mp hl
          exact ⟨rfl, (hh.keyed (response.id, waiter) (by simp [entries, hp])).symm⟩

theorem traced_deliver {response : HelperResponse} (h : Traced s) (hr : s.reader = .holding response n) :
    Traced (s.deliver response n) := by
  obtain ⟨hid, hlast, hbelow⟩ := h.hand response n hr
  have hmono {m : Nat} {reply : Reply} (ha : s.Accounted m reply) : (s.deliver response n).Accounted m reply :=
    ha.mono (setSlot_id ..) (List.prefix_refl _) (List.subset_append_left ..)
  have hlength : 0 < s.received.length := by
    apply List.length_pos_iff.mpr
    rintro hnil
    simp [hnil] at hlast
  constructor
  · intro r w hrw
    cases hrw
  · intro d hd
    obtain hd | hd := List.mem_append.mp hd
    · exact h.logged d hd
    · rw [List.mem_singleton.mp hd]
      exact Nat.sub_lt hlength Nat.one_pos
  · simp only [deliver, List.map_append, List.map_cons, List.map_nil]
    apply List.nodup_append.mpr
    refine ⟨h.single, List.pairwise_singleton .., ?_⟩
    intro i hi j hj
    obtain ⟨d, hd, rfl⟩ := List.mem_map.mp hi
    have hlt := hbelow d hd
    rw [List.mem_singleton.mp hj]
    omega
  · intro m reply hs
    simp only [deliver, setSlot_slot] at hs
    split at hs
    · cases hs
      subst m
      refine .inr ⟨s.received.length - 1, ?_, response, ?_, ?_, rfl⟩
      · simp [deliver]
      · rw [← hlast, List.getLast?_eq_getElem?]
        rfl
      · rw [hid]
        exact (setSlot_id ..).symm
    · exact hmono (h.slots m reply hs)
  · intro m reply hs
    simp only [deliver, setSlot_stage] at hs
    exact hmono (h.stages m reply hs)

theorem traced_start : Traced start := by
  constructor
  · intro response waiter hr
    cases hr
  · intro d hd
    cases hd
  · exact List.nodup_nil
  · intro n reply hs
    cases hs
  · intro n reply hs
    obtain hs | hs := hs <;> cases hs

theorem traced_draw {op : HelperOp} (h : Traced s) (hh : Held s) (hborn : s.calls s.drawn = .unborn) :
    Traced { s.setCall s.drawn ⟨op, s.nextId, .drawn, .empty⟩ with
      nextId := s.nextId + 1, drawn := s.drawn + 1 } := by
  have hother {m : Nat} (hm : m ≠ s.drawn) :
      Function.update s.calls s.drawn ⟨op, s.nextId, .drawn, .empty⟩ m = s.calls m := Function.update_of_ne hm ..
  constructor
  · intro response waiter hr
    have hne : waiter ≠ s.drawn := by
      rintro rfl
      have hu := hh.usable s.drawn (by simp_all [senders, Reader.waiters, setCall])
      simp [hborn, Call.unborn, Stage.started] at hu
    obtain ⟨hid, hrest⟩ := h.hand response waiter hr
    refine ⟨?_, hrest⟩
    simp only [setCall, hother hne, hid]
  · exact h.logged
  · exact h.single
  · intro n reply hs
    by_cases hne : n = s.drawn
    · subst hne
      simp [setCall] at hs
    · simp only [setCall, hother hne] at hs
      exact (h.slots n reply hs).mono (by simp [setCall, hother hne]) (List.prefix_refl _) (fun _ hx => hx)
  · intro n reply hs
    by_cases hne : n = s.drawn
    · subst hne
      simp [setCall] at hs
    · simp only [setCall, hother hne] at hs
      exact (h.stages n reply hs).mono (by simp [setCall, hother hne]) (List.prefix_refl _) (fun _ hx => hx)

theorem traced_effect (h : Traced s) (hh : Held s) (hc : Counted s) (he : Effect s t) : Traced t := by
  cases he with
  | draw op => exact traced_draw h hh (hc.fresh s.drawn (Nat.le_refl _))
  | register n => exact traced_register h n
  | advance n stage execs requests hold hnew hret hset =>
      refine h.keep (setStage_id s n stage) (fun _ _ hr => hr) rfl rfl ?_ ?_
      · intro m reply hs
        exact .inl (by simpa using hs)
      · intro m reply hs
        simp only [setStage_stage] at hs
        split at hs
        · subst m
          exact .inr (h.accounted (hset reply (hs.resolve_right (hret reply))))
        · exact .inl hs
  | unsend n => exact traced_unsend h n
  | finish n reply hs =>
      refine h.keep (setStage_id s n _) (fun _ _ hr => hr) rfl rfl ?_ ?_
      · intro m reply hs
        exact .inl (by simpa [finish, complete] using hs)
      · intro m reply' hs'
        simp only [finish, complete, setStage_stage] at hs'
        split at hs'
        · subst m
          have heq : reply = reply' := by simpa using hs'
          exact .inl (.inl (heq ▸ hs))
        · exact .inl hs'
  | write | pass => exact h.keep (fun _ => rfl) (fun _ _ hr => hr) rfl rfl (fun _ _ => .inl) (fun _ _ => .inl)
  | receive response hr => exact traced_receive h hh hr response
  | streamEnd | readerEnd | abort =>
      exact h.keep (fun _ => rfl) (by simp) rfl rfl (fun _ _ => .inl) (fun _ _ => .inl)
  | deliver response waiter hr => exact traced_deliver h hr
  | take hr =>
      rw [take]
      cases s.pending with
      | none => exact h.keep (fun _ => rfl) (by simp) rfl rfl (fun _ _ => .inl) (fun _ _ => .inl)
      | some map => exact h.keep (fun _ => rfl) (by simp) rfl rfl (fun _ _ => .inl) (fun _ _ => .inl)
  | drain waiters waiter hr hw =>
      refine h.keep (setSlot_id s waiter _) (by simp [drain]) rfl rfl ?_ ?_
      · intro m reply hs
        simp only [drain, setSlot_slot] at hs
        grind
      · intro m reply hs
        exact .inl (by simpa [drain] using hs)

end Silo.Sandbox.HelperSession
