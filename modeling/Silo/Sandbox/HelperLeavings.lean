import Mathlib.Data.List.Nodup
import Silo.Sandbox.HelperCalls

namespace Silo.Sandbox

def Stage.listed : Stage → Bool
  | .registered | .sending | .unsent | .waiting | .abandoned => true
  | _ => false

def Stage.tracked : Stage → Bool
  | .sending | .unsent | .waiting | .settled _ | .abandoned => true
  | _ => false

namespace HelperSession

open Silo.Lib Silo.Harness

variable {s t : HelperSession} {n m : Nat} {id : UInt64} {reply : Reply} {debug : HelperPayload → String}

@[simp] theorem setStage_op (s : HelperSession) (n m : Nat) (stage : Stage) :
    ((s.setStage n stage).calls m).op = (s.calls m).op := by
  by_cases hm : m = n <;> simp [HelperSession.setStage, setCall, hm]

@[simp] theorem setSlot_op (s : HelperSession) (n m : Nat) (slot : Slot) :
    ((s.setSlot n slot).calls m).op = (s.calls m).op := by
  by_cases hm : m = n <;> simp [setSlot, setCall, hm]

@[simp] theorem discard_op (s : HelperSession) (id : UInt64) (n : Nat) :
    ((s.discard id).calls n).op = (s.calls n).op := by
  obtain ⟨hd, -⟩ | ⟨map, m, -, -, hd⟩ := discard_cases s id
  · rw [hd]
  · rw [hd]
    exact setSlot_op ..

def Cleared (s : HelperSession) : Prop := ∀ e ∈ s.entries, (s.calls e.2).stage.listed = true

theorem Held.unlisted (h : Held s) (hs : (s.calls n).slot.reply? = some reply) :
    ∀ e ∈ s.entries, e.2 ≠ n := by
  rintro e he rfl
  have hmem : e.2 ∈ s.senders := List.mem_append_left _ (List.mem_map.mpr ⟨e, he, rfl⟩)
  rw [(h.usable e.2 hmem).2] at hs
  cases hs

theorem Cleared.shrink (h : Cleared s) (hc : ∀ n, (t.calls n).stage = (s.calls n).stage)
    (he : t.entries ⊆ s.entries) : Cleared t := by
  intro e hmem
  rw [hc]
  exact h e (he hmem)

theorem Cleared.setStage {stage : Stage} (h : Cleared s)
    (hn : stage.listed = true ∨ ∀ e ∈ s.entries, e.2 ≠ n) : Cleared (s.setStage n stage) := by
  intro e he
  rw [setStage_stage]
  split
  · rename_i heq
    rcases hn with hn | hn
    · exact hn
    · exact absurd heq (hn e he)
  · exact h e he

theorem discard_entries (s : HelperSession) (id : UInt64) : (s.discard id).entries ⊆ s.entries := by
  obtain ⟨hd, -⟩ | ⟨map, m, hp, -, hd⟩ := discard_cases s id
  · rw [hd]
    exact List.Subset.refl _
  · rw [hd]
    simp only [entries, hp, Option.getD_some]
    exact List.filter_sublist.subset

theorem discard_unlisted (h : Held s) : ∀ e ∈ (s.discard (s.calls n).id).entries, e.2 ≠ n := by
  rintro e he rfl
  exact discard_fresh s _ e he (h.keyed e (discard_entries s _ he)).symm

theorem register_entries (s : HelperSession) (n : Nat) :
    ∀ e ∈ (s.register n).entries, e ∈ s.entries ∨ e.2 = n := by
  intro e he
  rw [register] at he
  cases hp : s.pending with
  | none =>
      rw [hp] at he
      simp [entries, HelperSession.complete, hp] at he
  | some map =>
      rw [hp] at he
      simp only [entries, setStage_pending] at he
      cases hd : (s.discard (s.calls n).id).pending with
      | none =>
          rw [hd] at he
          cases he
      | some rest =>
          rw [hd] at he
          rcases List.mem_cons.mp he with rfl | he
          · exact .inr rfl
          · exact .inl (discard_entries s (s.calls n).id (by rw [entries, hd]; exact he))

theorem cleared_register (h : Cleared s) (n : Nat) : Cleared (s.register n) := by
  intro e he
  have hor := register_entries s n e he
  rw [register] at he ⊢
  cases hp : s.pending with
  | none =>
      rw [hp] at he
      simp [entries, HelperSession.complete, hp] at he
  | some map =>
      simp only [setStage_stage, discard_stage]
      split
      · rfl
      · exact h e (hor.resolve_right ‹_›)

theorem receive_entries (s : HelperSession) (response : HelperResponse) :
    (s.receive response).entries ⊆ s.entries := by
  intro e he
  rw [receive] at he
  simp only at he
  split at he
  · exact he
  · rename_i map hp
    split at he
    · exact he
    · simp only [entries, Option.getD_some] at he
      rw [entries, hp]
      exact List.filter_sublist.subset he

theorem take_entries (s : HelperSession) : s.take.entries ⊆ s.entries := by
  rw [take]
  split
  · exact List.Subset.refl _
  · exact List.nil_subset _

theorem receive_calls (s : HelperSession) (response : HelperResponse) :
    (s.receive response).calls = s.calls := by
  rw [receive]
  simp only
  repeat' split
  all_goals rfl

theorem take_calls (s : HelperSession) : s.take.calls = s.calls := by
  rw [take]
  split <;> rfl

theorem cleared_effect (h : Cleared s) (hs : Sound s) (he : Effect s t) : Cleared t := by
  cases he with
  | draw op =>
      intro e hmem
      have hne : e.2 ≠ s.drawn := by
        intro heq
        have hl := h e hmem
        rw [heq, hs.counted.fresh s.drawn (Nat.le_refl _)] at hl
        cases hl
      have hl := h e hmem
      simpa [setCall, hne] using hl
  | register n => exact cleared_register h n
  | advance n stage execs requests hold hnew hret hreply =>
      have hset : Cleared (s.setStage n stage) := by
        apply h.setStage
        cases stage with
        | settled reply => exact .inr (hs.held.unlisted (hreply reply rfl))
        | returned reply => exact absurd rfl (hret reply)
        | unborn | drawn => cases hnew
        | registered | sending | unsent | waiting | abandoned => exact .inl rfl
      exact hset.shrink (fun _ => rfl) (List.Subset.refl _)
  | unsend n =>
      apply Cleared.setStage
      · exact h.shrink (fun m => discard_stage s _ m) (discard_entries s _)
      · exact .inr (discard_unlisted hs.held)
  | finish n reply hstage =>
      have hset : Cleared (s.setStage n (.returned reply)) := by
        apply h.setStage
        right
        rintro e he rfl
        have hl := h e he
        rw [hstage] at hl
        cases hl
      exact hset.shrink (fun _ => rfl) (List.Subset.refl _)
  | receive response =>
      exact h.shrink (fun n => by rw [receive_calls]) (receive_entries s response)
  | take => exact h.shrink (fun n => by rw [take_calls]) (take_entries s)
  | deliver response waiter => exact h.shrink (fun n => setSlot_stage ..) (List.Subset.refl _)
  | drain waiters waiter => exact h.shrink (fun n => setSlot_stage ..) (List.Subset.refl _)
  | write | streamEnd | readerEnd | pass => exact h.shrink (fun _ => rfl) (List.Subset.refl _)
  | abort => exact h.shrink (fun _ => rfl) (List.nil_subset _)

theorem effect_call (he : Effect s t) (hn : n ≠ s.drawn) :
    (t.calls n).op = (s.calls n).op ∧ (t.calls n).id = (s.calls n).id := by
  cases he with
  | draw op => simp [setCall, hn]
  | register m =>
      rw [register]
      cases s.pending with
      | none => simp [HelperSession.complete]
      | some map => simp
  | unsend m => simp [unsend]
  | finish m reply => simp [finish, HelperSession.complete]
  | advance m stage | deliver response waiter | drain waiters waiter => simp [deliver, drain]
  | receive response => rw [receive_calls]; exact ⟨rfl, rfl⟩
  | take => rw [take_calls]; exact ⟨rfl, rfl⟩
  | write | streamEnd | readerEnd | pass | abort => exact ⟨rfl, rfl⟩

/-- The ids in flight are those of calls of `Exec` that have not returned. -/
structure Tracked (s : HelperSession) : Prop where
  nodup : s.inflightExecs.Nodup
  exec : ∀ id ∈ s.inflightExecs, ∃ n, (s.calls n).op.isExec = true ∧ (s.calls n).id = id ∧
    (s.calls n).stage.tracked = true

theorem Tracked.keep (h : Tracked s) (hin : t.inflightExecs = s.inflightExecs)
    (hkeep : ∀ n, (s.calls n).stage.tracked = true → (t.calls n).op = (s.calls n).op ∧
      (t.calls n).id = (s.calls n).id ∧ (t.calls n).stage.tracked = true) : Tracked t := by
  refine ⟨hin ▸ h.nodup, ?_⟩
  intro id hid
  obtain ⟨n, hop, hid, hstage⟩ := h.exec id (hin ▸ hid)
  obtain ⟨hop', hid', hstage'⟩ := hkeep n hstage
  exact ⟨n, hop' ▸ hop, hid'.trans hid, hstage'⟩

theorem Tracked.congr (h : Tracked s) (hc : t.calls = s.calls) (hin : t.inflightExecs = s.inflightExecs) :
    Tracked t :=
  h.keep hin fun n hn => by rw [hc]; exact ⟨rfl, rfl, hn⟩

theorem tracked_setStage {stage : Stage} (h : Tracked s)
    (hn : (s.calls n).stage.tracked = true → stage.tracked = true) : Tracked (s.setStage n stage) := by
  refine h.keep rfl fun m hm => ⟨setStage_op .., setStage_id .., ?_⟩
  rw [setStage_stage]
  split
  · rename_i heq
    exact hn (heq ▸ hm)
  · exact hm

theorem tracked_setSlot {slot : Slot} (h : Tracked s) : Tracked (s.setSlot n slot) :=
  h.keep rfl fun m hm => ⟨setSlot_op .., setSlot_id .., by rw [setSlot_stage]; exact hm⟩

theorem discard_inflight (s : HelperSession) (id : UInt64) :
    (s.discard id).inflightExecs = s.inflightExecs := by
  obtain ⟨hd, -⟩ | ⟨map, m, -, -, hd⟩ := discard_cases s id
  · rw [hd]
  · rw [hd]
    rfl

theorem tracked_discard (h : Tracked s) (id : UInt64) : Tracked (s.discard id) :=
  h.keep (discard_inflight s id) fun n hn =>
    ⟨discard_op .., discard_id .., by rw [discard_stage]; exact hn⟩

theorem tracked_register (h : Tracked s) (hn : (s.calls n).stage = .drawn) : Tracked (s.register n) := by
  rw [register]
  cases s.pending with
  | none =>
      have hset : Tracked ((s.setSlot n .dropped).setStage n (.returned (.error closedError))) := by
        apply tracked_setStage (tracked_setSlot h)
        rw [setSlot_stage, hn]
        rintro ⟨⟩
      exact hset.congr rfl rfl
  | some map =>
      have hset : Tracked ((s.discard (s.calls n).id).setStage n .registered) := by
        apply tracked_setStage (tracked_discard h _)
        rw [discard_stage, hn]
        rintro ⟨⟩
      exact hset.congr rfl rfl

theorem tracked_track (h : Tracked s) (n : Nat) : Tracked (s.track n) := by
  have hset : Tracked (s.setStage n .sending) := tracked_setStage h fun _ => rfl
  cases hop : (s.calls n).op.isExec with
  | false => exact hset.congr rfl (by simp [track, hop, setStage, setCall])
  | true =>
      have hin : (s.track n).inflightExecs = s.inflightExecs.insert (s.calls n).id := by simp [track, hop]
      refine ⟨hin ▸ List.Nodup.insert h.nodup, ?_⟩
      intro id hid
      rw [hin, List.mem_insert_iff] at hid
      rcases hid with rfl | hid
      · exact ⟨n, by simp [track, hop], by simp [track], by simp [track, Stage.tracked]⟩
      · exact hset.exec id hid

theorem tracked_finish (h : Tracked s) (n : Nat) (reply : Reply) : Tracked (s.finish n reply) := by
  have hcalls : (s.finish n reply).calls = (s.setStage n (.returned reply)).calls := rfl
  -- the id goes with the call, so what is left belongs to others
  have hothers : ∀ id ∈ (s.finish n reply).inflightExecs, id ∈ s.inflightExecs ∧
      ((s.calls n).op.isExec = true → id ≠ (s.calls n).id) := by
    intro id hid
    simp only [finish] at hid
    split at hid
    · rw [h.nodup.mem_erase_iff] at hid
      exact ⟨hid.2, fun _ => hid.1⟩
    · exact ⟨hid, fun hop => absurd hop ‹_›⟩
  refine ⟨?_, ?_⟩
  · simp only [finish]
    split
    · exact h.nodup.erase _
    · exact h.nodup
  · intro id hid
    obtain ⟨hmem, hne⟩ := hothers id hid
    obtain ⟨m, hop, heq, hstage⟩ := h.exec id hmem
    have hmn : m ≠ n := by
      rintro rfl
      exact hne hop heq.symm
    exact ⟨m, by rw [hcalls]; simpa using hop, by rw [hcalls]; simpa using heq,
      by rw [hcalls, setStage_stage, if_neg hmn]; exact hstage⟩

theorem tracked_draw {op : HelperOp} (h : Tracked s) (hc : Counted s) (hd : s.draw op = some t) :
    Tracked t := by
  simp only [draw, Option.ite_none_right_eq_some, Option.some.injEq] at hd
  obtain ⟨-, rfl⟩ := hd
  refine h.keep rfl ?_
  intro n hn
  have hne : n ≠ s.drawn := by
    rintro rfl
    rw [hc.fresh s.drawn (Nat.le_refl _)] at hn
    cases hn
  simpa [setCall, hne] using hn

theorem tracked_next {l : Label} (h : Tracked s) (hc : Counted s) (hn : s.next debug l = some t) :
    Tracked t := by
  cases l with
  | draw op => exact tracked_draw h hc hn
  | register n =>
      simp only [next, Option.ite_none_right_eq_some, Option.some.injEq] at hn
      obtain ⟨hs, rfl⟩ := hn
      exact tracked_register h hs
  | track n =>
      simp only [next, Option.ite_none_right_eq_some, Option.some.injEq] at hn
      obtain ⟨-, rfl⟩ := hn
      exact tracked_track h n
  | send n =>
      simp only [next, send, Option.ite_none_right_eq_some] at hn
      obtain ⟨-, hn⟩ := hn
      split at hn
      · simp only [Option.ite_none_right_eq_some, Option.some.injEq] at hn
        obtain ⟨-, rfl⟩ := hn
        have hset : Tracked (s.setStage n .waiting) := tracked_setStage h fun _ => rfl
        exact hset.congr rfl rfl
      · cases hn
        exact tracked_setStage h fun _ => rfl
  | unsend n =>
      simp only [next, Option.ite_none_right_eq_some, Option.some.injEq] at hn
      obtain ⟨-, rfl⟩ := hn
      exact tracked_setStage (tracked_discard h _) fun _ => rfl
  | hear n =>
      simp only [next, Option.ite_none_right_eq_some, Option.map_eq_some_iff] at hn
      obtain ⟨-, reply, -, rfl⟩ := hn
      exact tracked_setStage h fun _ => rfl
  | finish n =>
      simp only [next] at hn
      split at hn <;> cases hn
      exact tracked_finish h n _
  | abandon n =>
      simp only [next, Option.ite_none_right_eq_some, Option.some.injEq] at hn
      obtain ⟨-, rfl⟩ := hn
      exact tracked_setStage h fun _ => rfl
  | receive response =>
      simp only [next, Option.ite_none_right_eq_some, Option.some.injEq] at hn
      obtain ⟨-, rfl⟩ := hn
      apply h.congr (receive_calls s response)
      rw [receive]
      simp only
      repeat' split
      all_goals rfl
  | take =>
      simp only [next, Option.ite_none_right_eq_some, Option.some.injEq] at hn
      obtain ⟨-, rfl⟩ := hn
      apply h.congr (take_calls s)
      rw [take]
      split <;> rfl
  | deliver =>
      simp only [next] at hn
      split at hn <;> cases hn
      exact (tracked_setSlot h).congr rfl rfl
  | drain waiter =>
      simp only [next] at hn
      split at hn
      · simp only [Option.ite_none_right_eq_some, Option.some.injEq] at hn
        obtain ⟨-, rfl⟩ := hn
        exact (tracked_setSlot h).congr rfl rfl
      · cases hn
  | write =>
      simp only [next] at hn
      split at hn <;> cases hn
      exact h.congr rfl rfl
  | handshake =>
      simp only [next] at hn
      split at hn <;> cases hn
      unfold handshake
      split <;> exact h.congr rfl rfl
  | writeError | streamEnd | readerEnd | drop | abort =>
      simp only [next, Option.ite_none_right_eq_some, Option.some.injEq] at hn
      obtain ⟨-, rfl⟩ := hn
      exact h.congr rfl rfl

theorem effect_done (hc : Counted s) (he : Effect s t) (hdone : (s.calls n).stage.done = true)
    (hborn : (s.calls n).stage ≠ .unborn) : (t.calls n).stage = (s.calls n).stage := by
  have hne : ∀ {m}, (s.calls m).stage.done = false → n ≠ m := by
    rintro m hm rfl
    rw [hdone] at hm
    cases hm
  cases he with
  | draw op =>
      have hd : n ≠ s.drawn := by
        rintro rfl
        exact hborn (by rw [hc.fresh s.drawn (Nat.le_refl _)]; rfl)
      simp [setCall, hd]
  | register m hm =>
      have hnm : n ≠ m := hne (by rw [hm]; rfl)
      rw [register]
      cases s.pending with
      | none => simp [HelperSession.complete, hnm]
      | some map => simp [hnm]
  | unsend m hm =>
      have hnm : n ≠ m := hne (by rw [hm]; rfl)
      simp [unsend, hnm]
  | finish m reply hm =>
      have hnm : n ≠ m := hne (by rw [hm]; rfl)
      simp [finish, HelperSession.complete, hnm]
  | advance m stage _ _ hm =>
      have hnm : n ≠ m := hne (done_of_outstanding hm)
      simp [hnm]
  | deliver response waiter | drain waiters waiter => exact setSlot_stage ..
  | receive response => rw [receive_calls]
  | take => rw [take_calls]
  | write | streamEnd | readerEnd | pass | abort => rfl

theorem effect_unlisted (he : Effect s t) (hn : (s.calls n).stage ≠ .drawn)
    (hout : ∀ e ∈ s.entries, e.2 ≠ n) : ∀ e ∈ t.entries, e.2 ≠ n := by
  cases he with
  | register m hm =>
      intro e he
      rcases register_entries s m e he with he | he
      · exact hout e he
      · rintro rfl
        rw [he] at hn
        exact hn hm
  | unsend m => exact fun e he => hout e (discard_entries s _ he)
  | receive response => exact fun e he => hout e (receive_entries s response he)
  | take => exact fun e he => hout e (take_entries s he)
  | abort => exact nofun
  | draw | advance | finish | write | streamEnd | deliver | drain | readerEnd | pass => exact hout

def Cleaned (s : HelperSession) (n : Nat) : Prop :=
  (∃ reply, (s.calls n).stage = .returned reply) ∨
    (s.calls n).stage = .abandoned ∧ (s.calls n).op.isExec = false ∧ ∀ e ∈ s.entries, e.2 ≠ n

theorem Cleaned.effect (h : Cleaned s n) (hc : Counted s) (he : Effect s t) : Cleaned t n := by
  have hne : (s.calls n).stage ≠ .unborn → n ≠ s.drawn := by
    rintro hb rfl
    exact hb (by rw [hc.fresh s.drawn (Nat.le_refl _)]; rfl)
  rcases h with ⟨reply, hs⟩ | ⟨hs, hop, hout⟩
  · exact .inl ⟨reply, (effect_done hc he (by rw [hs]; rfl) (by rw [hs]; exact nofun)).trans hs⟩
  · have hborn : (s.calls n).stage ≠ .unborn := by rw [hs]; exact nofun
    refine .inr ⟨(effect_done hc he (by rw [hs]; rfl) hborn).trans hs, ?_, ?_⟩
    · rw [(effect_call he (hne hborn)).1]
      exact hop
    · exact effect_unlisted he (by rw [hs]; exact nofun) hout

theorem discard_drawn (s : HelperSession) (id : UInt64) : (s.discard id).drawn = s.drawn := by
  obtain ⟨hd, -⟩ | ⟨map, m, -, -, hd⟩ := discard_cases s id
  · rw [hd]
  · rw [hd]
    rfl

theorem effect_drawn (he : Effect s t) : s.drawn ≤ t.drawn := by
  cases he with
  | draw => exact Nat.le_succ _
  | register n =>
      rw [register]
      cases s.pending with
      | none => exact Nat.le_refl _
      | some map => exact Nat.le_of_eq (discard_drawn s _).symm
  | unsend n => exact Nat.le_of_eq (discard_drawn s _).symm
  | receive response =>
      rw [receive]
      simp only
      repeat' split
      all_goals exact Nat.le_refl _
  | take =>
      rw [take]
      split <;> exact Nat.le_refl _
  | advance | finish | write | streamEnd | deliver | drain | readerEnd | pass | abort => exact Nat.le_refl _

theorem next_op {l : Label} (hl : ∀ op, l ≠ .draw op) (hn : s.next debug l = some t) (m : Nat) :
    (t.calls m).op = (s.calls m).op := by
  cases l with
  | draw op => exact absurd rfl (hl op)
  | register n =>
      simp only [next, Option.ite_none_right_eq_some, Option.some.injEq] at hn
      obtain ⟨-, rfl⟩ := hn
      rw [register]
      cases s.pending with
      | none => simp [HelperSession.complete]
      | some map => simp
  | track n | unsend n | abandon n =>
      simp only [next, Option.ite_none_right_eq_some, Option.some.injEq] at hn
      obtain ⟨-, rfl⟩ := hn
      simp [track, unsend]
  | send n =>
      simp only [next, send, Option.ite_none_right_eq_some] at hn
      obtain ⟨-, hn⟩ := hn
      split at hn
      · simp only [Option.ite_none_right_eq_some, Option.some.injEq] at hn
        obtain ⟨-, rfl⟩ := hn
        simp
      · cases hn
        simp
  | hear n =>
      simp only [next, Option.ite_none_right_eq_some, Option.map_eq_some_iff] at hn
      obtain ⟨-, reply, -, rfl⟩ := hn
      simp
  | finish n =>
      simp only [next] at hn
      split at hn <;> cases hn
      simp [finish, HelperSession.complete]
  | receive response =>
      simp only [next, Option.ite_none_right_eq_some, Option.some.injEq] at hn
      obtain ⟨-, rfl⟩ := hn
      rw [receive_calls]
  | take =>
      simp only [next, Option.ite_none_right_eq_some, Option.some.injEq] at hn
      obtain ⟨-, rfl⟩ := hn
      rw [take_calls]
  | deliver | write =>
      simp only [next] at hn
      split at hn <;> cases hn
      simp [deliver]
  | drain waiter =>
      simp only [next] at hn
      split at hn
      · simp only [Option.ite_none_right_eq_some, Option.some.injEq] at hn
        obtain ⟨-, rfl⟩ := hn
        simp [drain]
      · cases hn
  | handshake =>
      simp only [next] at hn
      split at hn <;> cases hn
      unfold handshake
      split <;> rfl
  | writeError | streamEnd | readerEnd | drop | abort =>
      simp only [next, Option.ite_none_right_eq_some, Option.some.injEq] at hn
      obtain ⟨-, rfl⟩ := hn
      rfl

end HelperSession

end Silo.Sandbox
