import Silo.Sandbox.HelperSession

namespace Silo.Sandbox.HelperSession

open Silo.Lib Silo.Harness

variable {s t : HelperSession} {n m i : Nat} {id : UInt64} {reply : Reply} {debug : HelperPayload → String}

def entries (s : HelperSession) : List (UInt64 × Nat) := s.pending.getD []

def senders (s : HelperSession) : List Nat := s.entries.map Prod.snd ++ s.reader.waiters

/-- Every sender is in one place, and a call that waits on an empty channel has
its sender in one of them. -/
structure Held (s : HelperSession) : Prop where
  keys : (s.entries.map Prod.fst).Nodup
  keyed : ∀ e ∈ s.entries, (s.calls e.2).id = e.1
  once : s.senders.Nodup
  usable : ∀ n ∈ s.senders, (s.calls n).stage.started ∧ (s.calls n).slot = .empty
  early : ∀ n, (s.calls n).stage.started = false → (s.calls n).slot = .empty
  kept : ∀ n, (s.calls n).stage.outstanding → (s.calls n).slot = .empty → n ∈ s.senders

structure Counted (s : HelperSession) : Prop where
  fresh : ∀ n, s.drawn ≤ n → s.calls n = .unborn
  first : s.owner = .connecting → s.drawn ≤ 1
  idle : s.owner.gone → ∀ n, (s.calls n).stage.done
  returned : ∀ e ∈ s.completed, (s.calls e.1).stage = .returned e.2
  completions : (s.completed.map Prod.fst).Nodup
  taken : s.reader = .ended ∨ (∃ waiters, s.reader = .draining waiters) → s.pending = none

theorem Held.congr (h : Held s) (hc : t.calls = s.calls) (hp : t.pending = s.pending)
    (hr : t.reader = s.reader) : Held t := by
  have he : t.entries = s.entries := by rw [entries, hp, entries]
  have hs : t.senders = s.senders := by rw [senders, he, hr, senders]
  constructor
  · simpa only [he] using h.keys
  · simpa only [he, hc] using h.keyed
  · simpa only [hs] using h.once
  · simpa only [hs, hc] using h.usable
  · simpa only [hc] using h.early
  · simpa only [hs, hc] using h.kept

section Calls

variable (s n) (stage : Stage) (slot : Slot) (m : Nat)

@[simp] theorem setStage_id : ((s.setStage n stage).calls m).id = (s.calls m).id := by
  by_cases hm : m = n <;> simp [HelperSession.setStage, setCall, hm]

@[simp] theorem setStage_slot : ((s.setStage n stage).calls m).slot = (s.calls m).slot := by
  by_cases hm : m = n <;> simp [HelperSession.setStage, setCall, hm]

@[simp] theorem setStage_stage :
    ((s.setStage n stage).calls m).stage = if m = n then stage else (s.calls m).stage := by
  by_cases hm : m = n <;> simp [HelperSession.setStage, setCall, hm]

@[simp] theorem setSlot_id : ((s.setSlot n slot).calls m).id = (s.calls m).id := by
  by_cases hm : m = n <;> simp [setSlot, setCall, hm]

@[simp] theorem setSlot_stage : ((s.setSlot n slot).calls m).stage = (s.calls m).stage := by
  by_cases hm : m = n <;> simp [setSlot, setCall, hm]

@[simp] theorem setSlot_slot :
    ((s.setSlot n slot).calls m).slot = if m = n then slot else (s.calls m).slot := by
  by_cases hm : m = n <;> simp [setSlot, setCall, hm]

@[simp] theorem setStage_pending : (s.setStage n stage).pending = s.pending := rfl

@[simp] theorem setStage_reader : (s.setStage n stage).reader = s.reader := rfl

@[simp] theorem setSlot_pending : (s.setSlot n slot).pending = s.pending := rfl

@[simp] theorem setSlot_reader : (s.setSlot n slot).reader = s.reader := rfl

end Calls

theorem Held.setStage {stage : Stage} (h : Held s) (hnew : stage.started = true)
    (hout : stage.outstanding = true → (s.calls n).stage.outstanding = true) :
    Held (s.setStage n stage) := by
  constructor
  · exact h.keys
  · intro e he
    rw [setStage_id]
    exact h.keyed e he
  · exact h.once
  · intro m hm
    have hu := h.usable m hm
    grind [setStage_stage, setStage_slot]
  · intro m hm
    have he := h.early m
    grind [setStage_stage, setStage_slot]
  · intro m hm hempty
    refine h.kept m ?_ (by simpa using hempty)
    grind [setStage_stage]

theorem Held.move (h : Held s) (hc : t.calls = s.calls) (he : t.entries.Sublist s.entries)
    (hs : t.senders.Perm s.senders) : Held t := by
  constructor
  · exact h.keys.sublist (he.map Prod.fst)
  · intro e hmem
    rw [hc]
    exact h.keyed e (he.subset hmem)
  · exact hs.nodup_iff.mpr h.once
  · intro n hn
    rw [hc]
    exact h.usable n (hs.mem_iff.mp hn)
  · simpa only [hc] using h.early
  · intro n hout hempty
    rw [hc] at hout hempty
    exact hs.mem_iff.mpr (h.kept n hout hempty)

theorem Held.use {slot : Slot} (h : Held s) (hslot : slot ≠ .empty) (hc : t.calls = (s.setSlot m slot).calls)
    (he : t.entries.Sublist s.entries) (hs : s.senders.Perm (m :: t.senders)) : Held t := by
  have hnodup := hs.nodup_iff.mp h.once
  have hmem : m ∈ s.senders := hs.mem_iff.mpr List.mem_cons_self
  constructor
  · exact h.keys.sublist (he.map Prod.fst)
  · intro e hmem
    rw [hc, setSlot_id]
    exact h.keyed e (he.subset hmem)
  · exact hnodup.of_cons
  · intro n hn
    have hne : n ≠ m := by
      rintro rfl
      exact (List.nodup_cons.mp hnodup).1 hn
    have hu := h.usable n (hs.mem_iff.mpr (List.mem_cons_of_mem m hn))
    simpa [hc, hne] using hu
  · intro n hn
    rw [hc, setSlot_stage] at hn
    have hne : n ≠ m := by
      rintro rfl
      simp [(h.usable n hmem).1] at hn
    simpa [hc, hne] using h.early n hn
  · intro n hout hempty
    rw [hc, setSlot_stage] at hout
    rw [hc, setSlot_slot] at hempty
    split at hempty
    · exact absurd hempty hslot
    · have hin := hs.mem_iff.mp (h.kept n hout hempty)
      exact (List.mem_cons.mp hin).resolve_left ‹_›

theorem perm_of_lookup {map : List (UInt64 × Nat)} (hkeys : (map.map Prod.fst).Nodup)
    (h : map.lookup id = some m) :
    (map.map Prod.snd).Perm (m :: (map.filter fun e => e.1 ≠ id).map Prod.snd) := by
  induction map with
  | nil => cases h
  | cons e map ih =>
      obtain ⟨key, waiter⟩ := e
      obtain ⟨hnot, hrest⟩ := List.nodup_cons.mp hkeys
      by_cases hk : key = id
      · subst hk
        have hall : (map.filter fun e => e.1 ≠ key) = map := by
          apply List.filter_eq_self.mpr
          intro e he
          have hne : e.1 ≠ key := by
            rintro rfl
            exact hnot (List.mem_map.mpr ⟨e, he, rfl⟩)
          simpa using hne
        have hm : waiter = m := by simpa using h
        simp only [ne_eq, decide_not] at hall
        simp [hall, hm]
      · have hlookup : map.lookup id = some m := by
          rw [List.lookup_cons] at h
          have hb : (id == key) = false := by simpa using fun he : id = key => hk he.symm
          simpa [hb] using h
        simpa [hk] using ((ih hrest hlookup).cons waiter).trans (List.Perm.swap ..)

theorem discard_cases (s : HelperSession) (id : UInt64) :
    s.discard id = s ∧ (∀ e ∈ s.entries, e.1 ≠ id) ∨
      ∃ map m, s.pending = some map ∧ map.lookup id = some m ∧
        s.discard id = { s.setSlot m .dropped with pending := some (map.filter fun e => e.1 ≠ id) } := by
  rw [discard]
  cases hp : s.pending with
  | none => exact .inl ⟨rfl, by simp [entries, hp]⟩
  | some map =>
      dsimp only
      cases hl : map.lookup id with
      | none =>
          refine .inl ⟨rfl, ?_⟩
          intro e he heq
          have hne := List.lookup_eq_none_iff.mp hl e (by simpa [entries, hp] using he)
          simp [heq] at hne
      | some m => exact .inr ⟨map, m, rfl, hl, rfl⟩

theorem held_discard (h : Held s) (id : UInt64) : Held (s.discard id) := by
  obtain ⟨hd, -⟩ | ⟨map, m, hp, hl, hd⟩ := discard_cases s id
  · rwa [hd]
  · rw [hd]
    have hkeys : (map.map Prod.fst).Nodup := by simpa [entries, hp] using h.keys
    refine h.use (m := m) (by simp) rfl ?_ ?_
    · simp [entries, hp]
    · simpa [senders, entries, hp] using (perm_of_lookup hkeys hl).append_right _

theorem discard_fresh (s : HelperSession) (id : UInt64) : ∀ e ∈ (s.discard id).entries, e.1 ≠ id := by
  obtain ⟨hd, hne⟩ | ⟨map, m, hp, -, hd⟩ := discard_cases s id
  · rwa [hd]
  · rw [hd]
    intro e he
    simpa using (List.mem_filter.mp he).2

@[simp] theorem discard_id (s : HelperSession) (id : UInt64) (n : Nat) :
    ((s.discard id).calls n).id = (s.calls n).id := by
  obtain ⟨hd, -⟩ | ⟨map, m, -, -, hd⟩ := discard_cases s id
  · rw [hd]
  · rw [hd]
    exact setSlot_id ..

@[simp] theorem discard_stage (s : HelperSession) (id : UInt64) (n : Nat) :
    ((s.discard id).calls n).stage = (s.calls n).stage := by
  obtain ⟨hd, -⟩ | ⟨map, m, -, -, hd⟩ := discard_cases s id
  · rw [hd]
  · rw [hd]
    exact setSlot_stage ..

theorem Held.unregistered (h : Held s) (hn : (s.calls n).stage.started = false) : n ∉ s.senders := by
  intro hmem
  rw [(h.usable n hmem).1] at hn
  cases hn

theorem held_refuse (h : Held s) (hn : (s.calls n).stage.started = false) :
    Held ((s.setSlot n .dropped).setStage n (.returned reply)) := by
  have hnot := h.unregistered hn
  constructor
  · exact h.keys
  · intro e he
    simpa using h.keyed e he
  · exact h.once
  · intro m hm
    have hne : m ≠ n := by
      rintro rfl
      exact hnot hm
    simpa [hne] using h.usable m hm
  · intro m hm
    have he := h.early m
    grind [setStage_stage, setStage_slot, setSlot_slot, setSlot_stage, Stage.started]
  · intro m hout hempty
    have hk := h.kept m
    have hsame : ((s.setSlot n .dropped).setStage n (.returned reply)).senders = s.senders := rfl
    grind [setStage_stage, setStage_slot, setSlot_slot, setSlot_stage, Stage.outstanding]

theorem held_insert (h : Held s) (hn : (s.calls n).stage.started = false)
    (hfresh : ∀ e ∈ s.entries, e.1 ≠ (s.calls n).id) (hp : t.pending = some (((s.calls n).id, n) :: s.entries))
    (hc : t.calls = (s.setStage n .registered).calls) (hr : t.reader = s.reader) : Held t := by
  have hnot := h.unregistered hn
  have he : t.entries = ((s.calls n).id, n) :: s.entries := by simp [entries, hp]
  have hs : t.senders = n :: s.senders := by simp [senders, he, hr]
  constructor
  · rw [he]
    refine List.nodup_cons.mpr ⟨?_, h.keys⟩
    intro hmem
    obtain ⟨e, hmem, heq⟩ := List.mem_map.mp hmem
    exact hfresh e hmem heq
  · intro e hmem
    rw [hc, setStage_id]
    rw [he] at hmem
    obtain rfl | hmem := List.mem_cons.mp hmem
    · rfl
    · exact h.keyed e hmem
  · rw [hs]
    exact List.nodup_cons.mpr ⟨hnot, h.once⟩
  · intro m hm
    rw [hs] at hm
    rw [hc, setStage_stage, setStage_slot]
    obtain rfl | hm := List.mem_cons.mp hm
    · exact ⟨by simp [Stage.started], h.early m hn⟩
    · have hu := h.usable m hm
      grind [Stage.started]
  · intro m hm
    rw [hc, setStage_stage] at hm
    rw [hc, setStage_slot]
    have hearly := h.early m
    grind [Stage.started]
  · intro m hout hempty
    rw [hc, setStage_stage] at hout
    rw [hc, setStage_slot] at hempty
    rw [hs]
    have hk := h.kept m
    grind

theorem held_register (h : Held s) (hn : (s.calls n).stage = .drawn) : Held (s.register n) := by
  have hstarted : (s.calls n).stage.started = false := by rw [hn]; rfl
  rw [register]
  cases hp : s.pending with
  | none => exact (held_refuse h hstarted).congr rfl rfl rfl
  | some map =>
      have hd := held_discard h (s.calls n).id
      refine held_insert hd (n := n) ?_ ?_ ?_ rfl rfl
      · rwa [discard_stage]
      · rw [discard_id]
        exact discard_fresh s _
      · obtain ⟨hd, -⟩ | ⟨map', m, -, -, hd⟩ := discard_cases s (s.calls n).id
        · rw [hd]
          simp [entries, hp]
        · simp [hd, entries]

theorem held_receive (h : Held s) (hr : s.reader = .reading) (response : HelperResponse) :
    Held (s.receive response) := by
  simp only [receive]
  cases hp : s.pending with
  | none => exact h.congr rfl hp.symm rfl
  | some map =>
      dsimp only
      cases hl : map.lookup response.id with
      | none => exact h.congr rfl hp.symm rfl
      | some waiter =>
          have hkeys : (map.map Prod.fst).Nodup := by simpa [entries, hp] using h.keys
          refine h.move rfl ?_ ?_
          · simp [entries, hp]
          · have hperm := perm_of_lookup hkeys hl
            simpa [senders, entries, hp, hr, Reader.waiters] using
              ((List.perm_append_singleton ..).trans hperm.symm)

theorem held_deliver {response : HelperResponse} (h : Held s) (hr : s.reader = .holding response n) :
    Held (s.deliver response n) := by
  have hcalls : (s.deliver response n).calls = (s.setSlot n (.sent response.reply)).calls := rfl
  apply h.use (by simp) hcalls (List.Sublist.refl _)
  simp [senders, hr, Reader.waiters, deliver, entries]

theorem held_take (h : Held s) (hr : s.reader = .closing) : Held s.take := by
  rw [take]
  cases hp : s.pending with
  | none =>
      refine h.move rfl ?_ ?_
      · simp [entries]
      · simp [senders, entries, hp, hr, Reader.waiters]
  | some map =>
      refine h.move rfl ?_ ?_
      · simp [entries]
      · simp [senders, entries, hp, hr, Reader.waiters]

theorem held_drain {waiters : List Nat} (h : Held s) (hr : s.reader = .draining waiters)
    (hn : n ∈ waiters) : Held (s.drain waiters n) := by
  have hcalls : (s.drain waiters n).calls = (s.setSlot n (.sent (.error closedError))).calls := rfl
  apply h.use (by simp) hcalls (List.Sublist.refl _)
  have hperm := (List.perm_cons_erase hn).append_left (s.entries.map Prod.snd)
  simpa [senders, hr, Reader.waiters, drain, entries] using hperm.trans List.perm_middle

theorem held_start : Held start := by
  constructor
  · exact List.nodup_nil
  · intro e he
    cases he
  · exact List.nodup_nil
  · intro n hn
    cases hn
  · intro n hn
    rfl
  · intro n hn
    cases hn

theorem held_draw {op : HelperOp} (h : Held s) (hborn : s.calls s.drawn = .unborn) :
    Held { s.setCall s.drawn ⟨op, s.nextId, .drawn, .empty⟩ with
      nextId := s.nextId + 1, drawn := s.drawn + 1 } := by
  have hnot : s.drawn ∉ s.senders := h.unregistered (by rw [hborn]; rfl)
  have hkeep {m : Nat} (hm : m ∈ s.senders) : m ≠ s.drawn := by
    rintro rfl
    exact hnot hm
  constructor
  · exact h.keys
  · intro e he
    have hne := hkeep (List.mem_append_left _ (List.mem_map.mpr ⟨e, he, rfl⟩))
    simpa [setCall, hne] using h.keyed e he
  · exact h.once
  · intro m hm
    have hne := hkeep hm
    simpa [setCall, hne] using h.usable m hm
  · intro m hm
    have he := h.early m
    by_cases hne : m = s.drawn <;> simp_all [setCall]
  · intro m hout hempty
    by_cases hne : m = s.drawn
    · subst hne
      simp [setCall, Stage.outstanding] at hout
    · simp only [setCall, Function.update_of_ne hne] at hout hempty
      exact h.kept m hout hempty

theorem done_of_outstanding {stage : Stage} (h : stage.outstanding = true) : stage.done = false := by
  cases stage <;> first | rfl | cases h

theorem held_effect (h : Held s) (hc : Counted s) (he : Effect s t) : Held t := by
  cases he with
  | draw op => exact held_draw h (hc.fresh s.drawn (Nat.le_refl _))
  | register n hs => exact held_register h hs
  | advance n stage execs requests hold hnew _ _ =>
      have hset : Held (s.setStage n stage) := h.setStage hnew fun _ => hold
      exact hset.congr rfl rfl rfl
  | unsend n hs =>
      exact (held_discard h (s.calls n).id).setStage rfl (by simp [Stage.outstanding])
  | finish n reply hs =>
      have hset : Held (s.setStage n (.returned reply)) := h.setStage rfl (by simp [Stage.outstanding])
      exact hset.congr rfl rfl rfl
  | write requests writing => exact h.congr rfl rfl rfl
  | receive response hr => exact held_receive h hr response
  | streamEnd hr => exact h.move rfl (List.Sublist.refl _) (by simp [senders, entries, hr, Reader.waiters])
  | deliver response waiter hr => exact held_deliver h hr
  | take hr => exact held_take h hr
  | drain waiters waiter hr hw => exact held_drain h hr hw
  | readerEnd hr => exact h.move rfl (List.Sublist.refl _) (by simp [senders, entries, hr, Reader.waiters])
  | pass owner _ _ _ => exact h.congr rfl rfl rfl
  | abort hg hr =>
      constructor
      · exact List.nodup_nil
      · intro e he
        cases he
      · exact List.nodup_nil
      · intro n hn
        cases hn
      · exact h.early
      -- the callers are all gone
      · intro n hout
        have hdone := done_of_outstanding hout
        rw [hc.idle hg n] at hdone
        cases hdone

end Silo.Sandbox.HelperSession
