import Mathlib.Data.List.Count
import Silo.Harness.Signal

namespace Silo.Harness.Signal

open Silo.Core

variable {τ : Type} {sig sig' sig'' : Signal τ}

/-- The watch channels show what has been applied and requested: the first
request's message, and the number of interrupts. -/
structure Tidy (sig : Signal τ) : Prop where
  state : sig.state = sig.requests.head?
  interrupts : sig.interrupts = sig.applied.countP FrontendCommand.isInterrupt

structure Feeds (sig sig' : Signal τ) : Prop where
  grows : sig.Grows sig'
  total : sig'.applied ++ sig'.queue = sig.applied ++ sig.queue
  news : ∃ new, sig'.applied = sig.applied ++ new
  tidy : sig.Tidy → sig'.Tidy

theorem Feeds.refl (sig : Signal τ) : sig.Feeds sig :=
  ⟨.refl sig, rfl, ⟨[], by simp⟩, fun h => h⟩

theorem Feeds.trans (h : sig.Feeds sig') (h' : sig'.Feeds sig'') : sig.Feeds sig'' := by
  obtain ⟨new, hnew⟩ := h.news
  obtain ⟨new', hnew'⟩ := h'.news
  refine ⟨h.grows.trans h'.grows, h'.total.trans h.total, ⟨new ++ new', ?_⟩, fun ht => h'.tidy (h.tidy ht)⟩
  rw [hnew', hnew, List.append_assoc]

theorem tidy_request (h : sig.Tidy) (message : Option String) : (sig.request message).Tidy := by
  refine ⟨?_, h.interrupts⟩
  simp only [request, h.state]
  cases sig.requests <;> rfl

theorem tidy_apply (h : sig.Tidy) (command : FrontendCommand) : (sig.apply command).Tidy := by
  cases command with
  | shutdown message =>
      have hpushed : Tidy { sig with applied := sig.applied ++ [.shutdown message] } := by
        refine ⟨h.state, ?_⟩
        simpa [FrontendCommand.isInterrupt] using h.interrupts
      exact tidy_request hpushed message
  | interrupt =>
      refine ⟨h.state, ?_⟩
      simpa [apply, FrontendCommand.isInterrupt] using h.interrupts

theorem apply_applied (sig : Signal τ) (command : FrontendCommand) :
    (sig.apply command).applied = sig.applied ++ [command] := by
  cases command <;> rfl

theorem feeds_receive {command : FrontendCommand} {rest : List FrontendCommand}
    (h : sig.queue = command :: rest) : sig.Feeds { sig.apply command with queue := rest } := by
  have hg := grows_apply sig command
  refine ⟨⟨hg.state, hg.interrupts, hg.receiver⟩, ?_, ⟨[command], apply_applied sig command⟩, ?_⟩
  · simp [apply_applied, h]
  · intro ht
    exact ⟨(tidy_apply ht command).state, (tidy_apply ht command).interrupts⟩

theorem apply_setQueue (sig : Signal τ) (command : FrontendCommand) (queue : List FrontendCommand) :
    { sig with queue := queue }.apply command = { sig.apply command with queue := queue } := by
  cases command <;> rfl

theorem feeds_applyAll (commands : List FrontendCommand) (sig : Signal τ) (h : sig.queue = commands) :
    sig.Feeds ({ sig with queue := [] }.applyAll commands) := by
  induction commands generalizing sig with
  | nil =>
      refine ⟨⟨fun _ hm => hm, Nat.le_refl _, fun hr => hr⟩, ?_, ⟨[], by simp [applyAll]⟩, ?_⟩
      · simp [applyAll, h]
      · exact fun ht => ⟨ht.state, ht.interrupts⟩
  | cons command rest ih =>
      have hfirst := feeds_receive h
      have hrest := ih { sig.apply command with queue := rest } rfl
      have heq : { sig with queue := [] }.applyAll (command :: rest) =
          { { sig.apply command with queue := rest } with queue := [] }.applyAll rest := by
        simp only [applyAll, List.foldl_cons, apply_setQueue]
      rw [heq]
      exact hfirst.trans hrest

theorem feeds_setReceiver (sig : Signal τ) : sig.Feeds { sig with receiver := false } :=
  ⟨⟨fun _ hm => hm, Nat.le_refl _, fun hr => by cases hr⟩, rfl, ⟨[], by simp⟩,
    fun ht => ⟨ht.state, ht.interrupts⟩⟩

theorem feeds_setHolder (sig : Signal τ) (holder : Option τ) :
    sig.Feeds { sig with holder := holder } :=
  ⟨⟨fun _ hm => hm, Nat.le_refl _, fun hr => hr⟩, rfl, ⟨[], by simp⟩, fun ht => ⟨ht.state, ht.interrupts⟩⟩

theorem feeds_drain (sig : Signal τ) : sig.Feeds sig.drain := by
  rw [drain]
  split
  · exact .refl sig
  · have h := feeds_applyAll sig.queue sig rfl
    simp only
    split
    · exact h
    · exact h.trans (feeds_setReceiver _)

theorem feeds_park (sig : Signal τ) (t : τ) (kind : WaitKind) : sig.Feeds (sig.park t kind).1 := by
  rw [park]
  simp only
  split
  · exact feeds_setHolder sig _
  · exact .refl sig

theorem feeds_loopAbort (sig : Signal τ) (t : τ) (generation : Nat) :
    sig.Feeds (sig.loopAbort t generation).1 := by
  have h := feeds_drain sig
  rw [loopAbort]
  split
  · exact h
  · split
    · exact h
    · exact h.trans (feeds_park _ _ _)

theorem receive_setQueue (commands : List FrontendCommand) (sig : Signal τ)
    (queue : List FrontendCommand) :
    receiveUntilShutdown commands { sig with queue := queue } = receiveUntilShutdown commands sig := by
  induction commands generalizing sig with
  | nil => rfl
  | cons command rest ih => simp only [receiveUntilShutdown, apply_setQueue, ih]

theorem feeds_receiveUntilShutdown (commands : List FrontendCommand) (sig : Signal τ)
    (h : sig.queue = commands) : sig.Feeds (receiveUntilShutdown commands sig) := by
  induction commands generalizing sig with
  | nil =>
      rw [receiveUntilShutdown, ← h]
      exact .refl sig
  | cons command rest ih =>
      have hfirst := feeds_receive h
      rw [receiveUntilShutdown]
      split
      · exact hfirst
      · rw [← receive_setQueue rest (sig.apply command) rest]
        exact hfirst.trans (ih _ rfl)

theorem feeds_loopWait (sig : Signal τ) (t : τ) : sig.Feeds (sig.loopWait t).1 := by
  have h := feeds_receiveUntilShutdown sig.queue sig rfl
  rw [loopWait]
  split
  · exact .refl sig
  · split
    · exact feeds_park _ _ _
    · simp only
      split
      · exact h
      · split
        · exact h.trans (feeds_park _ _ _)
        · exact (h.trans (feeds_setReceiver _)).trans (feeds_park _ _ _)

theorem feeds_loop (sig : Signal τ) (t : τ) (kind : WaitKind) : sig.Feeds (sig.loop t kind).1 := by
  cases kind with
  | abort generation => exact feeds_loopAbort sig t generation
  | shutdown => exact feeds_loopWait sig t

inductive Heard (kind : WaitKind) (sig : Signal τ) : Polled → Prop
  | shutdown {message : Option String} (state : sig.state = some message) :
      Heard kind sig (.ready (.shutdown message))
  | interrupted {generation : Nat} (kindEq : kind = .abort generation)
      (due : generation < sig.interrupts) : Heard kind sig (.ready .interrupted)
  | pending {w : Wait} (state : sig.state = none)
      (clear : ∀ generation, kind = .abort generation → sig.interrupts ≤ generation)
      (kindEq : w.kind = kind) (stateSeen : w.stateSeen = false)
      (interruptsSeen : ∀ generation, kind = .abort generation → w.interruptsSeen ≤ generation) :
      Heard kind sig (.pending w)

theorem heard_loop (sig : Signal τ) (t : τ) (kind : WaitKind) :
    Heard kind (sig.loop t kind).1 (sig.loop t kind).2 := by
  have h := looped_loop sig t kind
  generalize (sig.loop t kind).1 = sig' at h ⊢
  generalize (sig.loop t kind).2 = polled at h ⊢
  cases h with
  | shutdown _ _ state => exact .shutdown state
  | interrupted _ _ kindEq _ due => exact .interrupted kindEq due
  | parked _ state clear _ _ => exact .pending state clear rfl rfl clear

variable [DecidableEq τ]

@[simp] theorem dropWait_state (sig : Signal τ) (t : τ) : (sig.dropWait t).state = sig.state := by
  rw [dropWait]
  split <;> rfl

@[simp] theorem dropWait_interrupts (sig : Signal τ) (t : τ) :
    (sig.dropWait t).interrupts = sig.interrupts := by
  rw [dropWait]
  split <;> rfl

theorem feeds_dropWait (sig : Signal τ) (t : τ) : sig.Feeds (sig.dropWait t) := by
  rw [dropWait]
  split
  · exact feeds_setHolder sig _
  · exact .refl sig

/-- A later poll of a wait: nothing has come, or its loop runs once more. -/
theorem poll_cases (sig : Signal τ) (t : τ) (w : Wait) (command : Bool) :
    (sig.poll t w command = (sig, .pending w) ∧ sig.changed w = false) ∨
      ∃ sig', sig.Feeds sig' ∧ sig.poll t w command = sig'.loop t w.kind := by
  have hfree := feeds_setHolder sig none
  rw [poll]
  split
  · simp only
    split
    · split
      · exact .inr ⟨_, hfree, rfl⟩
      · split
        · rename_i hchanged hsenders
          refine .inl ⟨rfl, ?_⟩
          simpa [hsenders] using hchanged
        · exact .inr ⟨_, hfree.trans (feeds_setReceiver _), rfl⟩
    · rename_i next rest hqueue
      split
      · exact .inr ⟨_, hfree, rfl⟩
      · have hnext := @feeds_receive τ { sig with holder := none } next rest hqueue
        rw [← apply_setQueue] at hnext
        exact .inr ⟨_, hfree.trans hnext, rfl⟩
  · split
    · exact .inr ⟨sig, .refl sig, rfl⟩
    · rename_i hchanged
      exact .inl ⟨rfl, by simpa using hchanged⟩

theorem feeds_poll (sig : Signal τ) (t : τ) (w : Wait) (command : Bool) :
    sig.Feeds (sig.poll t w command).1 := by
  rcases poll_cases sig t w command with ⟨heq, -⟩ | ⟨sig', hfeeds, heq⟩
  · rw [heq]
    exact .refl sig
  · rw [heq]
    exact hfeeds.trans (feeds_loop sig' t w.kind)

theorem heard_poll (sig : Signal τ) (t : τ) {w : Wait} (command : Bool) (hstate : w.stateSeen = false)
    (hint : ∀ generation, w.kind = .abort generation → w.interruptsSeen ≤ generation) :
    Heard w.kind (sig.poll t w command).1 (sig.poll t w command).2 := by
  rcases poll_cases sig t w command with ⟨heq, hchanged⟩ | ⟨sig', -, heq⟩
  · rw [heq]
    simp only [changed, hstate, Bool.or_eq_false_iff, bne_eq_false_iff_eq] at hchanged
    refine .pending (Option.not_isSome_iff_eq_none.mp (by simp [hchanged.1])) ?_ rfl hstate hint
    intro generation hk
    have hsame := hchanged.2
    rw [hk] at hsame
    simp only [bne_eq_false_iff_eq] at hsame
    rw [hsame]
    exact hint generation hk
  · rw [heq]
    exact heard_loop sig' t w.kind

end Silo.Harness.Signal
