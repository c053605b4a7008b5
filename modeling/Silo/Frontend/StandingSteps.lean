import Silo.Frontend.Standing

namespace Silo.Frontend.View

open Silo.Core Silo.Harness

variable {ids : Nat → String} {v w : View} {f : Nat → Standing} {c n : Nat}

theorem Matches.move (h : v.Matches ids f) (hw : SameStages v w) {standing : Standing} (hn : f n ≠ .gone)
    (hheld : ∀ p m, (ids m, m) ∈ w.stock p ↔
      m ≠ n ∧ (ids m, m) ∈ v.stock p ∨ m = n ∧ standing = .held p)
    (howed : ∀ p m e, m < v.asked → ((ids m, e) ∈ w.debts p ↔
      m ≠ n ∧ (ids m, e) ∈ v.debts p ∨ m = n ∧ standing = .owed p e))
    (hevents : ∀ m < v.asked, w.answers (ids m) = if m = n then standing.events else v.answers (ids m))
    (hslot : ∀ m, m ≠ n → (w.calls m).slot = (v.calls m).slot)
    (haccepted : ∀ m, m ≠ n → w.acceptedFor m = v.acceptedFor m) (hagrees : w.Agrees n standing) :
    w.Matches ids (Function.update f n standing) := by
  apply h.sameStages hw
  · intro p m
    rw [hheld, h.held]
    by_cases hm : m = n <;> simp [hm]
  · intro p m e hlt
    rw [howed p m e hlt, h.owed p m e hlt]
    by_cases hm : m = n <;> simp [hm]
  · intro m hlt
    rw [hevents m hlt, h.events m hlt]
    by_cases hm : m = n <;> simp [hm]
  · intro m
    by_cases hm : m = n
    · rw [hm, Function.update_self]
      exact hagrees
    · rw [Function.update_of_ne hm]
      exact (h.agrees m).congr (hslot m hm) (haccepted m hm)
  · intro m hm
    have hne : m ≠ n := by
      rintro rfl
      exact hn hm
    rw [Function.update_of_ne hne, hm]

theorem Matches.found {standing : Standing} (h : v.Matches ids f) (hf : f n = standing) (hn : standing ≠ .gone) :
    n < v.asked ∧ v.Agrees n standing := by
  have hagrees := h.agrees n
  rw [hf] at hagrees
  refine ⟨h.lt ?_, hagrees⟩
  rw [hf]
  exact hn

theorem Matches.events_kept {was standing : Standing} (h : v.Matches ids f) (hf : f n = was) (hlt : n < v.asked)
    (hsame : standing.events = was.events) :
    ∀ m < v.asked, v.answers (ids m) = if m = n then standing.events else v.answers (ids m) := by
  intro m _
  split
  case isTrue hm => rw [hm, h.events n hlt, hf, hsame]
  case isFalse => rfl

theorem sender_iff {m : Nat} : (ids m, m) = (ids n, n) ↔ m = n :=
  ⟨fun heq => (Prod.mk.inj heq).2, fun heq => by rw [heq]⟩

theorem Matches.unreturned (h : v.Matches ids f) {p : Place} (hf : f n = .held p)
    {result : Except FrontendError ToolOutput} : (v.calls n).stage ≠ .returned result := by
  intro hstage
  have hslot := h.agrees n
  rw [hf] at hslot
  have hresult := h.returned n result hstage
  rw [hslot.1] at hresult
  cases hresult

theorem sameStages_same (hc : w.calls = v.calls) (ha : w.asked = v.asked) (hd : w.down = v.down) : SameStages v w :=
  ⟨ha, hd, fun n => by rw [hc], fun n _ _ => by rw [hc]⟩

theorem sameStages_setSlot {slot : Slot} (hc : w.calls = (v.setSlot n slot).calls) (ha : w.asked = v.asked)
    (hd : w.down = v.down) (hn : ∀ result, (v.calls n).stage ≠ .returned result) : SameStages v w := by
  refine ⟨ha, hd, ?_, ?_⟩
  · intro m
    by_cases hm : m = n <;> simp [hc, setSlot, hm]
  · intro m result hstage
    have hne : m ≠ n := by
      rintro rfl
      exact hn result hstage
    simp [hc, setSlot, hne]

theorem answers_answer {m : Nat} (hd : ids m = ids n → m = n) (clientId : Option String) (answer : String) :
    (v.answer (.questionAnswered (ids n) clientId answer)).answers (ids m) =
      if m = n then v.answers (ids n) ++ [(clientId, answer)] else v.answers (ids m) := by
  by_cases hm : m = n
  · subst hm
    simp [View.answer, answerTo]
  · have hne : ids n ≠ ids m := fun heq => hm (hd heq.symm)
    simp [View.answer, answerTo, hne, hm]

theorem Matches.events_told {p : Place} {e : Option String × String} (hd : v.Distinct ids) (h : v.Matches ids f)
    (hf : f n = .owed p e) (hlt : n < v.asked) :
    ∀ m < v.asked, (v.answer (.questionAnswered (ids n) e.1 e.2)).answers (ids m) =
      if m = n then (Standing.told e).events else v.answers (ids m) := by
  intro m hm
  have hold := h.events n hlt
  rw [hf] at hold
  rw [answers_answer (hd m hm n hlt), hold]
  rfl

section Moves

variable (hd : v.Distinct ids) (h : v.Matches ids f)

include hd h

theorem matches_take {client : Client} {answer : String} (hc : v.parts c = .idle) (hf : f n = .held .map) :
    ((v.remove (ids n)).setPart c (.holding client (ids n) n answer)).Matches ids
      (Function.update f n (.held (.conn c))) := by
  have hstock : v.stock (.conn c) = [] := by simp [stock, hc, Part.stock]
  have hdebts : v.debts (.conn c) = [] := by simp [debts, hc, Part.debts]
  obtain ⟨hlt, hagrees⟩ := h.found hf (by simp)
  apply h.move
  · exact sameStages_same rfl rfl rfl
  · simp [hf]
  · intro p m
    have hmn : (ids m, m) ∈ v.questions → ids m = ids n → m = n := by
      intro hmem
      have hfm := (h.held .map m).mp hmem
      exact hd m (h.lt (by simp [hfm])) n hlt
    have hold := h.held p n
    rw [stock_setPart, stock_remove]
    simp only [Function.update_apply, Part.stock]
    grind [stock]
  · intro p m e hm
    have hold := h.owed p n e hlt
    rw [debts_setPart]
    simp only [Function.update_apply, Part.debts]
    change _ ∈ (if p = .conn c then _ else v.debts p) ↔ _
    grind
  · exact h.events_kept hf hlt rfl
  · intro m _
    rfl
  · intro m _
    rfl
  · exact hagrees

theorem matches_send {client : Client} {answer : String} (hc : v.parts c = .holding client (ids n) n answer)
    (hf : f n = .held (.conn c)) :
    View.Matches ids { (v.setSlot n (.sent (.answered answer))).setPart c (.owing client (ids n) answer) with
      accepted := v.accepted ++ [⟨n, client.id, answer⟩] }
      (Function.update f n (.owed (.conn c) (some client.id, answer))) := by
  have hstock : v.stock (.conn c) = [(ids n, n)] := by simp [stock, hc, Part.stock]
  have hdebts : v.debts (.conn c) = [] := by simp [debts, hc, Part.debts]
  obtain ⟨hlt, hagrees⟩ := h.found hf (by simp)
  apply h.move
  · exact sameStages_setSlot rfl rfl rfl fun _ => h.unreturned hf
  · simp [hf]
  · intro p m
    have hmn : (ids m, m) = (ids n, n) ↔ m = n := sender_iff
    have hold := h.held p n
    change _ ∈ (((v.setSlot n _).setPart c _).stock p) ↔ _
    rw [stock_setPart]
    simp only [Function.update_apply, Part.stock]
    change _ ∈ (if p = .conn c then _ else v.stock p) ↔ _
    grind
  · intro p m e hm
    have hold := h.owed p n e hlt
    have hmn : ids m = ids n ↔ m = n := ⟨hd m hm n hlt, fun heq => by rw [heq]⟩
    change _ ∈ (((v.setSlot n _).setPart c _).debts p) ↔ _
    rw [debts_setPart]
    simp only [Function.update_apply, Part.debts]
    change _ ∈ (if p = .conn c then _ else v.debts p) ↔ _
    grind
  · exact h.events_kept hf hlt rfl
  · intro m hm
    simp [setSlot, setPart, hm]
  · intro m hm
    simp [acceptedFor, hm.symm]
  · left
    refine ⟨client.id, answer, rfl, ?_, ?_⟩
    · simp [setSlot, setPart]
    · have hnone : v.accepted.filter (fun a => a.question = n) = [] := hagrees.2
      simp [acceptedFor, hnone]

omit hd in
theorem matches_lose {client : Client} {answer : String} (hc : v.parts c = .holding client (ids n) n answer)
    (hf : f n = .held (.conn c)) : (v.setPart c .idle).Matches ids (Function.update f n .gone) := by
  have hstock : v.stock (.conn c) = [(ids n, n)] := by simp [stock, hc, Part.stock]
  have hdebts : v.debts (.conn c) = [] := by simp [debts, hc, Part.debts]
  obtain ⟨hlt, hagrees⟩ := h.found hf (by simp)
  apply h.move
  · exact sameStages_same rfl rfl rfl
  · simp [hf]
  · intro p m
    have hmn : (ids m, m) = (ids n, n) ↔ m = n := sender_iff
    have hold := h.held p n
    rw [stock_setPart]
    simp only [Function.update_apply, Part.stock]
    grind
  · intro p m e hm
    have hold := h.owed p n e hlt
    rw [debts_setPart]
    simp only [Function.update_apply, Part.debts]
    grind
  · exact h.events_kept hf hlt rfl
  · intro m _
    rfl
  · intro m _
    rfl
  · exact ⟨.inl hagrees.1, hagrees.2⟩

theorem matches_tell {client : Client} {answer : String} (hc : v.parts c = .owing client (ids n) answer)
    (hf : f n = .owed (.conn c) (some client.id, answer)) :
    ((v.answer (.questionAnswered (ids n) (some client.id) answer)).setPart c .idle).Matches ids
      (Function.update f n (.told (some client.id, answer))) := by
  have hstock : v.stock (.conn c) = [] := by simp [stock, hc, Part.stock]
  have hdebts : v.debts (.conn c) = [(ids n, some client.id, answer)] := by simp [debts, hc, Part.debts]
  obtain ⟨hlt, hagrees⟩ := h.found hf (by simp)
  apply h.move
  · exact sameStages_same rfl rfl rfl
  · simp [hf]
  · intro p m
    have hold := h.held p n
    rw [stock_setPart]
    simp only [Function.update_apply, Part.stock]
    change _ ∈ (if p = .conn c then _ else v.stock p) ↔ _
    grind
  · intro p m e hm
    have hmn : ids m = ids n ↔ m = n := ⟨hd m hm n hlt, fun heq => by rw [heq]⟩
    have hold := h.owed p n e hlt
    rw [debts_setPart]
    simp only [Function.update_apply, Part.debts]
    change _ ∈ (if p = .conn c then _ else v.debts p) ↔ _
    grind
  · exact h.events_told hd hf hlt
  · intro m _
    rfl
  · intro m _
    rfl
  · exact hagrees

omit hd h in
theorem mem_eraseIdx_once {l : List (String × Nat)} {k : Nat} {e x : String × Nat} (hl : l.Nodup)
    (he : l[k]? = some e) : x ∈ l.eraseIdx k ↔ x ∈ l ∧ x ≠ e := by
  obtain ⟨hk, rfl⟩ := List.getElem?_eq_some_iff.mp he
  rw [← hl.erase_getElem k hk, hl.mem_erase_iff, and_comm]

theorem matches_strike {i k : Nat} {pending : List (String × Nat)} (hl : pending.Nodup)
    (hi : v.interrupts i = .sending pending) (he : pending[k]? = some (ids n, n))
    (hf : f n = .held (.interrupt i)) :
    ((v.setSlot n (.sent .interrupted)).setInterrupt i (.resolved (ids n) (pending.eraseIdx k))).Matches ids
      (Function.update f n (.owed (.interrupt i) (none, interruptedAnswer))) := by
  have hstock : v.stock (.interrupt i) = pending := by simp [stock, hi, Interrupting.stock]
  have hdebts : v.debts (.interrupt i) = [] := by simp [debts, hi, Interrupting.debts]
  obtain ⟨hlt, hagrees⟩ := h.found hf (by simp)
  apply h.move
  · exact sameStages_setSlot rfl rfl rfl fun _ => h.unreturned hf
  · simp [hf]
  · intro p m
    have hmn : (ids m, m) = (ids n, n) ↔ m = n := sender_iff
    have hmem : (ids m, m) ∈ pending.eraseIdx k ↔ (ids m, m) ∈ pending ∧ (ids m, m) ≠ (ids n, n) :=
      mem_eraseIdx_once hl he
    have hold := h.held p n
    rw [stock_setInterrupt]
    simp only [Function.update_apply, Interrupting.stock]
    change _ ∈ (if p = .interrupt i then _ else v.stock p) ↔ _
    grind
  · intro p m e hm
    have hmn : ids m = ids n ↔ m = n := ⟨hd m hm n hlt, fun heq => by rw [heq]⟩
    have hold := h.owed p n e hlt
    rw [debts_setInterrupt]
    simp only [Function.update_apply, Interrupting.debts]
    change _ ∈ (if p = .interrupt i then _ else v.debts p) ↔ _
    grind
  · exact h.events_kept hf hlt rfl
  · intro m hm
    simp [setSlot, setInterrupt, hm]
  · intro m _
    rfl
  · right
    refine ⟨rfl, ?_, hagrees.2⟩
    simp [setSlot, setInterrupt]

omit hd in
theorem matches_miss {i k : Nat} {pending : List (String × Nat)} (hl : pending.Nodup)
    (hi : v.interrupts i = .sending pending) (he : pending[k]? = some (ids n, n))
    (hf : f n = .held (.interrupt i)) :
    (v.setInterrupt i (.sending (pending.eraseIdx k))).Matches ids (Function.update f n .gone) := by
  have hstock : v.stock (.interrupt i) = pending := by simp [stock, hi, Interrupting.stock]
  have hdebts : v.debts (.interrupt i) = [] := by simp [debts, hi, Interrupting.debts]
  obtain ⟨hlt, hagrees⟩ := h.found hf (by simp)
  apply h.move
  · exact sameStages_same rfl rfl rfl
  · simp [hf]
  · intro p m
    have hmn : (ids m, m) = (ids n, n) ↔ m = n := sender_iff
    have hmem : (ids m, m) ∈ pending.eraseIdx k ↔ (ids m, m) ∈ pending ∧ (ids m, m) ≠ (ids n, n) :=
      mem_eraseIdx_once hl he
    have hold := h.held p n
    rw [stock_setInterrupt]
    simp only [Function.update_apply, Interrupting.stock]
    grind
  · intro p m e hm
    have hold := h.owed p n e hlt
    rw [debts_setInterrupt]
    simp only [Function.update_apply, Interrupting.debts]
    grind
  · exact h.events_kept hf hlt rfl
  · intro m _
    rfl
  · intro m _
    rfl
  · exact ⟨.inl hagrees.1, hagrees.2⟩

theorem matches_announce {i seq : Nat} {pending : List (String × Nat)}
    (hi : v.interrupts i = .resolved (ids n) pending)
    (hf : f n = .owed (.interrupt i) (none, interruptedAnswer)) :
    ((v.answer (.questionAnswered (ids n) none interruptedAnswer)).setInterrupt i (.emitting seq pending)).Matches
      ids (Function.update f n (.told (none, interruptedAnswer))) := by
  have hstock : v.stock (.interrupt i) = pending := by simp [stock, hi, Interrupting.stock]
  have hdebts : v.debts (.interrupt i) = [(ids n, none, interruptedAnswer)] := by
    simp [debts, hi, Interrupting.debts]
  obtain ⟨hlt, hagrees⟩ := h.found hf (by simp)
  apply h.move
  · exact sameStages_same rfl rfl rfl
  · simp [hf]
  · intro p m
    have hold := h.held p n
    rw [stock_setInterrupt]
    simp only [Function.update_apply, Interrupting.stock]
    change _ ∈ (if p = .interrupt i then _ else v.stock p) ↔ _
    grind
  · intro p m e hm
    have hmn : ids m = ids n ↔ m = n := ⟨hd m hm n hlt, fun heq => by rw [heq]⟩
    have hold := h.owed p n e hlt
    rw [debts_setInterrupt]
    simp only [Function.update_apply, Interrupting.debts]
    change _ ∈ (if p = .interrupt i then _ else v.debts p) ↔ _
    grind
  · exact h.events_told hd hf hlt
  · intro m _
    rfl
  · intro m _
    rfl
  · exact hagrees

end Moves

end Silo.Frontend.View
