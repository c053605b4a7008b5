import Silo.Frontend.StandingSteps

namespace Silo.Frontend

open Silo.Core Silo.Harness

def Standing.drained (standing dest : Standing) : Standing :=
  match standing with
  | .held .map => dest
  | standing => standing

namespace View

variable {ids : Nat → String} {v w : View} {f : Nat → Standing} {c n : Nat}

theorem held_drained {dest : Standing} {p : Place} :
    (f n).drained dest = .held p ↔ f n = .held p ∧ p ≠ .map ∨ f n = .held .map ∧ dest = .held p := by
  cases hf : f n with
  | held q => cases q <;> simp [Standing.drained] <;> grind
  | _ => simp [Standing.drained]

theorem owed_drained {dest : Standing} {p : Place} {e : Told} (hdest : dest ≠ .owed p e) :
    (f n).drained dest = .owed p e ↔ f n = .owed p e := by
  cases hf : f n with
  | held q => cases q <;> simp [Standing.drained, hdest]
  | _ => simp [Standing.drained]

theorem events_drained {dest : Standing} (hdest : dest.events = []) :
    ((f n).drained dest).events = (f n).events := by
  cases hf : f n with
  | held q =>
      cases q with
      | map => exact hdest
      | _ => rfl
  | _ => rfl

theorem matches_interrupt (hk : v.Keyed ids) (h : v.Matches ids f) :
    View.Matches ids { v.setInterrupt v.interrupted (.sending v.questions) with
      questions := [], interrupted := v.interrupted + 1 }
      fun n => (f n).drained (.held (.interrupt v.interrupted)) := by
  have hspare := hk.spare v.interrupted (Nat.le_refl _)
  have hnone : v.stock (.interrupt v.interrupted) = [] := by simp [stock, hspare, Interrupting.stock]
  apply h.sameStages
  · exact sameStages_same rfl rfl rfl
  · intro p n
    rw [held_drained, ← h.held, ← h.held]
    cases p with
    | map => simp [stock]
    | conn d => simp [stock, setInterrupt]
    | interrupt j =>
        by_cases hj : j = v.interrupted
        · subst hj
          simp [stock, setInterrupt, Interrupting.stock, hspare]
        · simp [stock, setInterrupt, hj, Ne.symm hj]
  · intro p n e hn
    rw [owed_drained (by simp), ← h.owed p n e hn]
    cases p with
    | map => simp [debts]
    | conn d => simp [debts, setInterrupt]
    | interrupt j =>
        by_cases hj : j = v.interrupted
        · subst hj
          simp [debts, setInterrupt, Interrupting.debts, hspare]
        · simp [debts, setInterrupt, hj]
  · intro n hn
    rw [events_drained rfl, ← h.events n hn]
    rfl
  · intro n
    have hold := h.agrees n
    cases hf : f n with
    | held q =>
        rw [hf] at hold
        cases q <;> exact hold
    | _ =>
        rw [hf] at hold
        exact hold
  · intro n hn
    rw [hn]
    rfl

theorem matches_clear (hk : v.Keyed ids) (h : v.Matches ids f) :
    v.clear.Matches ids fun n => (f n).drained .gone := by
  have hmap (n : Nat) : n ∈ v.questions.map Prod.snd ↔ f n = .held .map := by
    rw [← h.held, List.mem_map]
    constructor
    · rintro ⟨e, he, rfl⟩
      have hid := hk.stock .map e he
      exact hid ▸ he
    · intro hn
      exact ⟨_, hn, rfl⟩
  have hstage (n : Nat) : (v.clear.calls n).stage = (v.calls n).stage := by
    simp only [clear]
    split <;> rfl
  have hslot {n : Nat} (hn : f n ≠ .held .map) : v.clear.calls n = v.calls n := by
    simp [clear, hmap, hn]
  apply h.sameStages
  · refine ⟨rfl, rfl, hstage, ?_⟩
    intro n result hn
    rw [hslot fun hf => h.unreturned hf hn]
  · intro p n
    rw [held_drained, ← h.held, ← h.held]
    cases p <;> simp [stock, clear]
  · intro p n e hn
    rw [owed_drained (by simp), ← h.owed p n e hn]
    cases p <;> simp [debts, clear]
  · intro n hn
    rw [events_drained rfl, ← h.events n hn]
    rfl
  · intro n
    have hold := h.agrees n
    by_cases hf : f n = .held .map
    · rw [hf] at hold ⊢
      refine ⟨.inr ?_, hold.2⟩
      simp [clear, hmap, hf]
    · have hsame : (f n).drained .gone = f n := by
        cases hfn : f n with
        | held q =>
            cases q with
            | map => exact absurd hfn hf
            | _ => rfl
        | _ => rfl
      rw [hsame]
      exact hold.congr (by rw [hslot hf]) rfl
  · intro n hn
    rw [hn]
    rfl

theorem matches_setStage (h : v.Matches ids f) {stage : CallStage} (hlive : (v.calls n).listening = true)
    (hr : ∀ result, stage = .returned result → (v.calls n).slot.result = some result) :
    (v.setStage n stage).Matches ids f := by
  have hslot (m : Nat) : ((v.setStage n stage).calls m).slot = (v.calls m).slot := by
    by_cases hm : m = n <;> simp [setStage, hm]
  have hother {m : Nat} (hm : m ≠ n) : (v.setStage n stage).calls m = v.calls m := by simp [setStage, hm]
  constructor
  · intro p m
    rw [← h.held]
    cases p <;> rfl
  · intro p m e hm
    rw [← h.owed p m e hm]
    cases p <;> rfl
  · exact h.events
  · intro m
    exact (h.agrees m).congr (hslot m) rfl
  · intro m hm
    have hold := h.unborn m hm
    have hne : m ≠ n := by
      rintro rfl
      simp [Call.listening, hold.2] at hlive
    rw [hother hne]
    exact hold
  · intro m result hm
    rw [hslot]
    by_cases hne : m = n
    · subst hne
      exact hr result (by simpa [setStage] using hm)
    · rw [hother hne] at hm
      exact h.returned m result hm
  · intro hd
    have hcalm := h.calm hd n
    rw [hlive] at hcalm
    cases hcalm

theorem Matches.lt_of_mem (hk : v.Keyed ids) (h : v.Matches ids f) {p : Place} {e : String × Nat}
    (he : e ∈ v.stock p) : e.2 < v.asked ∧ f e.2 = .held p := by
  have hid : (ids e.2, e.2) = e := Prod.ext (hk.stock p e he).symm rfl
  have hf : f e.2 = .held p := by
    rw [← h.held, hid]
    exact he
  exact ⟨h.lt (by simp [hf]), hf⟩

theorem ask_eq (hd : ∀ n < v.asked, ids n ≠ ids v.asked) (hk : v.Keyed ids) (h : v.Matches ids f) (agent : AgentId)
    (question : Json) : v.ask (ids v.asked) agent question =
      { v with
        questions := (ids v.asked, v.asked) :: v.questions
        calls := Function.update v.calls v.asked ⟨agent, question, .inserted, .empty⟩
        asked := v.asked + 1 } := by
  have hfresh (e : String × Nat) (he : e ∈ v.questions) : e.1 ≠ ids v.asked := by
    intro heq
    have hlt := (h.lt_of_mem hk (p := .map) he).1
    exact hd e.2 hlt ((hk.stock .map e he).symm.trans heq)
  have hnone : v.questions.lookup (ids v.asked) = none := by
    rw [List.lookup_eq_none_iff]
    intro e he
    simpa using (hfresh e he).symm
  have hfilter : v.questions.filter (fun e => e.1 ≠ ids v.asked) = v.questions := by
    rw [List.filter_eq_self]
    intro e he
    simpa using hfresh e he
  simp only [ask, hnone, hfilter]

theorem matches_ask (hd : ∀ n < v.asked, ids n ≠ ids v.asked) (hk : v.Keyed ids) (h : v.Matches ids f)
    (hup : v.down = false) (agent : AgentId) (question : Json) :
    (v.ask (ids v.asked) agent question).Matches ids (Function.update f v.asked (.held .map)) := by
  rw [ask_eq hd hk h]
  have hgone := (h.unborn v.asked (Nat.le_refl _)).1
  have hagrees := h.agrees v.asked
  rw [hgone] at hagrees
  constructor
  · intro p m
    have hmn : (ids m, m) = (ids v.asked, v.asked) ↔ m = v.asked :=
      ⟨fun heq => (Prod.mk.inj heq).2, fun heq => by rw [heq]⟩
    have hold := h.held p m
    have hnew := h.held p v.asked
    cases p <;> simp only [stock, List.mem_cons, Function.update_apply] at hold hnew ⊢ <;> grind
  · intro p m e hm
    have hm : m < v.asked + 1 := hm
    by_cases hne : m = v.asked
    · subst hne
      have hnone : (ids v.asked, e) ∉ v.debts p := by
        intro hmem
        obtain ⟨n, hn, heq⟩ := hk.debts p _ hmem
        exact hd n hn heq.symm
      rw [Function.update_self]
      cases p <;> simp_all [debts]
    · rw [Function.update_of_ne hne, ← h.owed p m e (by omega)]
      cases p <;> rfl
  · intro m hm
    have hm : m < v.asked + 1 := hm
    by_cases hne : m = v.asked
    · subst hne
      rw [Function.update_self]
      apply Classical.byContradiction
      intro hsome
      obtain ⟨n, hn, heq⟩ := hk.answers _ hsome
      exact hd n hn heq.symm
    · rw [Function.update_of_ne hne]
      exact h.events m (by omega)
  · intro m
    by_cases hm : m = v.asked
    · subst hm
      rw [Function.update_self]
      exact ⟨by simp, hagrees.2⟩
    · rw [Function.update_of_ne hm]
      exact (h.agrees m).congr (by simp [hm]) rfl
  · intro m hm
    have hm : v.asked + 1 ≤ m := hm
    have hne : m ≠ v.asked := by omega
    have hold := h.unborn m (by omega)
    rw [Function.update_of_ne hne]
    exact ⟨hold.1, by simp [hne, hold.2]⟩
  · intro m result hm
    by_cases hne : m = v.asked
    · subst hne
      simp at hm
    · simp only [Function.update_of_ne hne] at hm ⊢
      exact h.returned m result hm
  · intro hd
    rw [hup] at hd
    cases hd

theorem Keyed.follow (hk : v.Keyed ids) (ha : w.asked = v.asked)
    (hstock : ∀ p, ∃ q, (w.stock p).Sublist (v.stock q))
    (hdebts : ∀ p, ∀ d ∈ w.debts p, (∃ q, d ∈ v.debts q) ∨ ∃ n < v.asked, d.1 = ids n)
    (hanswers : ∀ id, w.answers id ≠ [] → v.answers id ≠ [] ∨ ∃ n < v.asked, id = ids n)
    (hspare : ∀ i, w.interrupted ≤ i → w.interrupts i = .unborn) : w.Keyed ids where
  stock p e he := by
    obtain ⟨q, hq⟩ := hstock p
    exact hk.stock q e (hq.subset he)
  once p := by
    obtain ⟨q, hq⟩ := hstock p
    exact (hk.once q).sublist hq
  debts p d hd := by
    rw [ha]
    rcases hdebts p d hd with ⟨q, hq⟩ | hn
    · exact hk.debts q d hq
    · exact hn
  answers id hid := by
    rw [ha]
    rcases hanswers id hid with h | h
    · exact hk.answers id h
    · exact h
  spare := hspare

theorem Keyed.congr (hk : v.Keyed ids) (hq : w.questions = v.questions) (hp : w.parts = v.parts)
    (hi : w.interrupts = v.interrupts) (hn : w.interrupted = v.interrupted) (ha : w.answers = v.answers)
    (hasked : w.asked = v.asked) : w.Keyed ids := by
  have hstock (p : Place) : w.stock p = v.stock p := by cases p <;> simp [View.stock, hq, hp, hi]
  have hdebts (p : Place) : w.debts p = v.debts p := by cases p <;> simp [View.debts, hp, hi]
  apply hk.follow hasked
  · intro p
    exact ⟨p, hstock p ▸ List.Sublist.refl _⟩
  · intro p d hd
    exact .inl ⟨p, hdebts p ▸ hd⟩
  · intro id hid
    exact .inl (ha ▸ hid)
  · rw [hn, hi]
    exact hk.spare

theorem Keyed.setPart (hk : v.Keyed ids) {part : Part} (hstock : ∃ q, part.stock.Sublist (v.stock q))
    (hdebts : ∀ d ∈ part.debts, ∃ n < v.asked, d.1 = ids n) : (v.setPart c part).Keyed ids := by
  apply hk.follow
  · rfl
  · intro p
    rw [stock_setPart, Function.update_apply]
    split
    · exact hstock
    · exact ⟨p, List.Sublist.refl _⟩
  · intro p d hd
    rw [debts_setPart, Function.update_apply] at hd
    split at hd
    · exact .inr (hdebts d hd)
    · exact .inl ⟨p, hd⟩
  · exact fun id hid => .inl hid
  · exact hk.spare

theorem Keyed.setInterrupt (hk : v.Keyed ids) {i : Nat} {interrupt : Interrupting}
    (hi : v.interrupts i ≠ .unborn) (hstock : ∃ q, interrupt.stock.Sublist (v.stock q))
    (hdebts : ∀ d ∈ interrupt.debts, ∃ n < v.asked, d.1 = ids n) : (v.setInterrupt i interrupt).Keyed ids := by
  apply hk.follow
  · rfl
  · intro p
    rw [stock_setInterrupt, Function.update_apply]
    split
    · exact hstock
    · exact ⟨p, List.Sublist.refl _⟩
  · intro p d hd
    rw [debts_setInterrupt, Function.update_apply] at hd
    split at hd
    · exact .inr (hdebts d hd)
    · exact .inl ⟨p, hd⟩
  · exact fun id hid => .inl hid
  · intro j hj
    have hne : j ≠ i := by
      rintro rfl
      exact hi (hk.spare j hj)
    have hspare := hk.spare j hj
    simpa [View.setInterrupt, hne] using hspare

theorem Keyed.remove (hk : v.Keyed ids) (id : String) : (v.remove id).Keyed ids := by
  apply hk.follow
  · rfl
  · intro p
    rw [stock_remove, Function.update_apply]
    split
    · exact ⟨.map, List.filter_sublist⟩
    · exact ⟨p, List.Sublist.refl _⟩
  · intro p d hd
    refine .inl ⟨p, ?_⟩
    cases p <;> exact hd
  · exact fun id hid => .inl hid
  · exact hk.spare

theorem Keyed.answer (hk : v.Keyed ids) (hn : n < v.asked) (clientId : Option String) (answer : String) :
    (v.answer (.questionAnswered (ids n) clientId answer)).Keyed ids := by
  apply hk.follow
  · rfl
  · intro p
    refine ⟨p, ?_⟩
    cases p <;> exact List.Sublist.refl _
  · intro p d hd
    refine .inl ⟨p, ?_⟩
    cases p <;> exact hd
  · intro id hid
    by_cases heq : ids n = id
    · exact .inr ⟨n, hn, heq.symm⟩
    · left
      simpa [View.answer, answerTo, heq] using hid
  · exact hk.spare

theorem Keyed.ask (hd : ∀ n < v.asked, ids n ≠ ids v.asked) (hk : v.Keyed ids) (h : v.Matches ids f) (agent : AgentId)
    (question : Json) : (v.ask (ids v.asked) agent question).Keyed ids := by
  rw [ask_eq hd hk h]
  have hnew : (ids v.asked, v.asked) ∉ v.questions := by
    intro hmem
    exact Nat.lt_irrefl _ (h.lt_of_mem hk (p := .map) hmem).1
  constructor
  · intro p e he
    cases p with
    | map =>
        rcases List.mem_cons.mp he with rfl | he
        · rfl
        · exact hk.stock .map e he
    | conn d => exact hk.stock (.conn d) e he
    | interrupt i => exact hk.stock (.interrupt i) e he
  · intro p
    cases p with
    | map => exact List.nodup_cons.mpr ⟨hnew, hk.once .map⟩
    | conn d => exact hk.once (.conn d)
    | interrupt i => exact hk.once (.interrupt i)
  · intro p d hd
    have hmem : d ∈ v.debts p := by cases p <;> exact hd
    obtain ⟨n, hn, hid⟩ := hk.debts p d hmem
    exact ⟨n, Nat.lt_succ_of_lt hn, hid⟩
  · intro id hid
    obtain ⟨n, hn, heq⟩ := hk.answers id hid
    exact ⟨n, Nat.lt_succ_of_lt hn, heq⟩
  · exact hk.spare

theorem Keyed.interrupt (hk : v.Keyed ids) :
    View.Keyed ids { v.setInterrupt v.interrupted (.sending v.questions) with
      questions := [], interrupted := v.interrupted + 1 } := by
  apply hk.follow
  · rfl
  · intro p
    cases p with
    | map => exact ⟨.map, List.nil_sublist _⟩
    | conn d => exact ⟨.conn d, List.Sublist.refl _⟩
    | interrupt j =>
        by_cases hj : j = v.interrupted
        · refine ⟨.map, ?_⟩
          simp [View.stock, View.setInterrupt, hj, Interrupting.stock]
        · refine ⟨.interrupt j, ?_⟩
          simp [View.stock, View.setInterrupt, hj]
  · intro p d hd
    refine .inl ⟨p, ?_⟩
    cases p with
    | map => exact hd
    | conn d => exact hd
    | interrupt j =>
        by_cases hj : j = v.interrupted
        · simp [View.debts, View.setInterrupt, hj, Interrupting.debts] at hd
        · simpa [View.debts, View.setInterrupt, hj] using hd
  · exact fun id hid => .inl hid
  · intro j hj
    have hj : v.interrupted + 1 ≤ j := hj
    have hne : j ≠ v.interrupted := by omega
    have hspare := hk.spare j (by omega)
    simpa [View.setInterrupt, hne] using hspare

theorem Keyed.clear (hk : v.Keyed ids) : v.clear.Keyed ids := by
  apply hk.follow
  · rfl
  · intro p
    cases p with
    | map => exact ⟨.map, List.nil_sublist _⟩
    | conn d => exact ⟨.conn d, List.Sublist.refl _⟩
    | interrupt j => exact ⟨.interrupt j, List.Sublist.refl _⟩
  · intro p d hd
    refine .inl ⟨p, ?_⟩
    cases p <;> exact hd
  · exact fun id hid => .inl hid
  · exact hk.spare

theorem matches_resume (h : v.Matches ids f) {i seq : Nat} {pending : List (String × Nat)}
    (hi : v.interrupts i = .emitting seq pending) : (v.setInterrupt i (.sending pending)).Matches ids f := by
  have hstock : Interrupting.stock (.sending pending) = v.stock (.interrupt i) := by
    simp [stock, hi, Interrupting.stock]
  have hdebts : Interrupting.debts (.sending pending) = v.debts (.interrupt i) := by
    simp [debts, hi, Interrupting.debts]
  apply h.sameStages
  · exact sameStages_same rfl rfl rfl
  · rw [stock_setInterrupt, hstock, Function.update_eq_self]
    exact h.held
  · rw [debts_setInterrupt, hdebts, Function.update_eq_self]
    exact h.owed
  · exact h.events
  · exact h.agrees
  · exact fun _ hn => hn

theorem matches_shutdown (h : v.Matches ids f) (hcalls : ∀ n < v.asked, (v.calls n).listening = false) :
    View.Matches ids { v with down := true } f := by
  constructor
  · intro p n
    rw [← h.held]
    cases p <;> rfl
  · intro p n e hn
    rw [← h.owed p n e hn]
    cases p <;> rfl
  · exact h.events
  · exact h.agrees
  · exact h.unborn
  · exact h.returned
  · intro _ n
    by_cases hn : n < v.asked
    · exact hcalls n hn
    · have hunborn := (h.unborn n (by omega)).2
      simp [Call.listening, hunborn]

/-- The invariant of questions. -/
def Sound (ids : Nat → String) (v : View) : Prop := v.Keyed ids ∧ ∃ f, v.Matches ids f

theorem mem_of_lookup {id : String} (h : v.questions.lookup id = some n) : (id, n) ∈ v.questions := by
  obtain ⟨before, after, heq, -⟩ := List.lookup_eq_some_iff.mp h
  simp [heq]

theorem step_asked (hs : v.Step ids w) : v.asked ≤ w.asked := by
  cases hs with
  | ask agent question hup =>
      simp only [ask]
      split
      · exact Nat.le_succ _
      · exact Nat.le_succ _
  | _ => exact Nat.le_refl _

theorem Distinct.mono (hd : w.Distinct ids) (hle : v.asked ≤ w.asked) : v.Distinct ids := by
  intro m hm n hn heq
  exact hd m (by omega) n (by omega) heq

theorem sound_step (hd : w.Distinct ids) (hv : v.Sound ids) (hs : v.Step ids w) : w.Sound ids := by
  obtain ⟨hk, f, h⟩ := hv
  have hdv : v.Distinct ids := hd.mono (step_asked hs)
  -- A sender at a place goes with its question.
  have hid {p : Place} {id : String} {n : Nat} (hmem : (id, n) ∈ v.stock p) : id = ids n ∧ f n = .held p :=
    ⟨hk.stock p _ hmem, (h.lt_of_mem hk hmem).2⟩
  cases hs with
  | ask agent question hup =>
      have hfresh : ∀ n < v.asked, ids n ≠ ids v.asked := by
        have hasked : (v.ask (ids v.asked) agent question).asked = v.asked + 1 := by
          simp only [ask]
          split <;> rfl
        intro n hn heq
        have hsame := hd n (by omega) v.asked (by omega) heq
        omega
      exact ⟨hk.ask hfresh h agent question, _, matches_ask hfresh hk h hup agent question⟩
  | wait n seq hn =>
      refine ⟨hk.congr rfl rfl rfl rfl rfl rfl, f, matches_setStage h (by simp [Call.listening, hn]) ?_⟩
      rintro result ⟨⟩
  | poll n seq result hn hr =>
      refine ⟨hk.congr rfl rfl rfl rfl rfl rfl, f, matches_setStage h (by simp [Call.listening, hn]) ?_⟩
      rintro result' ⟨⟩
      exact hr
  | observe n seq result hn hdown =>
      have hcalm := h.calm hdown n
      simp [Call.listening, hn] at hcalm
  | drop n seq hn =>
      refine ⟨hk.congr rfl rfl rfl rfl rfl rfl, f, matches_setStage h (by simp [Call.listening, hn]) ?_⟩
      rintro result ⟨⟩
  | take c client id n answer hc hn =>
      obtain ⟨rfl, hf⟩ := hid (p := .map) (mem_of_lookup hn)
      have hput : (v.setPart c (.holding client (ids n) n answer)).Keyed ids :=
        hk.setPart ⟨.map, List.singleton_sublist.mpr (mem_of_lookup hn)⟩ (by simp [Part.debts])
      exact ⟨hput.remove (ids n), _, matches_take hdv h hc hf⟩
  | send c client id n answer hc hlive =>
      have hmem : (id, n) ∈ v.stock (.conn c) := by simp [stock, hc, Part.stock]
      obtain ⟨rfl, hf⟩ := hid hmem
      have hput : (v.setPart c (.owing client (ids n) answer)).Keyed ids := by
        refine hk.setPart ⟨.map, List.nil_sublist _⟩ ?_
        intro d hd
        exact ⟨n, h.lt (by simp [hf]), by simpa [Part.debts] using congrArg Prod.fst (List.mem_singleton.mp hd)⟩
      exact ⟨hput.congr rfl rfl rfl rfl rfl rfl, _, matches_send hdv h hc hf⟩
  | lose c client id n answer hc hgone =>
      have hmem : (id, n) ∈ v.stock (.conn c) := by simp [stock, hc, Part.stock]
      obtain ⟨rfl, hf⟩ := hid hmem
      exact ⟨hk.setPart ⟨.map, List.nil_sublist _⟩ (by simp [Part.debts]), _, matches_lose h hc hf⟩
  | tell c client id answer hc =>
      have hdebt : (id, some client.id, answer) ∈ v.debts (.conn c) := by simp [debts, hc, Part.debts]
      obtain ⟨n, hn, rfl⟩ := hk.debts _ _ hdebt
      have hf := (h.owed _ _ _ hn).mp hdebt
      exact ⟨(hk.answer hn _ _).setPart ⟨.map, List.nil_sublist _⟩ (by simp [Part.debts]), _,
        matches_tell hdv h hc hf⟩
  | interrupt hup => exact ⟨hk.interrupt, _, matches_interrupt hk h⟩
  | strike i k pending e hi he hlive =>
      have hstock : v.stock (.interrupt i) = pending := by simp [stock, hi, Interrupting.stock]
      have hmem : e ∈ v.stock (.interrupt i) := hstock ▸ List.mem_of_getElem? he
      obtain ⟨id, n⟩ := e
      obtain ⟨rfl, hf⟩ := hid hmem
      have hput : (v.setInterrupt i (.resolved (ids n) (pending.eraseIdx k))).Keyed ids := by
        apply hk.setInterrupt (by simp [hi]) ⟨.interrupt i, hstock ▸ List.eraseIdx_sublist pending k⟩
        intro d hd
        exact ⟨n, h.lt (by simp [hf]), by simpa [Interrupting.debts] using congrArg Prod.fst (List.mem_singleton.mp hd)⟩
      exact ⟨hput.congr rfl rfl rfl rfl rfl rfl, _, matches_strike hdv h (hstock ▸ hk.once (.interrupt i)) hi he hf⟩
  | miss i k pending e hi he hgone =>
      have hstock : v.stock (.interrupt i) = pending := by simp [stock, hi, Interrupting.stock]
      have hmem : e ∈ v.stock (.interrupt i) := hstock ▸ List.mem_of_getElem? he
      obtain ⟨id, n⟩ := e
      obtain ⟨rfl, hf⟩ := hid hmem
      exact ⟨hk.setInterrupt (by simp [hi]) ⟨.interrupt i, hstock ▸ List.eraseIdx_sublist pending k⟩
        (by simp [Interrupting.debts]), _, matches_miss h (hstock ▸ hk.once (.interrupt i)) hi he hf⟩
  | announce i seq id pending hi =>
      have hdebt : (id, none, interruptedAnswer) ∈ v.debts (.interrupt i) := by
        simp [debts, hi, Interrupting.debts]
      obtain ⟨n, hn, rfl⟩ := hk.debts _ _ hdebt
      have hf := (h.owed _ _ _ hn).mp hdebt
      refine ⟨(hk.answer hn _ _).setInterrupt (by simp [View.answer, hi]) ⟨.interrupt i, ?_⟩
        (by simp [Interrupting.debts]), _, matches_announce hdv h hi hf⟩
      simp [View.answer, stock, hi, Interrupting.stock]
  | resume i seq pending hi =>
      refine ⟨hk.setInterrupt (by simp [hi]) ⟨.interrupt i, ?_⟩ (by simp [Interrupting.debts]), f,
        matches_resume h hi⟩
      simp [stock, hi, Interrupting.stock]
  | shutdown hcalls => exact ⟨hk.congr rfl rfl rfl rfl rfl rfl, f, matches_shutdown h hcalls⟩
  | clear hdown => exact ⟨hk.clear, _, matches_clear hk h⟩

end View

end Silo.Frontend
