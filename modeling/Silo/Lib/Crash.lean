import Mathlib.Logic.Relation
import Silo.Lib.Prog

namespace Silo.Lib

namespace Prog

variable {Op : Type → Type} {α β ι σ : Type}

/-- The states of a run, from the one it starts in to the one it ends in. A program that is
stopped leaves one of them. -/
def moments (H : Handler Op σ) : {α : Type} → Prog Op α → List Bool → σ → List σ
  | _, done _, _, s => [s]
  | _, op o k, fs, s =>
    s :: moments H (k (H.run o (fs.headD false) s).1) fs.tail (H.run o (fs.headD false) s).2
  | _, atomic body k, fs, s => moments H body fs s ++
    moments H (k (run H body fs s).1) (run H body fs s).2.1 (run H body fs s).2.2

/-- Every operation may fail. -/
def anyFault : Faults Op σ := fun _ _ _ _ => True

/-- `t` is what some run whose failures are among those `F` allows leaves when it is stopped. -/
def Leaves (H : Handler Op σ) (F : Faults Op σ) (p : Prog Op α) (s t : σ) : Prop :=
  ∃ fs, p.Admits H F fs s ∧ t ∈ p.moments H fs s

/-- Every run whose failures are among those `F` allows keeps `I` at every moment, and ends
in `Q`. -/
def during (H : Handler Op σ) (F : Faults Op σ) (I : σ → Prop) :
    {α : Type} → Prog Op α → (α → σ → Prop) → σ → Prop
  | _, done a, Q, s => I s ∧ Q a s
  | _, op o k, Q, s => I s ∧ ∀ b, F _ o s b → during H F I (k (H.run o b s).1) Q (H.run o b s).2
  | _, atomic body k, Q, s => during H F I body (fun b => during H F I (k b) Q) s

variable {H : Handler Op σ} {F : Faults Op σ} {I J : σ → Prop} {Q R : α → σ → Prop} {s t : σ}

theorem during_now {p : Prog Op α} (h : p.during H F I Q s) : I s := by
  induction p with
  | done a => exact h.1
  | op o k ih => exact h.1
  | atomic body k ihb ihk => exact ihb h

theorem during_mono {p : Prog Op α} (hIJ : ∀ s, I s → J s) (hQR : ∀ a s, I s → Q a s → R a s)
    (h : p.during H F I Q s) : p.during H F J R s := by
  induction p generalizing s with
  | done a => exact ⟨hIJ s h.1, hQR a s h.1 h.2⟩
  | op o k ih => exact ⟨hIJ s h.1, fun b hb => ih _ hQR (h.2 b hb)⟩
  | atomic body k ihb ihk => exact ihb (fun b t _ ht => ihk b hQR ht) h

theorem during_bind (p : Prog Op α) (f : α → Prog Op β) (Q : β → σ → Prop) (s : σ) :
    (p.bind f).during H F I Q s ↔ p.during H F I (fun a => (f a).during H F I Q) s := by
  induction p generalizing s with
  | done a =>
      constructor
      · exact fun h => ⟨during_now h, h⟩
      · exact fun h => h.2
  | op o k ih => exact and_congr_right fun _ => forall_congr' fun b => forall_congr' fun _ => ih _ f _
  | atomic body k _ ih =>
      constructor
      · exact during_mono (fun _ h => h) fun b t _ ht => (ih b f t).mp ht
      · exact during_mono (fun _ h => h) fun b t _ ht => (ih b f t).mpr ht

theorem wp_of_during {p : Prog Op α} (h : p.during H F I Q s) : p.wp H F Q s := by
  induction p generalizing s with
  | done a => exact h.2
  | op o k ih => exact fun b hb => ih _ (h.2 b hb)
  | atomic body k ihb ihk => exact wp_mono (fun b t ht => ihk b ht) body (ihb h)

theorem moments_of_during {p : Prog Op α} {fs : List Bool} (h : p.during H F I Q s)
    (hf : p.Admits H F fs s) : ∀ t ∈ p.moments H fs s, I t := by
  induction p generalizing fs s with
  | done a =>
      intro t ht
      rw [moments, List.mem_singleton] at ht
      exact ht ▸ h.1
  | op o k ih =>
      intro t ht
      rcases List.mem_cons.mp ht with rfl | ht
      · exact h.1
      · exact ih _ (h.2 _ hf.1) hf.2 t ht
  | atomic body k ihb ihk =>
      intro t ht
      have hbody : body.during H F I (fun b => (k b).during H F I Q) s := h
      rcases List.mem_append.mp ht with ht | ht
      · exact ihb hbody hf.1 t ht
      · have hrest := run_of_wp (wp_of_during hbody) hf.1
        exact ihk _ hrest hf.2 t ht

theorem run_of_during {p : Prog Op α} {fs : List Bool} (h : p.during H F I Q s) (hf : p.Admits H F fs s) :
    Q (p.run H fs s).1 (p.run H fs s).2.2 :=
  run_of_wp (wp_of_during h) hf

theorem leaves_of_during {p : Prog Op α} (h : p.during H F I Q s) (ht : p.Leaves H F s t) : I t := by
  obtain ⟨fs, hf, ht⟩ := ht
  exact moments_of_during h hf t ht

/-- What programs keep at every moment, they keep however often they are stopped and run again. -/
theorem reruns_of_during {p : ι → Prog Op α} (h : ∀ i s, I s → (p i).during H F I (fun _ _ => True) s) (hs : I s)
    (ht : Relation.ReflTransGen (fun s t => ∃ i, (p i).Leaves H F s t) s t) : I t := by
  induction ht with
  | refl => exact hs
  | tail _ hstep ih =>
      obtain ⟨i, hi⟩ := hstep
      exact leaves_of_during (h i _ ih) hi

theorem leaves_run {p : Prog Op α} {fs : List Bool} (hf : p.Admits H F fs s) :
    p.Leaves H F s (p.run H fs s).2.2 := by
  refine ⟨fs, hf, ?_⟩
  clear hf
  induction p generalizing fs s with
  | done a => exact List.mem_cons_self
  | op o k ih => exact List.mem_cons_of_mem _ (ih ..)
  | atomic body k ihb ihk => exact List.mem_append.mpr (.inr (ihk ..))

theorem admits_nil (hF : ∀ β o s, F β o s false) (p : Prog Op α) (s : σ) : p.Admits H F [] s := by
  induction p generalizing s with
  | done a => trivial
  | op o k ih => exact ⟨hF _ o s, ih _ _⟩
  | atomic body k ihb ihk =>
      refine ⟨ihb s, ?_⟩
      rw [run_nil]
      exact ihk _ _

variable {P : (β : Type) → Op β → Prop}

/-- What every operation of a program keeps, holds at every moment of it. -/
theorem Only.during {p : Prog Op α}
    (hI : ∀ {β : Type} {o : Op β} {s : σ} (b : Bool), P β o → I s → I (H.run o b s).2)
    (hp : p.Only P) (hs : I s) : p.during H F I (fun _ => I) s := by
  induction p generalizing s with
  | done a => exact ⟨hs, hs⟩
  | op o k ih => exact ⟨hs, fun b _ => ih _ (hp.2 _) (hI b hp.1 hs)⟩
  | atomic body k ihb ihk =>
      have hbody : body.during H F I (fun _ => I) s := ihb hp.1 hs
      show body.during H F I (fun b => (k b).during H F I fun _ => I) s
      exact during_mono (fun _ h => h) (fun b t _ ht => ihk b (hp.2 b) ht) hbody

end Prog

namespace Io

variable {Op : Type → Type} {ε δ α β ι σ : Type}

def during (H : Handler Op σ) (F : Prog.Faults Op σ) (I : σ → Prop) (x : Io Op ε α)
    (Q : Except ε α → σ → Prop) : σ → Prop :=
  Prog.during H F I x Q

variable {H : Handler Op σ} {F : Prog.Faults Op σ} {I J : σ → Prop} {Q R : Except ε α → σ → Prop} {s : σ}

theorem during_now {x : Io Op ε α} (h : x.during H F I Q s) : I s := Prog.during_now h

theorem during_mono {x : Io Op ε α} (hIJ : ∀ s, I s → J s) (hQR : ∀ r s, I s → Q r s → R r s)
    (h : x.during H F I Q s) : x.during H F J R s :=
  Prog.during_mono hIJ hQR h

theorem wp_of_during {x : Io Op ε α} (h : x.during H F I Q s) : x.wp H F Q s := Prog.wp_of_during h

@[simp] theorem during_pure (a : α) : (pure a : Io Op ε α).during H F I Q s ↔ I s ∧ Q (.ok a) s := .rfl

@[simp] theorem during_fail (e : ε) : (fail e : Io Op ε α).during H F I Q s ↔ I s ∧ Q (.error e) s := .rfl

theorem during_bind (x : Io Op ε α) (f : α → Io Op ε β) (Q : Except ε β → σ → Prop) :
    (x >>= f).during H F I Q s ↔ x.during H F I (fun
      | .ok a => (f a).during H F I Q
      | .error e => Q (.error e)) s := by
  refine (Prog.during_bind x _ Q s).trans ?_
  constructor
  · apply Prog.during_mono fun _ h => h
    rintro (e | a) t _ h
    · exact h.2
    · exact h
  · apply Prog.during_mono fun _ h => h
    rintro (e | a) t hI h
    · exact ⟨hI, h⟩
    · exact h

theorem during_call (f : δ → ε) (o : Op (Except δ α)) (hs : I s)
    (h : ∀ b, F _ o s b → I (H.run o b s).2 ∧ match (H.run o b s).1 with
      | .ok a => Q (.ok a) (H.run o b s).2
      | .error e => Q (.error (f e)) (H.run o b s).2) : (call f o).during H F I Q s := by
  refine ⟨hs, fun b hb => ?_⟩
  have hafter := h b hb
  cases hr : (H.run o b s).1 with
  | ok a =>
      rw [hr] at hafter
      exact hafter
  | error e =>
      rw [hr] at hafter
      exact hafter

theorem during_ask (o : Op α) (hs : I s)
    (h : ∀ b, F _ o s b → I (H.run o b s).2 ∧ Q (.ok (H.run o b s).1) (H.run o b s).2) :
    (ask o : Io Op ε α).during H F I Q s :=
  ⟨hs, h⟩

theorem during_attempt (x : Io Op ε α) (Q : Except ε (Except ε α) → σ → Prop) :
    x.attempt.during H F I Q s ↔ x.during H F I (fun r => Q (.ok r)) s := by
  refine (Prog.during_bind x _ Q s).trans ⟨?_, ?_⟩
  · exact Prog.during_mono (fun _ h => h) fun r t _ h => h.2
  · exact Prog.during_mono (fun _ h => h) fun r t hI h => ⟨hI, h⟩

theorem during_ignore (x : Io Op ε α) (Q : Except ε Unit → σ → Prop) :
    x.ignore.during H F I Q s ↔ x.during H F I (fun _ => Q (.ok ())) s := by
  refine (Prog.during_bind x _ Q s).trans ⟨?_, ?_⟩
  · exact Prog.during_mono (fun _ h => h) fun r t _ h => h.2
  · exact Prog.during_mono (fun _ h => h) fun r t hI h => ⟨hI, h⟩

theorem during_mapErr (f : ε → ε) (x : Io Op ε α) (hQ : x.during H F I (fun
      | .ok a => Q (.ok a)
      | .error e => Q (.error (f e))) s) : (x.mapErr f).during H F I Q s := by
  refine (Prog.during_bind x _ Q s).mpr (Prog.during_mono (fun _ h => h) ?_ hQ)
  rintro (e | a) t hI h <;> exact ⟨hI, h⟩

theorem during_when {b : Bool} {x : Io Op ε Unit} {Q : Except ε Unit → σ → Prop} (hs : I s)
    (hno : b = false → Q (.ok ()) s) (hyes : b = true → x.during H F I Q s) : (when b x).during H F I Q s := by
  cases b with
  | false => exact ⟨hs, hno rfl⟩
  | true => exact hyes rfl

theorem during_ofExcept {r : Except ε α} (hs : I s) (h : Q r s) : (ofExcept r : Io Op ε α).during H F I Q s := by
  cases r <;> exact ⟨hs, h⟩

theorem during_locked {x : Io Op ε α} (h : x.during H F I Q s) : x.locked.during H F I Q s := by
  show Prog.during H F I x (fun r t => I t ∧ Q r t) s
  exact Prog.during_mono (fun _ h => h) (fun _ _ hI h => ⟨hI, h⟩) h

/-- The loop rule: `L done` holds when the elements `done` are dealt with. A pass that fails
ends the loop. -/
theorem during_forEach {f : ι → Io Op ε Unit} {is : List ι} (L : List ι → σ → Prop)
    {Q : Except ε Unit → σ → Prop}
    (hpass : ∀ before i after, is = before ++ i :: after → ∀ s, L before s →
      (f i).during H F I (fun
        | .ok _ => L (before ++ [i])
        | .error e => Q (.error e)) s)
    (hend : ∀ s, L is s → Q (.ok ()) s) (hI : ∀ before s, L before s → I s) (hs : L [] s) :
    (forEach f is).during H F I Q s := by
  have hloop : ∀ after before, is = before ++ after → ∀ s, L before s →
      (forEach f after).during H F I Q s := by
    intro after
    induction after with
    | nil =>
        intro before his s hbefore
        rw [List.append_nil] at his
        exact ⟨hI before s hbefore, hend s (his ▸ hbefore)⟩
    | cons i after ih =>
        intro before his s hbefore
        rw [forEach, during_bind]
        refine during_mono (fun _ h => h) ?_ (hpass before i after his s hbefore)
        rintro (e | _) t _ ht
        · exact ht
        · exact ih (before ++ [i]) (by rw [his, List.append_assoc]; rfl) t ht
  exact hloop is [] rfl s hs

theorem during_forEach_same {f : ι → Io Op ε Unit} {is : List ι} {L : σ → Prop}
    (hpass : ∀ i ∈ is, ∀ s, L s → (f i).during H F L (fun _ => L) s) (hs : L s) :
    (forEach f is).during H F L (fun _ => L) s := by
  refine during_forEach (fun _ => L) (fun before i after his s hL => ?_) (fun _ h => h) (fun _ _ h => h) hs
  refine during_mono (fun _ h => h) ?_ (hpass i (by rw [his]; simp) s hL)
  rintro (e | _) t _ h <;> exact h

section

variable {P : (β : Type) → Op β → Prop}

theorem only_call {f : δ → ε} {o : Op (Except δ α)} (h : P _ o) : (call f o).Only P := by
  refine ⟨h, fun r => ?_⟩
  cases r <;> trivial

theorem only_ask {o : Op α} (h : P _ o) : (ask o : Io Op ε α).Only P := ⟨h, fun _ => trivial⟩

theorem only_ofExcept {r : Except ε α} : (ofExcept r : Io Op ε α).Only P := by
  cases r <;> trivial

theorem Only.ignore {x : Io Op ε α} (h : x.Only P) : x.ignore.Only P := Prog.Only.bind h fun _ => trivial

theorem Only.mapErr {x : Io Op ε α} {f : ε → ε} (h : x.Only P) : (x.mapErr f).Only P := by
  refine Prog.Only.bind h fun r => ?_
  cases r <;> trivial

theorem only_forEach {f : ι → Io Op ε Unit} {is : List ι} (h : ∀ i ∈ is, (f i).Only P) : (forEach f is).Only P := by
  induction is with
  | nil => trivial
  | cons i is ih => exact (h i List.mem_cons_self).bind fun _ => ih fun j hj => h j (List.mem_cons_of_mem i hj)

theorem only_fold {f : β → ι → Io Op ε β} {is : List ι} (h : ∀ b, ∀ i ∈ is, (f b i).Only P) (b : β) :
    (fold f b is).Only P := by
  induction is generalizing b with
  | nil => trivial
  | cons i is ih =>
      exact (h b i List.mem_cons_self).bind fun b => ih (fun b j hj => h b j (List.mem_cons_of_mem i hj)) b

end

end Io

end Silo.Lib
