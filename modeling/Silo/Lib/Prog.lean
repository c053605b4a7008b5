import Mathlib.Logic.Basic

namespace Silo.Lib

/-- A program over the operations `Op`. Other programs can come between two
operations, except between those of an `atomic` block. -/
inductive Prog (Op : Type → Type) : Type → Type 1
  | done {α : Type} (a : α) : Prog Op α
  | op {α β : Type} (o : Op β) (k : β → Prog Op α) : Prog Op α
  | atomic {α β : Type} (body : Prog Op β) (k : β → Prog Op α) : Prog Op α

/-- What an operation does to the state `σ`. The flag tells whether it is made
to fail. -/
structure Handler (Op : Type → Type) (σ : Type) where
  run : {β : Type} → Op β → Bool → σ → β × σ

namespace Prog

variable {Op : Type → Type} {α β γ σ : Type}

def bind : Prog Op α → (α → Prog Op β) → Prog Op β
  | done a, f => f a
  | op o k, f => op o fun b => bind (k b) f
  | atomic body k, f => atomic body fun b => bind (k b) f

instance : Monad (Prog Op) where
  pure := done
  bind := bind

theorem bind_assoc (p : Prog Op α) (f : α → Prog Op β) (g : β → Prog Op γ) :
    (p.bind f).bind g = p.bind fun a => (f a).bind g := by
  induction p with
  | done a => rfl
  | op o k ih => simp only [bind, ih]
  | atomic body k _ ih => simp only [bind, ih]

/-- A whole run. The flags say, operation by operation, which ones fail; past
the end of the list none does. -/
def run (H : Handler Op σ) : {α : Type} → Prog Op α → List Bool → σ → α × List Bool × σ
  | _, done a, fs, s => (a, fs, s)
  | _, op o k, fs, s =>
    run H (k (H.run o (fs.headD false) s).1) fs.tail (H.run o (fs.headD false) s).2
  | _, atomic body k, fs, s =>
    run H (k (run H body fs s).1) (run H body fs s).2.1 (run H body fs s).2.2

def exec (H : Handler Op σ) (p : Prog Op α) (s : σ) : α × σ :=
  ((run H p [] s).1, (run H p [] s).2.2)

def step (H : Handler Op σ) (fs : List Bool) (s : σ) : Prog Op α → Option (Prog Op α × σ)
  | done _ => none
  | op o k => some (k (H.run o (fs.headD false) s).1, (H.run o (fs.headD false) s).2)
  | atomic body k => some (k (run H body fs s).1, (run H body fs s).2.2)

/-- Which operations may fail or go well, in which states. -/
def Faults (Op : Type → Type) (σ : Type) : Type 1 := ∀ β : Type, Op β → σ → Bool → Prop

/-- Every run whose failures are among those `F` allows ends in `Q`. -/
def wp (H : Handler Op σ) (F : Faults Op σ) :
    {α : Type} → Prog Op α → (α → σ → Prop) → σ → Prop
  | _, done a, Q, s => Q a s
  | _, op o k, Q, s => ∀ b, F _ o s b → wp H F (k (H.run o b s).1) Q (H.run o b s).2
  | _, atomic body k, Q, s => wp H F body (fun b => wp H F (k b) Q) s

variable {H : Handler Op σ} {F : Faults Op σ}

theorem wp_mono {Q R : α → σ → Prop} (hQR : ∀ a s, Q a s → R a s) (p : Prog Op α) {s : σ}
    (h : p.wp H F Q s) : p.wp H F R s := by
  induction p generalizing s with
  | done a => exact hQR a s h
  | op o k ih => exact fun b hb => ih _ hQR (h b hb)
  | atomic body k ihb ihk => exact ihb (fun b t ht => ihk b hQR ht) h

theorem wp_bind (p : Prog Op α) (f : α → Prog Op β) (Q : β → σ → Prop) (s : σ) :
    (p.bind f).wp H F Q s ↔ p.wp H F (fun a => (f a).wp H F Q) s := by
  induction p generalizing s with
  | done a => rfl
  | op o k ih => exact forall_congr' fun b => forall_congr' fun _ => ih _ f _
  | atomic body k _ ih =>
      constructor
      · exact body.wp_mono fun b t ht => (ih b f t).mp ht
      · exact body.wp_mono fun b t ht => (ih b f t).mpr ht

def Admits (H : Handler Op σ) (F : Faults Op σ) :
    {α : Type} → Prog Op α → List Bool → σ → Prop
  | _, done _, _, _ => True
  | _, op o k, fs, s => F _ o s (fs.headD false) ∧
      Admits H F (k (H.run o (fs.headD false) s).1) fs.tail (H.run o (fs.headD false) s).2
  | _, atomic body k, fs, s => Admits H F body fs s ∧
      Admits H F (k (run H body fs s).1) (run H body fs s).2.1 (run H body fs s).2.2

theorem run_of_wp {Q : α → σ → Prop} {p : Prog Op α} {fs : List Bool} {s : σ}
    (h : p.wp H F Q s) (hf : p.Admits H F fs s) : Q (p.run H fs s).1 (p.run H fs s).2.2 := by
  induction p generalizing fs s with
  | done a => exact h
  | op o k ih => exact ih _ (h _ hf.1) hf.2
  | atomic body k ihb ihk => exact ihk _ (ihb h hf.1) hf.2

theorem admits_of_forall (hF : ∀ β o s b, F β o s b) (p : Prog Op α)
    (fs : List Bool) (s : σ) : p.Admits H F fs s := by
  induction p generalizing fs s with
  | done a => trivial
  | op o k ih => exact ⟨hF _ _ _ _, ih _ _ _⟩
  | atomic body k ihb ihk => exact ⟨ihb _ _, ihk _ _ _⟩

/-- Every operation the program can come to is one of `P`. -/
def Only (P : (β : Type) → Op β → Prop) : {α : Type} → Prog Op α → Prop
  | _, done _ => True
  | _, op o k => P _ o ∧ ∀ b, Only P (k b)
  | _, atomic body k => Only P body ∧ ∀ b, Only P (k b)

variable {P : (β : Type) → Op β → Prop}

theorem Only.bind {p : Prog Op α} {f : α → Prog Op β} (hp : p.Only P) (hf : ∀ a, (f a).Only P) :
    (p.bind f).Only P := by
  induction p with
  | done a => exact hf a
  | op o k ih => exact ⟨hp.1, fun b => ih b (hp.2 b) hf⟩
  | atomic body k _ ih => exact ⟨hp.1, fun b => ih b (hp.2 b) hf⟩

/-- The frame rule: what every operation of a program keeps, the program keeps. -/
theorem Only.wp {p : Prog Op α} {I : σ → Prop}
    (hI : ∀ {β : Type} {o : Op β} {s : σ} (b : Bool), P β o → I s → I (H.run o b s).2)
    (hp : p.Only P) {s : σ} (hs : I s) : p.wp H F (fun _ => I) s := by
  induction p generalizing s with
  | done a => exact hs
  | op o k ih => exact fun b _ => ih _ (hp.2 _) (hI b hp.1 hs)
  | atomic body k ihb ihk => exact wp_mono (fun b t ht => ihk b (hp.2 b) ht) body (ihb hp.1 hs)

end Prog

/-- A program that can end with an error. Its `bind` is the source's `?`. -/
def Io (Op : Type → Type) (ε α : Type) : Type 1 := Prog Op (Except ε α)

namespace Io

variable {Op : Type → Type} {ε δ α β ι σ : Type}

def bind (x : Io Op ε α) (f : α → Io Op ε β) : Io Op ε β :=
  Prog.bind x fun
    | .ok a => f a
    | .error e => .done (.error e)

instance : Monad (Io Op ε) where
  pure a := .done (.ok a)
  bind := bind

def fail (e : ε) : Io Op ε α := .done (.error e)

/-- One operation that can fail, with its error turned into the program's. -/
def call (f : δ → ε) (o : Op (Except δ α)) : Io Op ε α :=
  .op o fun
    | .ok a => .done (.ok a)
    | .error e => .done (.error (f e))

def ask (o : Op α) : Io Op ε α := .op o fun a => .done (.ok a)

def attempt (x : Io Op ε α) : Io Op ε (Except ε α) := Prog.bind x fun r => .done (.ok r)

/-- The source's `let _ = x`. -/
def ignore (x : Io Op ε α) : Io Op ε Unit := Prog.bind x fun _ => .done (.ok ())

def mapErr (f : ε → ε) (x : Io Op ε α) : Io Op ε α :=
  Prog.bind x fun
    | .ok a => .done (.ok a)
    | .error e => .done (.error (f e))

/-- A block no other program comes between. -/
def locked (x : Io Op ε α) : Io Op ε α := .atomic x .done

def ofExcept : Except ε α → Io Op ε α
  | .ok a => pure a
  | .error e => fail e

def when (b : Bool) (x : Io Op ε Unit) : Io Op ε Unit := if b then x else pure ()

def forEach (f : ι → Io Op ε Unit) : List ι → Io Op ε Unit
  | [] => pure ()
  | i :: is => f i >>= fun _ => forEach f is

def fold (f : β → ι → Io Op ε β) : β → List ι → Io Op ε β
  | b, [] => pure b
  | b, i :: is => f b i >>= fun b => fold f b is

def wp (H : Handler Op σ) (F : Prog.Faults Op σ) (x : Io Op ε α)
    (Q : Except ε α → σ → Prop) : σ → Prop :=
  Prog.wp H F x Q

def Only (P : (β : Type) → Op β → Prop) (x : Io Op ε α) : Prop := Prog.Only P x

theorem Only.bind {P : (β : Type) → Op β → Prop} {x : Io Op ε α} {f : α → Io Op ε β}
    (hx : x.Only P) (hf : ∀ a, (f a).Only P) : (x >>= f).Only P := by
  apply Prog.Only.bind hx
  rintro (e | a)
  · trivial
  · exact hf a

variable {H : Handler Op σ} {F : Prog.Faults Op σ} {Q R : Except ε α → σ → Prop} {s : σ}

theorem wp_mono {x : Io Op ε α} (hQR : ∀ r s, Q r s → R r s) (h : x.wp H F Q s) :
    x.wp H F R s :=
  Prog.wp_mono hQR x h

@[simp] theorem wp_pure (a : α) : (pure a : Io Op ε α).wp H F Q s ↔ Q (.ok a) s := .rfl

@[simp] theorem wp_fail (e : ε) : (fail e : Io Op ε α).wp H F Q s ↔ Q (.error e) s := .rfl

theorem wp_bind (x : Io Op ε α) (f : α → Io Op ε β) (Q : Except ε β → σ → Prop) :
    (x >>= f).wp H F Q s ↔ x.wp H F (fun
      | .ok a => (f a).wp H F Q
      | .error e => Q (.error e)) s := by
  refine (Prog.wp_bind x _ Q s).trans ?_
  constructor
  · apply Prog.wp_mono
    rintro (e | a) t h <;> exact h
  · apply Prog.wp_mono
    rintro (e | a) t h <;> exact h

@[simp] theorem wp_call (f : δ → ε) (o : Op (Except δ α)) :
    (call f o).wp H F Q s ↔ ∀ b, F _ o s b → match (H.run o b s).1 with
      | .ok a => Q (.ok a) (H.run o b s).2
      | .error e => Q (.error (f e)) (H.run o b s).2 := by
  refine forall_congr' fun b => forall_congr' fun _ => ?_
  cases (H.run o b s).1 <;> rfl

@[simp] theorem wp_ask (o : Op α) :
    (ask o : Io Op ε α).wp H F Q s ↔ ∀ b, F _ o s b → Q (.ok (H.run o b s).1) (H.run o b s).2 :=
  .rfl

@[simp] theorem wp_attempt (x : Io Op ε α) (Q : Except ε (Except ε α) → σ → Prop) :
    x.attempt.wp H F Q s ↔ x.wp H F (fun r => Q (.ok r)) s :=
  Prog.wp_bind x _ Q s

@[simp] theorem wp_ignore (x : Io Op ε α) (Q : Except ε Unit → σ → Prop) :
    x.ignore.wp H F Q s ↔ x.wp H F (fun _ => Q (.ok ())) s :=
  Prog.wp_bind x _ Q s

@[simp] theorem wp_mapErr (f : ε → ε) (x : Io Op ε α) :
    (x.mapErr f).wp H F Q s ↔ x.wp H F (fun
      | .ok a => Q (.ok a)
      | .error e => Q (.error (f e))) s := by
  refine (Prog.wp_bind x _ Q s).trans ?_
  constructor
  · apply Prog.wp_mono
    rintro (e | a) t h <;> exact h
  · apply Prog.wp_mono
    rintro (e | a) t h <;> exact h

@[simp] theorem wp_locked (x : Io Op ε α) : x.locked.wp H F Q s ↔ x.wp H F Q s := .rfl

theorem wp_when {b : Bool} {x : Io Op ε Unit} {Q : Except ε Unit → σ → Prop}
    (hno : b = false → Q (.ok ()) s) (hyes : b = true → x.wp H F Q s) : (when b x).wp H F Q s := by
  cases b with
  | false => exact hno rfl
  | true => exact hyes rfl

end Io

namespace Prog

variable {Op : Type → Type} {α β σ : Type} {H : Handler Op σ}

theorem run_nil (p : Prog Op α) (s : σ) : (p.run H [] s).2.1 = [] := by
  induction p generalizing s with
  | done a => rfl
  | op o k ih => exact ih _ _
  | atomic body k ihb ihk =>
      rw [run, ihb]
      exact ihk _ _

theorem exec_op (o : Op β) (k : β → Prog Op α) (s : σ) :
    (op o k).exec H s = (k (H.run o false s).1).exec H (H.run o false s).2 := rfl

theorem exec_atomic (body : Prog Op β) (k : β → Prog Op α) (s : σ) :
    (atomic body k).exec H s = (k (body.exec H s).1).exec H (body.exec H s).2 := by
  simp only [exec, run, run_nil]

theorem exec_bind (p : Prog Op α) (f : α → Prog Op β) (s : σ) :
    (p.bind f).exec H s = (f (p.exec H s).1).exec H (p.exec H s).2 := by
  induction p generalizing s with
  | done a => rfl
  | op o k ih => exact ih _ f _
  | atomic body k _ ih =>
      rw [bind, exec_atomic, exec_atomic]
      exact ih _ f _

/-- What all runs without failures lead to, the one such run leads to. -/
theorem exec_of_wp {Q : α → σ → Prop} {p : Prog Op α} {s : σ}
    (h : p.wp H (fun _ _ _ b => b = false) Q s) : Q (p.exec H s).1 (p.exec H s).2 := by
  induction p generalizing s with
  | done a => exact h
  | op o k ih => exact ih _ (h false rfl)
  | atomic body k ihb ihk =>
      rw [exec_atomic]
      exact ihk _ (ihb h)

end Prog

namespace Io

variable {Op : Type → Type} {ε δ α β ι σ : Type} {H : Handler Op σ}

/-- The run in which nothing is made to fail. -/
def exec (H : Handler Op σ) (x : Io Op ε α) (s : σ) : Except ε α × σ := Prog.exec H x s

theorem exec_of_wp {Q : Except ε α → σ → Prop} {x : Io Op ε α} {s : σ}
    (h : x.wp H (fun _ _ _ b => b = false) Q s) : Q (x.exec H s).1 (x.exec H s).2 :=
  Prog.exec_of_wp h

variable {s t : σ}

@[simp] theorem exec_pure (a : α) : (pure a : Io Op ε α).exec H s = (.ok a, s) := rfl

@[simp] theorem exec_fail (e : ε) : (fail e : Io Op ε α).exec H s = (.error e, s) := rfl

theorem exec_bind (x : Io Op ε α) (f : α → Io Op ε β) :
    (x >>= f).exec H s = match x.exec H s with
      | (.ok a, t) => (f a).exec H t
      | (.error e, t) => (.error e, t) := by
  refine (Prog.exec_bind x _ s).trans ?_
  rw [exec]
  obtain ⟨_ | a, t⟩ := Prog.exec H x s <;> rfl

theorem exec_bind_ok {x : Io Op ε α} {a : α} (f : α → Io Op ε β)
    (h : x.exec H s = (.ok a, t)) : (x >>= f).exec H s = (f a).exec H t := by
  rw [exec_bind, h]

@[simp] theorem exec_call (f : δ → ε) (o : Op (Except δ α)) :
    (call f o).exec H s = match H.run o false s with
      | (.ok a, t) => (.ok a, t)
      | (.error e, t) => (.error (f e), t) := by
  change Prog.exec H (Prog.op o _) s = _
  rw [Prog.exec_op]
  obtain ⟨e | a, t⟩ := H.run o false s <;> rfl

@[simp] theorem exec_ask (o : Op α) :
    (ask o : Io Op ε α).exec H s = (.ok (H.run o false s).1, (H.run o false s).2) := rfl

@[simp] theorem exec_attempt (x : Io Op ε α) :
    x.attempt.exec H s = (.ok (x.exec H s).1, (x.exec H s).2) :=
  Prog.exec_bind x _ s

@[simp] theorem exec_ignore (x : Io Op ε α) : x.ignore.exec H s = (.ok (), (x.exec H s).2) :=
  Prog.exec_bind x _ s

theorem exec_mapErr (f : ε → ε) (x : Io Op ε α) :
    (x.mapErr f).exec H s = match x.exec H s with
      | (.ok a, t) => (.ok a, t)
      | (.error e, t) => (.error (f e), t) := by
  refine (Prog.exec_bind x _ s).trans ?_
  rw [exec]
  obtain ⟨_ | a, t⟩ := Prog.exec H x s <;> rfl

@[simp] theorem exec_locked (x : Io Op ε α) : x.locked.exec H s = x.exec H s :=
  Prog.exec_atomic x .done s

@[simp] theorem exec_ofExcept (r : Except ε α) : (ofExcept r : Io Op ε α).exec H s = (r, s) := by
  cases r <;> rfl

@[simp] theorem exec_when_true (x : Io Op ε Unit) : (when true x).exec H s = x.exec H s := rfl

@[simp] theorem exec_when_false (x : Io Op ε Unit) : (when false x).exec H s = (.ok (), s) := rfl

@[simp] theorem exec_forEach_nil (f : ι → Io Op ε Unit) :
    (forEach f []).exec H s = (.ok (), s) := rfl

theorem exec_fold_cons (f : β → ι → Io Op ε β) (b : β) (i : ι) (is : List ι) :
    (fold f b (i :: is)).exec H s = match (f b i).exec H s with
      | (.ok b', t) => (fold f b' is).exec H t
      | (.error e, t) => (.error e, t) := by
  rw [fold, exec_bind]

/-- The loop rule for a run without failures: each pass computes `g`, keeps `I`, moves
the state up in the order `Le`, and leaves behind `Q`, which lasts. -/
theorem exec_fold {f : β → ι → Io Op ε β} (g : β → ι → β) (Le : σ → σ → Prop) (I : σ → Prop) (Q : ι → σ → Prop)
    (hrefl : ∀ s, Le s s) (htrans : ∀ {s t u}, Le s t → Le t u → Le s u)
    (hlast : ∀ {i s t}, Q i s → Le s t → Q i t) {is : List ι}
    (hpass : ∀ b i s, i ∈ is → I s → ∃ t, (f b i).exec H s = (.ok (g b i), t) ∧ I t ∧ Le s t ∧ Q i t)
    (b : β) (hs : I s) :
    ∃ t, (fold f b is).exec H s = (.ok (is.foldl g b), t) ∧ I t ∧ Le s t ∧ ∀ i ∈ is, Q i t := by
  induction is generalizing b s with
  | nil => exact ⟨s, rfl, hs, hrefl s, by simp⟩
  | cons i is ih =>
      obtain ⟨t, hrun, ht, hst, hi⟩ := hpass b i s List.mem_cons_self hs
      obtain ⟨u, hrest, hu, htu, his⟩ := ih (fun b j s hj => hpass b j s (List.mem_cons_of_mem i hj)) (g b i) ht
      refine ⟨u, ?_, hu, htrans hst htu, ?_⟩
      · rw [exec_fold_cons, hrun]
        exact hrest
      · intro j hj
        rcases List.mem_cons.mp hj with rfl | hj
        · exact hlast hi htu
        · exact his j hj

end Io

end Silo.Lib
