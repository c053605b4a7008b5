import Silo.Frontend.Questions

namespace Silo.Frontend

open Silo.Core Silo.Harness

inductive Place
  | map
  | conn (c : Nat)
  | interrupt (i : Nat)
  deriving DecidableEq

/-- Client, if any, and answer of a `QuestionAnswered` event. -/
abbrev Told := Option String × String

/-- How a question stands: somebody has its sender; the sender was used and the
event is owed; the event is out; the sender is gone unused. -/
inductive Standing
  | held (p : Place)
  | owed (p : Place) (e : Told)
  | told (e : Told)
  | gone

def Standing.events : Standing → List Told
  | .told e => [e]
  | _ => []

def Part.stock : Part → List (String × Nat)
  | .holding _ id n _ => [(id, n)]
  | _ => []

def Part.debts : Part → List (String × Told)
  | .owing client id answer => [(id, some client.id, answer)]
  | _ => []

def Interrupting.stock : Interrupting → List (String × Nat)
  | .unborn => []
  | .sending pending | .resolved _ pending | .emitting _ pending => pending

def Interrupting.debts : Interrupting → List (String × Told)
  | .resolved id _ => [(id, none, interruptedAnswer)]
  | _ => []

namespace View

variable (ids : Nat → String) (v : View)

def stock : Place → List (String × Nat)
  | .map => v.questions
  | .conn c => (v.parts c).stock
  | .interrupt i => (v.interrupts i).stock

def debts : Place → List (String × Told)
  | .map => []
  | .conn c => (v.parts c).debts
  | .interrupt i => (v.interrupts i).debts

def acceptedFor (n : Nat) : List Accepted := v.accepted.filter fun a => a.question = n

/-- The event is for the answer that the call received and that was accepted, or
for an interrupt. -/
def Resolves (n : Nat) (e : Told) : Prop :=
  (∃ clientId answer, e = (some clientId, answer) ∧ (v.calls n).slot = .sent (.answered answer) ∧
    v.acceptedFor n = [⟨n, clientId, answer⟩]) ∨
  e = (none, interruptedAnswer) ∧ (v.calls n).slot = .sent .interrupted ∧ v.acceptedFor n = []

def Agrees (n : Nat) : Standing → Prop
  | .held _ => (v.calls n).slot = .empty ∧ v.acceptedFor n = []
  | .gone => ((v.calls n).slot = .empty ∨ (v.calls n).slot = .closed) ∧ v.acceptedFor n = []
  | .owed _ e | .told e => v.Resolves n e

/-- The ids drawn so far differ. -/
def Distinct : Prop := ∀ m < v.asked, ∀ n < v.asked, ids m = ids n → m = n

structure Keyed : Prop where
  stock : ∀ p, ∀ e ∈ v.stock p, e.1 = ids e.2
  once : ∀ p, (v.stock p).Nodup
  debts : ∀ p, ∀ d ∈ v.debts p, ∃ n < v.asked, d.1 = ids n
  answers : ∀ id, v.answers id ≠ [] → ∃ n < v.asked, id = ids n
  spare : ∀ i, v.interrupted ≤ i → v.interrupts i = .unborn

/-- The questions stand as `f` says. -/
structure Matches (f : Nat → Standing) : Prop where
  held : ∀ p n, (ids n, n) ∈ v.stock p ↔ f n = .held p
  owed : ∀ p n e, n < v.asked → ((ids n, e) ∈ v.debts p ↔ f n = .owed p e)
  events : ∀ n < v.asked, v.answers (ids n) = (f n).events
  agrees : ∀ n, v.Agrees n (f n)
  unborn : ∀ n, v.asked ≤ n → f n = .gone ∧ (v.calls n).stage = .unborn
  returned : ∀ n result, (v.calls n).stage = .returned result → (v.calls n).slot.result = some result
  calm : v.down = true → ∀ n, (v.calls n).listening = false

variable {ids v} {w : View} {f : Nat → Standing} {c n : Nat}

theorem Matches.lt (h : v.Matches ids f) (hn : f n ≠ .gone) : n < v.asked :=
  Nat.lt_of_not_le fun hle => hn (h.unborn n hle).1

theorem Agrees.congr {standing : Standing} (h : v.Agrees n standing) (hslot : (w.calls n).slot = (v.calls n).slot)
    (haccepted : w.acceptedFor n = v.acceptedFor n) : w.Agrees n standing := by
  cases standing <;> simpa only [Agrees, Resolves, hslot, haccepted] using h

/-- Calls are at the same stages as before, and those that returned have what
they had. -/
structure SameStages (v w : View) : Prop where
  asked : w.asked = v.asked
  down : w.down = v.down
  stage : ∀ n, (w.calls n).stage = (v.calls n).stage
  slot : ∀ n result, (v.calls n).stage = .returned result → (w.calls n).slot = (v.calls n).slot

theorem Matches.sameStages (h : v.Matches ids f) (hw : SameStages v w) {g : Nat → Standing}
    (hheld : ∀ p n, (ids n, n) ∈ w.stock p ↔ g n = .held p)
    (howed : ∀ p n e, n < v.asked → ((ids n, e) ∈ w.debts p ↔ g n = .owed p e))
    (hevents : ∀ n < v.asked, w.answers (ids n) = (g n).events) (hagrees : ∀ n, w.Agrees n (g n))
    (hgone : ∀ n, f n = .gone → g n = .gone) : w.Matches ids g where
  held := hheld
  owed := hw.asked ▸ howed
  events := hw.asked ▸ hevents
  agrees := hagrees
  unborn n hn := by
    rw [hw.asked] at hn
    rw [hw.stage]
    exact ⟨hgone n (h.unborn n hn).1, (h.unborn n hn).2⟩
  returned n result hn := by
    rw [hw.stage] at hn
    rw [hw.slot n result hn]
    exact h.returned n result hn
  calm hd n := by
    rw [Call.listening, hw.stage]
    exact h.calm (hw.down ▸ hd) n

theorem stock_setPart (part : Part) :
    (v.setPart c part).stock = Function.update v.stock (.conn c) part.stock := by
  funext p
  cases p with
  | map => rfl
  | conn d => by_cases hd : d = c <;> simp [stock, setPart, hd]
  | interrupt i => rfl

theorem debts_setPart (part : Part) :
    (v.setPart c part).debts = Function.update v.debts (.conn c) part.debts := by
  funext p
  cases p with
  | map => rfl
  | conn d => by_cases hd : d = c <;> simp [debts, setPart, hd]
  | interrupt i => rfl

theorem stock_setInterrupt (i : Nat) (interrupt : Interrupting) :
    (v.setInterrupt i interrupt).stock = Function.update v.stock (.interrupt i) interrupt.stock := by
  funext p
  cases p with
  | map => rfl
  | conn d => rfl
  | interrupt j => by_cases hj : j = i <;> simp [stock, setInterrupt, hj]

theorem debts_setInterrupt (i : Nat) (interrupt : Interrupting) :
    (v.setInterrupt i interrupt).debts = Function.update v.debts (.interrupt i) interrupt.debts := by
  funext p
  cases p with
  | map => rfl
  | conn d => rfl
  | interrupt j => by_cases hj : j = i <;> simp [debts, setInterrupt, hj]

theorem stock_remove (id : String) :
    (v.remove id).stock = Function.update v.stock .map (v.questions.filter fun e => e.1 ≠ id) := by
  funext p
  cases p <;> rfl

end View

end Silo.Frontend
