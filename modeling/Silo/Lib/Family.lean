import Mathlib.Algebra.BigOperators.Group.Finset.Basic
import Mathlib.Algebra.Order.BigOperators.Group.Finset
import Mathlib.Data.Multiset.Filter

namespace Silo.Lib

/-- Where a task stands, as far as the handles of its children go. A walk
cancels children: the call about to take a pool, and under it, for each pool
taken, the children left and the one aborted and not yet joined. -/
inductive Post (ρ : Type)
  | unborn
  | plain
  | leaving
  | spawning (c : Nat)
  | inserting (c : Nat)
  | returning (c : Nat)
  | joining (c : Nat)
  | receiving (chan : Nat) (heard : Option Nat)
  | hearing (c : Nat)
  | chosen (c : Nat)
  | walking (entering : Option Nat) (frames : List (List Nat × Option Nat))
  | returned
  | finishing (r : ρ)
  | completed (r : ρ)
  | dropped

structure Pool where
  children : List Nat
  chan : Nat
  rx : Option Nat

inductive Mark (ρ : Type)
  | spawned (c : Nat)
  | completed (c : Nat) (r : ρ)

/-- Tasks that start children, wait for them and cancel them. A child holds a
permit from before its birth until its handle is given up. -/
structure Family (ρ : Type) where
  post : Nat → Post ρ
  parent : Nat → Option Nat
  depth : Nat → Nat
  aborted : Nat → Bool
  emitted : Nat → Bool
  signal : Nat → Nat
  pool : Nat → Option Pool
  chans : Nat → List Nat
  nextChan : Nat
  counter : Nat
  permits : Nat
  marks : List (Mark ρ)

variable {ρ : Type}

namespace Post

/-- The handles in the hands of the task. -/
def held : Post ρ → List Nat
  | .spawning c | .inserting c | .returning c | .joining c => [c]
  | .walking _ frames => frames.flatMap fun f => f.1 ++ f.2.toList
  | _ => []

def finished : Post ρ → Bool
  | .completed _ | .dropped => true
  | _ => false

/-- The task has told the done channel of its parent. -/
def signalled : Post ρ → Bool
  | .finishing _ | .completed _ => true
  | _ => false

def droppable : Post ρ → Bool
  | .unborn | .spawning _ | .finishing _ | .completed _ | .dropped => false
  | _ => true

inductive Goes (a : Nat) : Post ρ → Post ρ → Prop
  | leave : Goes a .plain .leaving
  | quit : Goes a .plain (.walking (some a) [])
  | left : Goes a .leaving (.walking (some a) [])
  | giveUp {c : Nat} : Goes a (.joining c) (.returning c)
  | pop {frames : List (List Nat × Option Nat)} :
      Goes a (.walking none (([], none) :: frames)) (.walking none frames)
  | back : Goes a (.walking none []) .returned
  | finish {r : ρ} : Goes a (.finishing r) (.completed r)

end Post

namespace Family

variable (v : Family ρ) (a : Nat)

def setPost (p : Post ρ) : Family ρ := { v with post := Function.update v.post a p }

def setPool (pool : Option Pool) : Family ρ := { v with pool := Function.update v.pool a pool }

def kids : List Nat := ((v.pool a).map Pool.children).getD []

/-- The pool of `a`, made when it has none. -/
def entry : Family ρ × Pool :=
  match v.pool a with
  | some pool => (v, pool)
  | none =>
    let pool := ⟨[], v.nextChan, some v.nextChan⟩
    ({ v with nextChan := v.nextChan + 1 }.setPool a (some pool), pool)

def insert (c : Nat) : Family ρ :=
  (v.entry a).1.setPool a (some { (v.entry a).2 with children := (v.entry a).2.children ++ [c] })

def charge : Family ρ :=
  { v with
    counter := v.counter + 1
    permits := v.permits - 1
    marks := v.marks ++ [.spawned v.counter] }

def bear (c : Nat) : Family ρ :=
  { (v.entry a).1 with
    post := Function.update v.post c .plain
    parent := Function.update v.parent c (some a)
    depth := Function.update v.depth c (v.depth a + 1)
    aborted := Function.update v.aborted c false
    emitted := Function.update v.emitted c false
    signal := Function.update v.signal c (v.entry a).2.chan }

/-- The completion of `c` is announced, unless it has been. -/
def announce (c : Nat) (r : ρ) : Family ρ :=
  { v with
    emitted := Function.update v.emitted c true
    marks := if v.emitted c then v.marks else v.marks ++ [.completed c r] }

inductive Step (limit : Nat) (v : Family ρ) : Family ρ → Prop
  | goes {a : Nat} {p : Post ρ} (h : Post.Goes a (v.post a) p) : Step limit v (v.setPost a p)
  | again {a : Nat} (h : v.post a = .returned) (top : v.parent a = none) :
      Step limit v (v.setPost a .plain)
  | skip {a c : Nat} (h : v.post a = .hearing c ∨ v.post a = .chosen c) (out : c ∉ v.kids a) :
      Step limit v (v.setPost a .plain)
  | choose {a c : Nat} (h : v.post a = .plain ∨ v.post a = .hearing c) (mem : c ∈ v.kids a) :
      Step limit v (v.setPost a (.chosen c))
  | spawn {a : Nat} (h : v.post a = .plain) (shallow : v.depth a < limit) (free : 0 < v.permits) :
      Step limit v (v.charge.setPost a (.spawning v.counter))
  | birth {a c : Nat} (h : v.post a = .spawning c) :
      Step limit v ((v.bear a c).setPost a (.inserting c))
  | insert {a c : Nat} {p : Post ρ}
      (h : v.post a = .inserting c ∧ p = .plain ∨ v.post a = .returning c ∧ p = .leaving) :
      Step limit v ((v.insert a c).setPost a p)
  | take {a chan : Nat} {pool : Pool} (h : v.post a = .plain) (has : v.pool a = some pool)
      (parked : pool.rx = some chan) :
      Step limit v ((v.setPool a (some { pool with rx := none })).setPost a (.receiving chan none))
  | missing {a : Nat} {pool : Pool} (h : v.post a = .plain) (has : v.pool a = some pool)
      (taken : pool.rx = none) : Step limit v (v.setPost a .dropped)
  | hear {a chan c : Nat} {rest : List Nat} (h : v.post a = .receiving chan none)
      (unread : v.chans chan = c :: rest) :
      Step limit v ({ v with chans := Function.update v.chans chan rest }.setPost a
        (.receiving chan (some c)))
  | put {a chan : Nat} {heard : Option Nat} (h : v.post a = .receiving chan heard) :
      Step limit v ((v.setPool a ((v.pool a).map fun pool => { pool with rx := some chan })).setPost a
        (heard.elim .leaving .hearing))
  | collect {a c : Nat} {pool : Pool} (h : v.post a = .chosen c) (has : v.pool a = some pool)
      (mem : c ∈ pool.children) :
      Step limit v ((v.setPool a (some { pool with children := pool.children.filter (· ≠ c) })).setPost a
        (.joining c))
  | joined {a c : Nat} {p : Post ρ} (h : v.post a = .joining c) (done : (v.post c).finished = true)
      (after : p = .plain ∨ p = .leaving) :
      Step limit v ({ v with permits := v.permits + 1 }.setPost a p)
  | nothing {a e : Nat} {frames : List (List Nat × Option Nat)}
      (h : v.post a = .walking (some e) frames) (empty : v.pool e = none) :
      Step limit v (v.setPost a (.walking none frames))
  | enter {a e : Nat} {frames : List (List Nat × Option Nat)} {pool : Pool}
      (h : v.post a = .walking (some e) frames) (has : v.pool e = some pool) :
      Step limit v ((v.setPool e none).setPost a (.walking none ((pool.children, none) :: frames)))
  | pick {a c : Nat} {rest : List Nat} {frames : List (List Nat × Option Nat)}
      (h : v.post a = .walking none ((rest, none) :: frames)) (mem : c ∈ rest) :
      Step limit v ({ v with aborted := Function.update v.aborted c true }.setPost a
        (.walking (some c) ((rest.filter (· ≠ c), some c) :: frames)))
  | reap {a c : Nat} {rest : List Nat} {frames : List (List Nat × Option Nat)} {r : ρ}
      (h : v.post a = .walking none ((rest, some c) :: frames)) (done : (v.post c).finished = true) :
      Step limit v ({ v.announce c r with permits := v.permits + 1 }.setPost a
        (.walking none ((rest, none) :: frames)))
  | complete {a : Nat} {r : ρ} (h : v.post a = .returned) (child : v.parent a ≠ none) :
      Step limit v ({ v.announce a r with
        chans := Function.update v.chans (v.signal a) (v.chans (v.signal a) ++ [a]) }.setPost a
        (.finishing r))
  | drop {a : Nat} (h : v.aborted a = true) (there : (v.post a).droppable = true) :
      Step limit v ({ v with permits := v.permits + (v.post a).held.length }.setPost a .dropped)

end Family

end Silo.Lib
