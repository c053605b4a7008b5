import Mathlib.Data.List.Basic

namespace Silo.Lib

/-- What a poll of a stream gives. The bytes put into the buffer are none at the end only. -/
inductive Poll (ε : Type)
  | pending
  | ready (bytes : List UInt8)
  | failed (e : ε)
  deriving DecidableEq, Repr

/-- How a stream is polled with room for some bytes. As in what follows, none is a panic. -/
abbrev Reader (σ ε : Type) := σ → Nat → Option (Poll ε × σ)

def bytesFrom (bytes : List UInt8) (start : Nat) : Option (List UInt8) :=
  if start ≤ bytes.length then some (bytes.drop start) else none

def bytesTo (bytes : List UInt8) (stop : Nat) : Option (List UInt8) :=
  if stop ≤ bytes.length then some (bytes.take stop) else none

def putSlice (room : Nat) (bytes : List UInt8) : Option (List UInt8) :=
  if bytes.length ≤ room then some bytes else none

section Polls

variable {σ τ ε : Type}

/-- One poll after the other, each with its room. -/
def polls (read : Reader σ ε) : σ → List Nat → Option (List (Poll ε) × σ)
  | s, [] => some ([], s)
  | s, room :: rooms => do
    let (poll, s) ← read s room
    let (rest, s) ← polls read s rooms
    return (poll :: rest, s)

/-- A stream that has bytes to give before those of an inner one. -/
def replay (inner : Reader σ ε) : Reader (List UInt8 × σ) ε := fun s room =>
  if s.1 = [] then (inner s.2 room).map fun r => (r.1, ([], r.2))
  else some (.ready (s.1.take room), (s.1.drop room, s.2))

/-- Two readers give the same in states that are related, and the states after it are. -/
def Simulates (R : σ → τ → Prop) (read : Reader σ ε) (read' : Reader τ ε) : Prop :=
  ∀ s t room, R s t → Option.Rel (fun r r' => r.1 = r'.1 ∧ R r.2 r'.2) (read s room) (read' t room)

/-- How `front` is given by polls with room: a piece of it for each of the early ones, which it
fills or which has the last of it; the inner stream has the late ones. -/
structure Replayed (front : List UInt8) (rooms : List Nat) (pieces : List (List UInt8)) (late : List Nat) : Prop where
  rooms_eq : ∃ early, rooms = early ++ late ∧
    List.Forall₂ (fun piece room => piece ≠ [] ∧ piece.length ≤ room) pieces early
  begins : pieces.flatten <+: front
  whole : late ≠ [] → pieces.flatten = front

variable {R : σ → τ → Prop} {read : Reader σ ε} {read' : Reader τ ε} {inner : Reader σ ε} {s : σ} {t : τ}

theorem Simulates.polls (h : Simulates R read read') (hst : R s t) (rooms : List Nat) :
    Option.Rel (fun r r' => r.1 = r'.1 ∧ R r.2 r'.2) (polls read s rooms) (polls read' t rooms) := by
  induction rooms generalizing s t with
  | nil => exact .some ⟨rfl, hst⟩
  | cons room rooms ih =>
      have hpoll := h s t room hst
      rw [Lib.polls, Lib.polls]
      generalize read s room = r at hpoll ⊢
      generalize read' t room = r' at hpoll ⊢
      cases hpoll with
      | none => exact .none
      | @some r r' hr =>
          obtain ⟨heq, hrest⟩ := hr
          have hlater := ih hrest
          simp only [Option.bind_eq_bind, Option.bind_some, heq]
          generalize Lib.polls read r.2 rooms = later at hlater ⊢
          generalize Lib.polls read' r'.2 rooms = later' at hlater ⊢
          cases hlater with
          | none => exact .none
          | some h => exact .some ⟨congrArg (r'.1 :: ·) h.1, h.2⟩

theorem polls_replay_nil (s : σ) (rooms : List Nat) :
    polls (replay inner) ([], s) rooms = (polls inner s rooms).map fun r => (r.1, ([], r.2)) := by
  induction rooms generalizing s with
  | nil => rfl
  | cons room rooms ih =>
      rw [polls, polls, replay, if_pos rfl]
      cases inner s room with
      | none => rfl
      | some r =>
          simp only [Option.map_some, Option.bind_eq_bind, Option.bind_some, ih]
          cases polls inner r.2 rooms <;> rfl

theorem polls_replay (inner : Reader σ ε) (front : List UInt8) (s : σ) (rooms : List Nat)
    (h : ∀ room ∈ rooms, 1 ≤ room) :
    ∃ pieces late, Replayed front rooms pieces late ∧
      ∃ back, polls (replay inner) (front, s) rooms =
        (polls inner s late).map fun r => (pieces.map .ready ++ r.1, (back, r.2)) := by
  induction rooms generalizing front with
  | nil => exact ⟨[], [], ⟨⟨[], rfl, .nil⟩, List.nil_prefix, fun hne => absurd rfl hne⟩, front, rfl⟩
  | cons room rooms ih =>
      by_cases hfront : front = []
      · subst hfront
        exact ⟨[], room :: rooms, ⟨⟨[], rfl, .nil⟩, List.nil_prefix, fun _ => rfl⟩, [], polls_replay_nil s _⟩
      have hroom := h room List.mem_cons_self
      obtain ⟨pieces, late, hreplayed, back, hpolls⟩ :=
        ih (front.drop room) fun other hother => h other (List.mem_cons_of_mem room hother)
      obtain ⟨early, rfl, hfits⟩ := hreplayed.rooms_eq
      refine ⟨front.take room :: pieces, late, ⟨⟨room :: early, rfl, .cons ⟨?_, ?_⟩ hfits⟩, ?_, ?_⟩, back, ?_⟩
      · rw [Ne, List.take_eq_nil_iff, not_or]
        exact ⟨Nat.ne_of_gt hroom, hfront⟩
      · exact List.length_take_le room front
      · rw [List.flatten_cons]
        nth_rewrite 2 [← List.take_append_drop room front]
        exact List.prefix_append_right_inj _ |>.mpr hreplayed.begins
      · intro hlate
        rw [List.flatten_cons, hreplayed.whole hlate, List.take_append_drop]
      · rw [polls, replay, if_neg hfront]
        simp only [Option.bind_eq_bind, Option.bind_some, hpolls]
        cases polls inner s late <;> rfl

end Polls

end Silo.Lib
