import Silo.Lib.Reader

namespace Silo

open Silo.Lib

variable {σ ε : Type}

namespace Frontend

/-- `front` is the field `prefix`. -/
structure PrefixedStream (σ : Type) where
  front : List UInt8
  pos : Nat
  inner : σ
  deriving DecidableEq, Repr

namespace PrefixedStream

def new (front : List UInt8) (inner : σ) : PrefixedStream σ := ⟨front, 0, inner⟩

def pollRead (inner : Reader σ ε) : Reader (PrefixedStream σ) ε := fun this room =>
  if this.pos < this.front.length then do
    let remaining ← bytesFrom this.front this.pos
    let n := min remaining.length room
    let bytes ← putSlice room (← bytesTo remaining n)
    return (.ready bytes, { this with pos := this.pos + n })
  else (inner this.inner room).map fun r => (r.1, { this with inner := r.2 })

end PrefixedStream

end Frontend

namespace Proxy

/-- `std::io::Cursor`. -/
structure Cursor where
  bytes : List UInt8
  position : Nat
  deriving DecidableEq, Repr

/-- `front` is the field `prefix`. -/
structure RewindStream (σ : Type) where
  front : Cursor
  inner : σ
  deriving DecidableEq, Repr

namespace RewindStream

def new (front : List UInt8) (inner : σ) : RewindStream σ := ⟨⟨front, 0⟩, inner⟩

def remaining (this : RewindStream σ) : Option Nat :=
  if this.front.position ≤ this.front.bytes.length then some (this.front.bytes.length - this.front.position) else none

def pollRead (inner : Reader σ ε) : Reader (RewindStream σ) ε := fun this room => do
  let remaining ← this.remaining
  if 0 < remaining then
    let pos := this.front.position
    let data ← bytesFrom this.front.bytes pos
    let take := min data.length room
    let bytes ← putSlice room (← bytesTo data take)
    return (.ready bytes, { this with front := { this.front with position := pos + take } })
  else (inner this.inner room).map fun r => (r.1, { this with inner := r.2 })

end RewindStream

end Proxy

/-- The piece that both streams put into the buffer, and what is after it. -/
theorem piece_eq (bytes : List UInt8) (pos room : Nat) :
    bytesTo (bytes.drop pos) (min (bytes.drop pos).length room) = some ((bytes.drop pos).take room) ∧
      putSlice room ((bytes.drop pos).take room) = some ((bytes.drop pos).take room) ∧
      bytes.drop (pos + min (bytes.drop pos).length room) = (bytes.drop pos).drop room := by
  refine ⟨?_, if_pos (List.length_take_le room _), ?_⟩
  · rw [bytesTo, if_pos (Nat.min_le_left _ _), Nat.min_comm, ← List.take_eq_take_min]
  · rw [← List.drop_drop]
    rcases Nat.le_total (bytes.drop pos).length room with hle | hle
    · rw [Nat.min_eq_left hle, List.drop_length, List.drop_of_length_le hle]
    · rw [Nat.min_eq_right hle]

theorem replay_front {inner : Reader σ ε} {bytes : List UInt8} {pos : Nat} (h : pos < bytes.length) (s : σ)
    (room : Nat) :
    replay inner (bytes.drop pos, s) room =
      some (.ready ((bytes.drop pos).take room), ((bytes.drop pos).drop room, s)) := by
  rw [replay, if_neg]
  rw [List.drop_eq_nil_iff]
  exact Nat.not_le.mpr h

theorem Frontend.PrefixedStream.simulates (inner : Reader σ ε) :
    Simulates (fun this t => t = (this.front.drop this.pos, this.inner)) (pollRead inner) (replay inner) := by
  rintro this _ room rfl
  rw [pollRead]
  split
  case isTrue hpos =>
    obtain ⟨hbytes, hput, hrest⟩ := piece_eq this.front this.pos room
    rw [replay_front hpos, bytesFrom, if_pos (Nat.le_of_lt hpos)]
    simp only [Option.bind_eq_bind, Option.bind_some, hbytes, hput]
    exact .some ⟨rfl, congrArg (·, this.inner) hrest.symm⟩
  case isFalse hpos =>
    have hnil : this.front.drop this.pos = [] := List.drop_of_length_le (Nat.not_lt.mp hpos)
    rw [replay, if_pos hnil]
    cases inner this.inner room with
    | none => exact .none
    | some r => exact .some ⟨rfl, congrArg (·, r.2) hnil.symm⟩

theorem Proxy.RewindStream.simulates (inner : Reader σ ε) :
    Simulates (fun this t => this.front.position ≤ this.front.bytes.length ∧
      t = (this.front.bytes.drop this.front.position, this.inner)) (pollRead inner) (replay inner) := by
  rintro this _ room ⟨hle, rfl⟩
  rw [pollRead, remaining, if_pos hle]
  simp only [Option.bind_eq_bind, Option.bind_some]
  split
  case isTrue hpos =>
    obtain ⟨hbytes, hput, hrest⟩ := piece_eq this.front.bytes this.front.position room
    rw [replay_front (Nat.lt_of_sub_pos hpos), bytesFrom, if_pos hle]
    simp only [Option.bind_some, hbytes, hput]
    refine .some ⟨rfl, ?_, congrArg (·, this.inner) hrest.symm⟩
    dsimp only
    rw [List.length_drop]
    omega
  case isFalse hpos =>
    have hnil : this.front.bytes.drop this.front.position = [] := List.drop_of_length_le (by omega)
    rw [replay, if_pos hnil]
    cases inner this.inner room with
    | none => exact .none
    | some r => exact .some ⟨rfl, hle, congrArg (·, r.2) hnil.symm⟩

/-- What a stream gives when it is the bytes ahead and then an inner stream. -/
theorem polls_of_simulates {τ : Type} {R : τ → List UInt8 × σ → Prop} {read : Reader τ ε} {inner : Reader σ ε}
    (hsim : Simulates R read (replay inner)) {innerOf : τ → σ} (hinner : ∀ t u, R t u → innerOf t = u.2) {t : τ}
    {front : List UInt8} {s : σ} (ht : R t (front, s)) {rooms late : List Nat} {pieces : List (List UInt8)}
    {back : List UInt8}
    (h : polls (replay inner) (front, s) rooms =
      (polls inner s late).map fun r => (pieces.map .ready ++ r.1, (back, r.2))) :
    (polls read t rooms).map (fun r => (r.1, innerOf r.2)) =
      (polls inner s late).map fun r => (pieces.map .ready ++ r.1, r.2) := by
  have hpolls := hsim.polls ht rooms
  rw [h] at hpolls
  generalize polls read t rooms = r at hpolls ⊢
  cases hlate : polls inner s late with
  | none =>
      rw [hlate] at hpolls
      cases hpolls
      rfl
  | some last =>
      rw [hlate] at hpolls
      cases hpolls with
      | some hr => exact congrArg some (Prod.ext hr.1 (hinner _ _ hr.2))

/-- Both streams give the bytes ahead in pieces that are not empty and then what the inner stream
gives, whatever room the polls have. -/
theorem replayed_streams (inner : Reader σ ε) (front : List UInt8) (s : σ) (rooms : List Nat)
    (h : ∀ room ∈ rooms, 1 ≤ room) :
    ∃ pieces late, Replayed front rooms pieces late ∧
      (polls (Frontend.PrefixedStream.pollRead inner) (.new front s) rooms).map (fun r => (r.1, r.2.inner)) =
        (polls inner s late).map (fun r => (pieces.map .ready ++ r.1, r.2)) ∧
      (polls (Proxy.RewindStream.pollRead inner) (.new front s) rooms).map (fun r => (r.1, r.2.inner)) =
        (polls inner s late).map fun r => (pieces.map .ready ++ r.1, r.2) := by
  obtain ⟨pieces, late, hreplayed, back, hpolls⟩ := polls_replay inner front s rooms h
  refine ⟨pieces, late, hreplayed, ?_, ?_⟩
  · exact polls_of_simulates (Frontend.PrefixedStream.simulates inner) (by rintro t _ rfl; rfl) rfl hpolls
  · exact polls_of_simulates (Proxy.RewindStream.simulates inner) (by rintro t _ ⟨-, rfl⟩; rfl)
      ⟨Nat.zero_le _, rfl⟩ hpolls

/-- A connection whose bytes have all arrived. -/
def arrived : Reader (List UInt8) Unit := fun bytes room => some (.ready (bytes.take room), bytes.drop room)

theorem replayed_arrived :
    (polls (Frontend.PrefixedStream.pollRead arrived) (.new [71, 69, 84] [32, 47]) [2, 2, 2, 2]).map Prod.fst =
      some [.ready [71, 69], .ready [84], .ready [32, 47], .ready []] ∧
    ∃ pieces late, Replayed [71, 69, 84] [2, 2, 2, 2] pieces late ∧
      (polls (Frontend.PrefixedStream.pollRead arrived) (.new [71, 69, 84] [32, 47]) [2, 2, 2, 2]).map
        (fun r => (r.1, r.2.inner)) =
        (polls arrived [32, 47] late).map (fun r => (pieces.map .ready ++ r.1, r.2)) ∧
      (polls (Proxy.RewindStream.pollRead arrived) (.new [71, 69, 84] [32, 47]) [2, 2, 2, 2]).map
        (fun r => (r.1, r.2.inner)) =
        (polls arrived [32, 47] late).map fun r => (pieces.map .ready ++ r.1, r.2) :=
  ⟨by decide, replayed_streams arrived [71, 69, 84] [32, 47] [2, 2, 2, 2] (by decide)⟩

end Silo
