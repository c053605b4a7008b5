import Mathlib.Algebra.GroupWithZero.Nat
import Silo.Lib.Utf8

namespace Silo.Sandbox

open Silo.Lib

def capped (cap : Nat) (bytes : List UInt8) : List UInt8 × Bool := (bytes.take cap, decide (cap < bytes.length))

structure CappedBuffer where
  data : List UInt8
  cap : Nat
  truncated : Bool
  bounded : data.length ≤ cap

namespace CappedBuffer

def new (cap : Nat) : CappedBuffer := ⟨[], cap, false, Nat.zero_le cap⟩

variable (b : CappedBuffer)

def push (chunk : List UInt8) : CappedBuffer :=
  let room := b.cap - b.data.length
  let take := min room chunk.length
  { data := b.data ++ chunk.take take
    cap := b.cap
    truncated := if take < chunk.length then true else b.truncated
    bounded := by
      have := b.bounded
      rw [List.length_append, List.length_take]
      omega }

/-- The loop of `drain` over what its reads return. -/
def drain {ε : Type} (b : CappedBuffer) : List (Except ε (List UInt8)) → CappedBuffer
  | [] | .error _ :: _ | .ok [] :: _ => b
  | .ok (byte :: chunk) :: reads => drain (b.push (byte :: chunk)) reads

/-- `buffer_contents`. -/
def contents : List Char × Bool := (Utf8.lossy b.data, b.truncated)

end CappedBuffer

/-- The bytes that reads return up to the end of the stream or a failure. -/
def received {ε : Type} : List (Except ε (List UInt8)) → List (List UInt8)
  | [] | .error _ :: _ | .ok [] :: _ => []
  | .ok (byte :: chunk) :: reads => (byte :: chunk) :: received reads

/-- `usize::try_from(max_bytes).unwrap_or(usize::MAX)`. -/
def fetchCap (usizeMax : Nat) (maxBytes : UInt64) : Nat :=
  if maxBytes.toNat ≤ usizeMax then maxBytes.toNat else usizeMax

/-- The loop of `fetch` over the chunks of a response. -/
def fetchBody (cap : Nat) (body : List UInt8) : List (Except (List Char) (List UInt8)) →
    Except (List Char) (List UInt8 × Bool)
  | [] => .ok (body, false)
  | .error e :: _ => .error ("fetch body failed: ".toList ++ e)
  | .ok chunk :: chunks =>
    let room := cap - body.length
    if room < chunk.length then .ok (body ++ chunk.take room, true) else fetchBody cap (body ++ chunk) chunks

variable {b : CappedBuffer} {cap : Nat} {bytes : List UInt8}

/-- The buffer is what the cap leaves of the bytes pushed so far. -/
def CappedBuffer.Holds (b : CappedBuffer) (bytes : List UInt8) : Prop := (b.data, b.truncated) = capped b.cap bytes

theorem capped_of_le (h : bytes.length ≤ cap) : capped cap bytes = (bytes, false) := by
  rw [capped, List.take_of_length_le h, decide_eq_false (Nat.not_lt.mpr h)]

theorem capped_append_of_lt (h : cap < bytes.length) (chunk : List UInt8) :
    capped cap (bytes ++ chunk) = (bytes.take cap, true) := by
  rw [capped, List.take_append_of_le_length (Nat.le_of_lt h), List.length_append,
    decide_eq_true (Nat.lt_add_right chunk.length h)]

theorem CappedBuffer.Holds.push (h : b.Holds bytes) (chunk : List UInt8) : (b.push chunk).Holds (bytes ++ chunk) := by
  have hdata : b.data = bytes.take b.cap := congrArg Prod.fst h
  have htruncated : b.truncated = decide (b.cap < bytes.length) := congrArg Prod.snd h
  change (b.data ++ chunk.take (min (b.cap - b.data.length) chunk.length),
    if min (b.cap - b.data.length) chunk.length < chunk.length then true else b.truncated) = capped b.cap _
  by_cases hfull : b.cap < bytes.length
  · have hroom : b.cap - b.data.length = 0 := by
      rw [hdata, List.length_take]
      omega
    rw [capped_append_of_lt hfull, htruncated, decide_eq_true hfull, hroom, Nat.zero_min, List.take_zero, hdata,
      List.append_nil, ite_self]
  · have hle : bytes.length ≤ b.cap := Nat.not_lt.mp hfull
    rw [List.take_of_length_le hle] at hdata
    have htake : min (b.cap - bytes.length) chunk.length < chunk.length ↔ b.cap < bytes.length + chunk.length := by
      omega
    rw [htruncated, hdata, decide_eq_false hfull, capped, List.take_append, List.take_of_length_le hle,
      List.length_append, ← List.take_eq_take_min]
    simp only [htake, Bool.if_true_left, Bool.or_false]

theorem CappedBuffer.Holds.foldl (h : b.Holds bytes) (chunks : List (List UInt8)) :
    (chunks.foldl CappedBuffer.push b).Holds (bytes ++ chunks.flatten) := by
  induction chunks generalizing b bytes with
  | nil => simpa using h
  | cons chunk chunks ih =>
      rw [List.foldl_cons, List.flatten_cons, ← List.append_assoc]
      exact ih (h.push chunk)

theorem CappedBuffer.cap_foldl (b : CappedBuffer) (chunks : List (List UInt8)) :
    (chunks.foldl CappedBuffer.push b).cap = b.cap := by
  induction chunks generalizing b with
  | nil => rfl
  | cons chunk chunks ih => rw [List.foldl_cons, ih]; rfl

theorem CappedBuffer.holds_new (cap : Nat) (chunks : List (List UInt8)) :
    (chunks.foldl CappedBuffer.push (.new cap)).Holds chunks.flatten :=
  Holds.foldl (show (new cap).Holds [] from (capped_of_le (Nat.zero_le cap)).symm) chunks

theorem CappedBuffer.data_foldl (cap : Nat) (chunks : List (List UInt8)) :
    (chunks.foldl CappedBuffer.push (.new cap)).data = chunks.flatten.take cap := by
  have h : _ = chunks.flatten.take _ := congrArg Prod.fst (holds_new cap chunks)
  rwa [cap_foldl] at h

theorem CappedBuffer.truncated_foldl (cap : Nat) (chunks : List (List UInt8)) :
    (chunks.foldl CappedBuffer.push (.new cap)).truncated = decide (cap < chunks.flatten.length) := by
  have h : _ = decide (_ < chunks.flatten.length) := congrArg Prod.snd (holds_new cap chunks)
  rwa [cap_foldl] at h

theorem CappedBuffer.drain_eq {ε : Type} (b : CappedBuffer) (reads : List (Except ε (List UInt8))) :
    b.drain reads = (received reads).foldl CappedBuffer.push b := by
  induction reads generalizing b with
  | nil => rfl
  | cons read reads ih =>
      cases read with
      | error e => rfl
      | ok chunk =>
          cases chunk with
          | nil => rfl
          | cons byte chunk => exact ih (b.push (byte :: chunk))

theorem fetchBody_append (h : bytes.length ≤ cap) (chunks : List (List UInt8))
    (rest : List (Except (List Char) (List UInt8))) :
    fetchBody cap bytes (chunks.map .ok ++ rest) =
      if cap < (bytes ++ chunks.flatten).length then .ok (capped cap (bytes ++ chunks.flatten))
      else fetchBody cap (bytes ++ chunks.flatten) rest := by
  induction chunks generalizing bytes with
  | nil =>
      rw [List.flatten_nil, List.append_nil, if_neg (Nat.not_lt.mpr h)]
      rfl
  | cons chunk chunks ih =>
      rw [List.map_cons, List.cons_append, fetchBody, List.flatten_cons, ← List.append_assoc]
      split
      case isTrue hroom =>
        have hlt : cap < (bytes ++ chunk).length := by
          rw [List.length_append]
          omega
        have hmore : cap < (bytes ++ chunk ++ chunks.flatten).length := by
          rw [List.length_append]
          omega
        rw [if_pos hmore, capped_append_of_lt hlt, List.take_append, List.take_of_length_le h]
      case isFalse hroom =>
        apply ih
        rw [List.length_append]
        omega

theorem fetchBody_eq (cap : Nat) (chunks : List (List UInt8)) :
    fetchBody cap [] (chunks.map .ok) = .ok (capped cap chunks.flatten) := by
  have h := fetchBody_append (show ([] : List UInt8).length ≤ cap from Nat.zero_le cap) chunks []
  rw [List.append_nil, List.nil_append] at h
  rw [h]
  split
  case isTrue => rfl
  case isFalse hle => rw [fetchBody, capped_of_le (Nat.not_lt.mp hle)]

theorem fetchCap_eq (usizeMax : Nat) (maxBytes : UInt64) :
    fetchCap usizeMax maxBytes = min maxBytes.toNat usizeMax := by
  rw [fetchCap, Nat.min_def]

/-- What is kept of the output of a command or of a response are its first bytes, and whether there
are more, however it is cut into chunks. -/
theorem outputs_capped {ε : Type} :
    (∀ cap (chunks : List (List UInt8)),
      (chunks.foldl CappedBuffer.push (.new cap)).data = chunks.flatten.take (min cap chunks.flatten.length) ∧
      ((chunks.foldl CappedBuffer.push (.new cap)).truncated = true ↔ cap < chunks.flatten.length)) ∧
    (∀ cap (reads : List (Except ε (List UInt8))),
      ((CappedBuffer.new cap).drain reads).contents =
        (Utf8.lossy ((received reads).flatten.take cap), decide (cap < (received reads).flatten.length))) ∧
    (∀ (maxBytes : UInt64) (chunks : List (List UInt8)),
      fetchBody (fetchCap (2 ^ 64 - 1) maxBytes) [] (chunks.map .ok) =
        .ok (chunks.flatten.take (min maxBytes.toNat chunks.flatten.length),
          decide (maxBytes.toNat < chunks.flatten.length))) ∧
    ∀ usizeMax maxBytes (chunks : List (List UInt8)),
      fetchBody (fetchCap usizeMax maxBytes) [] (chunks.map .ok) =
        let b := chunks.foldl CappedBuffer.push (.new (min maxBytes.toNat usizeMax))
        .ok (b.data, b.truncated) := by
  refine ⟨fun cap chunks => ⟨?_, ?_⟩, fun cap reads => ?_, fun maxBytes chunks => ?_,
    fun usizeMax maxBytes chunks => ?_⟩
  · rw [← List.take_eq_take_min]
    exact CappedBuffer.data_foldl cap chunks
  · rw [CappedBuffer.truncated_foldl, decide_eq_true_iff]
  · rw [CappedBuffer.contents, CappedBuffer.drain_eq, CappedBuffer.data_foldl, CappedBuffer.truncated_foldl]
  · have hle : maxBytes.toNat ≤ 2 ^ 64 - 1 := Nat.le_sub_one_of_lt maxBytes.toNat_lt
    rw [fetchBody_eq, fetchCap, if_pos hle, ← List.take_eq_take_min]
    rfl
  · rw [fetchBody_eq, fetchCap_eq]
    dsimp only
    rw [CappedBuffer.data_foldl, CappedBuffer.truncated_foldl]
    rfl

end Silo.Sandbox
