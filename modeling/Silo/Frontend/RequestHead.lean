import Silo.Lib.Slices

namespace Silo.Frontend.Http

open Silo.Lib

def headLimit : Nat := 8 * 1024

/-- The size of the buffer that is read into. -/
def chunkSize : Nat := 1024

inductive Read
  | data (chunk : List UInt8)
  | failed

def terminator : List UInt8 := [13, 10, 13, 10]

def windows (n : Nat) : List UInt8 → List (List UInt8)
  | [] => []
  | byte :: rest => if n ≤ rest.length + 1 then (byte :: rest).take n :: windows n rest else []

/-- `read_request_head` with what it has read so far, and with the reads that come, after which
the stream is at its end. It returns the reads that are left as well. -/
def readRequestHead (head : List UInt8) : List Read → Option (List UInt8 × List Read)
  | [] | .failed :: _ => none
  | .data chunk :: rest =>
    if chunk = [] then none
    else
      -- the terminator may straddle the chunk boundary
      let searchFrom := head.length - 3
      let head := head ++ chunk
      if (windows 4 (head.drop searchFrom)).any fun window => window = terminator then some (head, rest)
      else if headLimit ≤ head.length then none
      else readRequestHead head rest

/-- The bytes of a stream, up to its end or its failure. -/
def bytes : List Read → List UInt8
  | .data chunk :: rest => chunk ++ bytes rest
  | _ => []

def Sized (reads : List Read) : Prop := ∀ chunk, .data chunk ∈ reads → 1 ≤ chunk.length ∧ chunk.length ≤ chunkSize

/-- Where the first terminator of a stream ends. -/
def headEnd (stream : List UInt8) : Option Nat := (splitFirst terminator stream).map fun sides => sides.1.length + 4

def boundaries (start : Nat) : List Read → List Nat
  | .data chunk :: rest => (start + chunk.length) :: boundaries (start + chunk.length) rest
  | _ => []

/-- However a stream is split into reads, its head is found when it ends within the limit, and no
byte is lost. -/
structure ChunkIndependent (stream : List UInt8) : Prop where
  decides : ∀ reads, Sized reads → bytes reads = stream →
    ((readRequestHead [] reads).isSome = true ↔ ∃ n, headEnd stream = some n ∧ n ≤ headLimit)
  keeps : ∀ reads, Sized reads → bytes reads = stream →
    ∀ head rest, readRequestHead [] reads = some (head, rest) → head ++ bytes rest = stream
  same : ∀ reads reads', Sized reads → Sized reads' → bytes reads = stream → bytes reads' = stream →
    (readRequestHead [] reads).isSome = (readRequestHead [] reads').isSome

variable {head chunk stream : List UInt8} {reads : List Read}

theorem any_windows {part : List UInt8} (hpart : part ≠ []) (stream : List UInt8) :
    ((windows part.length stream).any fun window => window = part) = true ↔ part <:+: stream := by
  have hpos := List.length_pos_iff.mpr hpart
  induction stream with
  | nil => simp [windows, hpart]
  | cons byte rest ih =>
      rw [windows]
      split
      · rename_i hle
        have htake : (byte :: rest).take part.length = part ↔ part <+: byte :: rest :=
          eq_comm.trans List.prefix_iff_eq_take.symm
        simp only [List.any_cons, Bool.or_eq_true, decide_eq_true_eq, List.infix_cons_iff, htake]
        exact or_congr_right ih
      · rename_i hlt
        rw [List.any_nil]
        have hnot : ¬ part <:+: byte :: rest := fun h => hlt h.length_le
        simp [hnot]

theorem infix_before {before : List UInt8} (h : before ++ terminator <+: head ++ chunk)
    (hle : before.length + 4 ≤ head.length) : terminator <:+: head := by
  have hprefix : before ++ terminator <+: head := by
    apply List.prefix_of_prefix_length_le h (List.prefix_append head chunk)
    rwa [List.length_append]
  exact (List.suffix_append before terminator).isInfix.trans hprefix.isInfix

theorem infix_drop_iff (hhead : ¬ terminator <:+: head) :
    terminator <:+: (head ++ chunk).drop (head.length - 3) ↔ terminator <:+: head ++ chunk := by
  constructor
  · exact fun h => h.trans (List.drop_suffix _ _).isInfix
  · rintro ⟨before, after, heq⟩
    have hlate : head.length - 3 ≤ before.length := by
      by_contra hlt
      exact hhead (infix_before ⟨after, heq⟩ (by omega))
    refine ⟨before.drop (head.length - 3), after, ?_⟩
    rw [← heq, List.append_assoc, List.append_assoc, List.drop_append_of_le_length hlate]

theorem searched_iff (hhead : ¬ terminator <:+: head) :
    ((windows 4 ((head ++ chunk).drop (head.length - 3))).any fun window => window = terminator) = true ↔
      terminator <:+: head ++ chunk :=
  (any_windows (List.cons_ne_nil _ _) _).trans (infix_drop_iff hhead)

theorem headEnd_le {n : Nat} (h : headEnd stream = some n) : n ≤ stream.length := by
  obtain ⟨sides, hsides, rfl⟩ := Option.map_eq_some_iff.mp h
  rw [splitFirst_eq hsides, List.length_append, List.length_append]
  simp only [terminator, List.length_cons, List.length_nil]
  omega

theorem headEnd_append {n : Nat} (h : headEnd stream = some n) (more : List UInt8) : headEnd (stream ++ more) = some n := by
  obtain ⟨sides, hsides, rfl⟩ := Option.map_eq_some_iff.mp h
  rw [headEnd, splitFirst_append hsides]
  rfl

theorem infix_of_headEnd {n : Nat} (h : headEnd (head ++ chunk) = some n) (hle : n ≤ head.length) :
    terminator <:+: head := by
  obtain ⟨sides, hsides, rfl⟩ := Option.map_eq_some_iff.mp h
  exact infix_before ⟨sides.2, (splitFirst_eq hsides).symm⟩ hle

theorem headEnd_isSome_iff : (∃ n, headEnd stream = some n) ↔ terminator <:+: stream := by
  rw [← splitFirst_isSome_iff, headEnd, ← Option.isSome_iff_exists, Option.isSome_map]

theorem le_boundary {start b : Nat} (h : b ∈ boundaries start reads) : start ≤ b := by
  induction reads generalizing start with
  | nil => cases h
  | cons read rest ih =>
      cases read with
      | failed => cases h
      | data chunk =>
          obtain rfl | h := List.mem_cons.mp h
          · exact Nat.le_add_right _ _
          · exact Nat.le_trans (Nat.le_add_right _ _) (ih h)

theorem not_headEnd_ended (hhead : ¬ terminator <:+: head) :
    ¬ ∃ n, headEnd (head ++ []) = some n ∧ ∀ b ∈ ([] : List Nat), headLimit ≤ b → n ≤ b := by
  rintro ⟨n, hn, -⟩
  rw [List.append_nil] at hn
  exact hhead (headEnd_isSome_iff.mp ⟨n, hn⟩)

/-- The head is found unless the reading stops at the limit before its end. -/
theorem isSome_readRequestHead (hsized : Sized reads) (hhead : ¬ terminator <:+: head) :
    (readRequestHead head reads).isSome = true ↔
      ∃ n, headEnd (head ++ bytes reads) = some n ∧ ∀ b ∈ boundaries head.length reads, headLimit ≤ b → n ≤ b := by
  induction reads generalizing head with
  | nil => exact iff_of_false nofun (not_headEnd_ended hhead)
  | cons read rest ih =>
      cases read with
      | failed => exact iff_of_false nofun (not_headEnd_ended hhead)
      | data chunk =>
          have hchunk : chunk ≠ [] := List.length_pos_iff.mp (hsized chunk List.mem_cons_self).1
          rw [readRequestHead, if_neg hchunk, bytes, boundaries, ← List.append_assoc, ← List.length_append]
          dsimp only
          split
          · rename_i hfound
            obtain ⟨n, hn⟩ := headEnd_isSome_iff.mpr ((searched_iff hhead).mp hfound)
            refine iff_of_true rfl ⟨n, headEnd_append hn _, ?_⟩
            intro b hb _
            apply Nat.le_trans (headEnd_le hn)
            obtain rfl | hb := List.mem_cons.mp hb
            · exact Nat.le_refl _
            · exact le_boundary hb
          · rename_i hnone
            have hnone : ¬ terminator <:+: head ++ chunk := mt (searched_iff hhead).mpr hnone
            split
            · rename_i hlimit
              apply iff_of_false nofun
              rintro ⟨n, hn, hall⟩
              exact hnone (infix_of_headEnd hn (hall _ List.mem_cons_self hlimit))
            · rename_i hlimit
              rw [ih (fun c hc => hsized c (List.mem_cons_of_mem _ hc)) hnone]
              constructor
              · rintro ⟨n, hn, hall⟩
                exact ⟨n, hn, List.forall_mem_cons.mpr ⟨fun hle => absurd hle hlimit, hall⟩⟩
              · rintro ⟨n, hn, hall⟩
                exact ⟨n, hn, (List.forall_mem_cons.mp hall).2⟩

theorem append_readRequestHead {head' : List UInt8} {rest : List Read}
    (h : readRequestHead head reads = some (head', rest)) : head' ++ bytes rest = head ++ bytes reads := by
  induction reads generalizing head with
  | nil => cases h
  | cons read reads ih =>
      cases read with
      | failed => cases h
      | data chunk =>
          rw [bytes, ← List.append_assoc]
          rw [readRequestHead] at h
          split at h
          · cases h
          · dsimp only at h
            split at h
            · cases h
              rfl
            · split at h
              · cases h
              · exact ih h

theorem exists_boundary {start : Nat} (hsized : Sized reads) (hstart : start < headLimit)
    (hlong : headLimit ≤ start + (bytes reads).length) :
    ∃ b ∈ boundaries start reads, headLimit ≤ b ∧ b < headLimit + chunkSize := by
  induction reads generalizing start with
  | nil =>
      simp only [bytes, List.length_nil] at hlong
      omega
  | cons read rest ih =>
      cases read with
      | failed =>
          simp only [bytes, List.length_nil] at hlong
          omega
      | data chunk =>
          have hchunk := (hsized chunk List.mem_cons_self).2
          rw [bytes, List.length_append] at hlong
          by_cases hle : headLimit ≤ start + chunk.length
          · exact ⟨_, List.mem_cons_self, hle, by omega⟩
          · obtain ⟨b, hb, hb'⟩ := @ih (start + chunk.length) (fun c hc => hsized c (List.mem_cons_of_mem _ hc))
              (by omega) (by omega)
            exact ⟨b, List.mem_cons_of_mem _ hb, hb'⟩

theorem not_infix_nil : ¬ terminator <:+: [] := by
  intro h
  cases List.infix_nil.mp h

def single (stream : List UInt8) : List Read := stream.map fun byte => .data [byte]

def leap (stream : List UInt8) (m n : Nat) : List Read :=
  single (stream.take m) ++ .data ((stream.drop m).take (n - m)) :: single (stream.drop n)

theorem bytes_single_append (stream : List UInt8) (reads : List Read) :
    bytes (single stream ++ reads) = stream ++ bytes reads := by
  induction stream with
  | nil => rfl
  | cons byte rest ih => exact congrArg (byte :: ·) ih

theorem sized_single (stream : List UInt8) : Sized (single stream) := by
  intro chunk h
  obtain ⟨byte, -, heq⟩ := List.mem_map.mp h
  cases heq
  exact ⟨Nat.le_refl 1, show 1 ≤ chunkSize by decide⟩

theorem boundary_single {start b : Nat} (h : b ∈ boundaries start (single stream ++ reads)) :
    b ≤ start + stream.length ∨ b ∈ boundaries (start + stream.length) reads := by
  induction stream generalizing start with
  | nil => exact .inr h
  | cons byte rest ih =>
      rw [List.length_cons]
      obtain rfl | h := List.mem_cons.mp h
      · exact .inl (by simp only [List.length_singleton]; omega)
      · obtain hle | hmem := ih h
        · exact .inl (by simp only [List.length_singleton] at hle; omega)
        · right
          rwa [List.length_singleton, Nat.add_assoc, Nat.add_comm 1] at hmem

section Leap

variable {m n : Nat} (hlt : m < n)
include hlt

theorem bytes_leap : bytes (leap stream m n) = stream := by
  have hrest : bytes (single (stream.drop n)) = stream.drop n := by
    have hsingle := bytes_single_append (stream.drop n) []
    rwa [List.append_nil, bytes.eq_2 [] nofun, List.append_nil] at hsingle
  have hdrop : (stream.drop m).take (n - m) ++ stream.drop n = stream.drop m := by
    have hsplit := List.take_append_drop (n - m) (stream.drop m)
    rwa [List.drop_drop, Nat.add_sub_cancel' (Nat.le_of_lt hlt)] at hsplit
  rw [leap, bytes_single_append, bytes, hrest, hdrop, List.take_append_drop]

variable (hlength : n ≤ stream.length)
include hlength

theorem length_leap : ((stream.drop m).take (n - m)).length = n - m := by
  rw [List.length_take, List.length_drop]
  omega

theorem sized_leap (hnear : n ≤ m + chunkSize) : Sized (leap stream m n) := by
  intro chunk hmem
  rcases List.mem_append.mp hmem with hmem | hmem
  · exact sized_single _ chunk hmem
  · rcases List.mem_cons.mp hmem with heq | hmem
    · rw [Read.data.inj heq, length_leap hlt hlength]
      omega
    · exact sized_single _ chunk hmem

theorem boundary_leap {b : Nat} (h : b ∈ boundaries 0 (leap stream m n)) : b ≤ m ∨ n ≤ b := by
  have htake : (stream.take m).length = m := by
    rw [List.length_take]
    omega
  obtain hbefore | hafter := boundary_single h
  · left
    omega
  · right
    rw [boundaries, length_leap hlt hlength, htake] at hafter
    obtain rfl | hafter := List.mem_cons.mp hafter
    · omega
    · have := le_boundary hafter
      omega

end Leap

/-- A head that ends less than a buffer behind the limit is found by a read that leaps over it. -/
theorem leap_found {n : Nat} (h : headEnd stream = some n) (hlate : headLimit < n) (hnear : n < headLimit + chunkSize) :
    ∃ reads, Sized reads ∧ bytes reads = stream ∧ (readRequestHead [] reads).isSome = true := by
  have hlength := headEnd_le h
  have hlt : headLimit - 1 < n := by omega
  have hsized := sized_leap hlt hlength (by omega)
  have hbytes : bytes (leap stream (headLimit - 1) n) = stream := bytes_leap hlt
  refine ⟨_, hsized, hbytes, ?_⟩
  rw [isSome_readRequestHead hsized not_infix_nil, List.nil_append, hbytes]
  refine ⟨n, h, fun b hb hle => ?_⟩
  have hpos : 0 < headLimit := by decide
  obtain hbefore | hafter := boundary_leap hlt hlength hb
  · omega
  · exact hafter

/-- Reading a stream does not depend on how it is split exactly when its first terminator does
not end within a buffer behind the limit. -/
theorem chunkIndependent_iff (stream : List UInt8) :
    ChunkIndependent stream ↔ ∀ n, headEnd stream = some n → n ≤ headLimit ∨ headLimit + chunkSize ≤ n := by
  constructor
  · intro h n hn
    by_contra hnear
    obtain ⟨reads, hsized, hbytes, hfound⟩ := leap_found hn (by omega) (by omega)
    obtain ⟨m, hm, hle⟩ := (h.decides _ hsized hbytes).mp hfound
    rw [hn] at hm
    cases hm
    exact hnear (.inl hle)
  · intro h
    have hdecides (reads : List Read) (hsized : Sized reads) (hbytes : bytes reads = stream) :
        (readRequestHead [] reads).isSome = true ↔ ∃ n, headEnd stream = some n ∧ n ≤ headLimit := by
      rw [isSome_readRequestHead hsized not_infix_nil, List.nil_append, hbytes]
      constructor
      · rintro ⟨n, hn, hall⟩
        refine ⟨n, hn, (h n hn).resolve_right fun hfar => ?_⟩
        have hlength := headEnd_le hn
        obtain ⟨b, hb, hle, hlt⟩ : ∃ b ∈ boundaries 0 reads, headLimit ≤ b ∧ b < headLimit + chunkSize :=
          exists_boundary hsized (by decide) (by rw [hbytes]; omega)
        have := hall b hb hle
        omega
      · rintro ⟨n, hn, hle⟩
        exact ⟨n, hn, fun b _ hb => Nat.le_trans hle hb⟩
    refine ⟨hdecides, ?_, ?_⟩
    · intro reads _ hbytes head rest hread
      rw [append_readRequestHead hread, List.nil_append, hbytes]
    · intro reads reads' hsized hsized' hbytes hbytes'
      rw [Bool.eq_iff_iff, hdecides reads hsized hbytes, hdecides reads' hsized' hbytes']

/-- A head whose last two bytes are behind the limit. -/
def lateHead : List UInt8 := List.replicate 8190 120 ++ terminator

theorem splitFirst_replicate (k : Nat) :
    splitFirst terminator (List.replicate k 120 ++ terminator) = some (List.replicate k 120, []) := by
  induction k with
  | zero => rfl
  | succ k ih =>
      have hnot : ¬ terminator <+: 120 :: (List.replicate k 120 ++ terminator) :=
        fun h => absurd (List.cons_prefix_cons.mp h).1 (by decide)
      rw [List.replicate_succ, List.cons_append, splitFirst, if_neg hnot, ih]
      rfl

theorem headEnd_lateHead : headEnd lateHead = some 8194 := by
  rw [headEnd, lateHead, splitFirst_replicate, Option.map_some, List.length_replicate]

theorem not_chunkIndependent_lateHead : ¬ ChunkIndependent lateHead := by
  intro h
  obtain ⟨reads, hsized, hbytes, hfound⟩ := leap_found headEnd_lateHead (by decide) (by decide)
  obtain ⟨n, hn, hle⟩ := (h.decides reads hsized hbytes).mp hfound
  rw [headEnd_lateHead] at hn
  cases hn
  exact absurd hle (by decide)

end Silo.Frontend.Http
