import Mathlib.Algebra.GroupWithZero.Nat
import Mathlib.Data.List.Basic
import Silo.Lib.Text

namespace Silo.Lib

/-- `split_whitespace`. -/
def words (text : List Char) : List (List Char) := (text.splitOnP isWhitespace).filter fun word => !word.isEmpty

def size (text : List Char) : Nat := (text.map Char.utf8Size).sum

/-- The two sides of a byte offset; none when it is past the end or inside of a character. -/
def cut : List Char → Nat → Option (List Char × List Char)
  | text, 0 => some ([], text)
  | [], _ + 1 => none
  | c :: rest, n + 1 =>
    if c.utf8Size ≤ n + 1 then (cut rest (n + 1 - c.utf8Size)).map fun sides => (c :: sides.1, sides.2) else none

/-- `char_indices`, from an offset on. -/
def charIndices (offset : Nat) : List Char → List (Nat × Char)
  | [] => []
  | c :: rest => (offset, c) :: charIndices (offset + c.utf8Size) rest

/-- `String::insert`. -/
def insertAt (text : List Char) (offset : Nat) (c : Char) : Option (List Char) :=
  (cut text offset).map fun sides => sides.1 ++ c :: sides.2

/-- `String::remove`. -/
def removeAt (text : List Char) (offset : Nat) : Option (List Char) :=
  match cut text offset with
  | some (before, _ :: after) => some (before ++ after)
  | _ => none

variable {text before after : List Char} {c : Char} {n : Nat}

@[simp]
theorem size_nil : size [] = 0 := rfl

@[simp]
theorem size_cons : size (c :: text) = c.utf8Size + size text := by simp [size]

@[simp]
theorem size_append (before after : List Char) : size (before ++ after) = size before + size after := by simp [size]

theorem cut_zero (text : List Char) : cut text 0 = some ([], text) := by cases text <;> rfl

@[simp]
theorem cut_append (before after : List Char) : cut (before ++ after) (size before) = some (before, after) := by
  induction before with
  | nil => exact cut_zero after
  | cons c before ih =>
      have hpos := c.utf8Size_pos
      obtain ⟨n, hn⟩ : ∃ n, size (c :: before) = n + 1 := ⟨c.utf8Size + size before - 1, by rw [size_cons]; omega⟩
      have hrest : n + 1 - c.utf8Size = size before := by rw [← hn, size_cons]; omega
      have hle : c.utf8Size ≤ n + 1 := by rw [← hn, size_cons]; omega
      rw [hn, List.cons_append, cut, if_pos hle, hrest, ih]
      rfl

theorem insertAt_append (before after : List Char) (c : Char) :
    insertAt (before ++ after) (size before) c = some (before ++ c :: after) := by
  rw [insertAt, cut_append]
  rfl

theorem removeAt_append (before after : List Char) (c : Char) :
    removeAt (before ++ c :: after) (size before) = some (before ++ after) := by
  rw [removeAt, cut_append]

theorem charIndices_getElem? (offset : Nat) (text : List Char) (i : Nat) :
    (charIndices offset text)[i]? = text[i]?.map fun c => (offset + size (text.take i), c) := by
  induction text generalizing offset i with
  | nil => rfl
  | cons c rest ih =>
      cases i with
      | zero => rfl
      | succ i =>
          rw [charIndices, List.getElem?_cons_succ, List.getElem?_cons_succ, ih, List.take_succ_cons, size_cons,
            Nat.add_assoc]

section First

variable {α : Type} [DecidableEq α]

/-- What comes before and after the first occurrence of `part`. -/
def splitFirst (part : List α) : List α → Option (List α × List α)
  | [] => if part = [] then some ([], []) else none
  | a :: rest =>
    if part <+: a :: rest then some ([], (a :: rest).drop part.length)
    else (splitFirst part rest).map fun sides => (a :: sides.1, sides.2)

variable {part text before after : List α}

theorem splitFirst_eq (h : splitFirst part text = some (before, after)) : text = before ++ part ++ after := by
  induction text generalizing before with
  | nil =>
      rw [splitFirst] at h
      split at h
      · cases h
        simpa using ‹part = []›
      · cases h
  | cons a rest ih =>
      rw [splitFirst] at h
      split at h
      · rename_i hprefix
        cases h
        exact (List.prefix_iff_eq_append.mp hprefix).symm
      · obtain ⟨sides, hsides, heq⟩ := Option.map_eq_some_iff.mp h
        cases heq
        rw [ih hsides]
        rfl

theorem splitFirst_le (h : splitFirst part text = some (before, after)) {first rest : List α}
    (heq : text = first ++ part ++ rest) : before.length ≤ first.length := by
  induction text generalizing before first with
  | nil =>
      rw [splitFirst] at h
      split at h
      · cases h
        exact Nat.zero_le _
      · cases h
  | cons a tail ih =>
      rw [splitFirst] at h
      split at h
      · cases h
        exact Nat.zero_le _
      · rename_i hnot
        obtain ⟨sides, hsides, hbefore⟩ := Option.map_eq_some_iff.mp h
        cases hbefore
        cases first with
        | nil => exact absurd ⟨rest, heq.symm⟩ hnot
        | cons c first =>
            rw [List.cons_append, List.cons_append, List.cons.injEq] at heq
            exact Nat.succ_le_succ (ih hsides heq.2)

theorem splitFirst_isSome_iff : (splitFirst part text).isSome = true ↔ part <:+: text := by
  constructor
  · intro h
    obtain ⟨⟨before, after⟩, hsides⟩ := Option.isSome_iff_exists.mp h
    exact ⟨before, after, (splitFirst_eq hsides).symm⟩
  · intro h
    induction text with
    | nil => rw [splitFirst, if_pos (List.infix_nil.mp h), Option.isSome_some]
    | cons a rest ih =>
        rw [splitFirst]
        split
        · rfl
        · rename_i hnot
          rw [Option.isSome_map]
          exact ih ((List.infix_cons_iff.mp h).resolve_left hnot)

theorem splitFirst_eq_none_iff : splitFirst part text = none ↔ ¬ part <:+: text := by
  rw [← splitFirst_isSome_iff, Option.not_isSome_iff_eq_none]

theorem splitFirst_length (h : splitFirst part text = some (before, after)) : part.length ≤ text.length := by
  rw [splitFirst_eq h, List.length_append, List.length_append]
  omega

theorem splitFirst_append (h : splitFirst part text = some (before, after)) (more : List α) :
    splitFirst part (text ++ more) = some (before, after ++ more) := by
  induction text generalizing before with
  | nil =>
      rw [splitFirst] at h
      split at h
      · cases h
        cases more <;> simp [splitFirst, ‹part = []›]
      · cases h
  | cons a rest ih =>
      have hlength := splitFirst_length h
      have hbegins : part <+: a :: (rest ++ more) ↔ part <+: a :: rest :=
        ⟨fun hmore => List.prefix_of_prefix_length_le hmore (List.prefix_append (a :: rest) more) hlength,
          fun hrest => hrest.trans (List.prefix_append (a :: rest) more)⟩
      rw [splitFirst] at h
      rw [List.cons_append, splitFirst]
      split at h
      · cases h
        rw [if_pos (hbegins.mpr ‹_›), ← List.cons_append, List.drop_append_of_le_length hlength]
      · obtain ⟨sides, hsides, hbefore⟩ := Option.map_eq_some_iff.mp h
        cases hbefore
        rw [if_neg (mt hbegins.mp ‹_›), ih hsides]
        rfl

end First

section Offsets

def sliceFrom (text : List Char) (start : Nat) : Option (List Char) := (cut text start).map Prod.snd

def sliceTo (text : List Char) (stop : Nat) : Option (List Char) := (cut text stop).map Prod.fst

def slice (text : List Char) (start stop : Nat) : Option (List Char) :=
  if start ≤ stop then (sliceTo text stop).bind fun front => sliceFrom front start else none

/-- `str::find`. -/
def find (part text : List Char) : Option Nat := (splitFirst part text).map fun sides => size sides.1

/-- `str::rfind` of a character. -/
def rfind (c : Char) (text : List Char) : Option Nat := (rsplitOnce c text).map fun sides => size sides.1

variable {text before after : List Char}

@[simp]
theorem sliceFrom_append (before after : List Char) : sliceFrom (before ++ after) (size before) = some after := by
  rw [sliceFrom, cut_append]
  rfl

@[simp]
theorem sliceTo_append (before after : List Char) : sliceTo (before ++ after) (size before) = some before := by
  rw [sliceTo, cut_append]
  rfl

theorem slice_append (before part after : List Char) :
    slice (before ++ part ++ after) (size before) (size (before ++ part)) = some part := by
  rw [slice, if_pos (by rw [size_append]; exact Nat.le_add_right _ _), sliceTo_append, Option.bind_some, sliceFrom_append]

/-- Of two beginnings of a text, the one with fewer bytes begins the other. -/
theorem prefix_of_size_le {front : List Char} (hbefore : before <+: text) (hfront : front <+: text)
    (h : size before ≤ size front) : before <+: front := by
  obtain hprefix | ⟨rest, rfl⟩ := List.prefix_or_prefix_of_prefix hbefore hfront
  · exact hprefix
  · rw [size_append] at h
    cases rest with
    | nil => exact ⟨[], by simp⟩
    | cons c rest =>
        have hpos := c.utf8Size_pos
        rw [size_cons] at h
        omega

theorem rsplitOnce_eq_none {c : Char} (h : rsplitOnce c text = none) : c ∉ text := by
  induction text with
  | nil => exact List.not_mem_nil
  | cons d rest ih =>
      rw [rsplitOnce] at h
      split at h
      · cases h
      · split at h
        · cases h
        · exact List.not_mem_cons_of_ne_of_not_mem (Ne.symm ‹_›) (ih ‹_›)

theorem rsplitOnce_eq_some {c : Char} (h : rsplitOnce c text = some (before, after)) :
    text = before ++ c :: after ∧ c ∉ after := by
  induction text generalizing before with
  | nil => cases h
  | cons d rest ih =>
      rw [rsplitOnce] at h
      split at h
      · rename_i first last hrest
        cases h
        obtain ⟨rfl, hlast⟩ := ih hrest
        exact ⟨rfl, hlast⟩
      · split at h
        · rename_i hrest heq
          cases h
          exact ⟨by rw [heq]; rfl, rsplitOnce_eq_none hrest⟩
        · cases h

theorem prefix_eq_of_size {front : List Char} (hbefore : before <+: text) (hfront : front <+: text)
    (h : size before = size front) : before = front :=
  have hprefix := prefix_of_size_le hbefore hfront (Nat.le_of_eq h)
  hprefix.eq_of_length_le (prefix_of_size_le hfront hbefore (Nat.le_of_eq h.symm)).length_le

theorem size_le_of_prefix {front : List Char} (h : front <+: text) : size front ≤ size text := by
  obtain ⟨rest, rfl⟩ := h
  rw [size_append]
  exact Nat.le_add_right _ _

theorem find_eq_none {part : List Char} (h : find part text = none) : ¬ part <:+: text :=
  splitFirst_eq_none_iff.mp (Option.map_eq_none_iff.mp h)

theorem find_eq_some {part : List Char} {n : Nat} (h : find part text = some n) :
    ∃ before after, text = before ++ part ++ after ∧ n = size before ∧
      ∀ first rest, text = first ++ part ++ rest → before <+: first := by
  obtain ⟨⟨before, after⟩, hsides, rfl⟩ := Option.map_eq_some_iff.mp h
  have htext := splitFirst_eq hsides
  refine ⟨before, after, htext, rfl, fun first rest hother => ?_⟩
  have hbefore : before <+: text := ⟨part ++ after, by rw [htext, List.append_assoc]⟩
  have hfirst : first <+: text := ⟨part ++ rest, by rw [hother, List.append_assoc]⟩
  exact List.prefix_of_prefix_length_le hbefore hfirst (splitFirst_le hsides hother)

theorem find_char_eq_some {c : Char} {n : Nat} (h : find [c] text = some n) :
    ∃ before after, text = before ++ c :: after ∧ n = size before ∧ c ∉ before := by
  obtain ⟨before, after, htext, hn, hfirst⟩ := find_eq_some h
  rw [List.append_assoc, List.singleton_append] at htext
  refine ⟨before, after, htext, hn, fun hmem => ?_⟩
  obtain ⟨first, last, rfl⟩ := List.append_of_mem hmem
  have hle := (hfirst first (last ++ c :: after) (by rw [htext]; simp)).length_le
  rw [List.length_append, List.length_cons] at hle
  omega

theorem last_unique {c : Char} {front front' : List Char} (h : front ++ c :: after = front' ++ c :: before)
    (hafter : c ∉ after) (hbefore : c ∉ before) : after = before := by
  obtain ⟨x, rfl, hx⟩ | ⟨x, rfl, hx⟩ := List.append_eq_append_iff.mp h
  · cases x with
    | nil => exact (List.cons.inj hx).2
    | cons d x =>
        rw [(List.cons.inj hx).2] at hafter
        exact absurd (List.mem_append_right x List.mem_cons_self) hafter
  · cases x with
    | nil => exact (List.cons.inj hx).2.symm
    | cons d x =>
        rw [(List.cons.inj hx).2] at hbefore
        exact absurd (List.mem_append_right x List.mem_cons_self) hbefore

end Offsets

end Silo.Lib
