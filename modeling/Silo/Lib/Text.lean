import Mathlib.Data.List.Basic

namespace Silo.Lib

/-- The Unicode property `White_Space`. -/
def isWhitespace (c : Char) : Bool :=
  let n := c.toNat
  (9 ≤ n && n ≤ 13) || n = 0x20 || n = 0x85 || n = 0xa0 || n = 0x1680 || (0x2000 ≤ n && n ≤ 0x200a) ||
    n = 0x2028 || n = 0x2029 || n = 0x202f || n = 0x205f || n = 0x3000

def trim (text : List Char) : List Char :=
  ((text.dropWhile isWhitespace).reverse.dropWhile isWhitespace).reverse

theorem mem_of_mem_trim {char : Char} {text : List Char} (h : char ∈ trim text) : char ∈ text := by
  rw [trim, List.mem_reverse] at h
  have hback := List.mem_reverse.mp ((List.dropWhile_sublist _).subset h)
  exact (List.dropWhile_sublist _).subset hback

def occursIn (part text : List Char) : Bool :=
  match text with
  | [] => part.isEmpty
  | c :: rest => part.isPrefixOf (c :: rest) || occursIn part rest

def splitOnce (c : Char) : List Char → Option (List Char × List Char)
  | [] => none
  | d :: rest => if d = c then some ([], rest) else (splitOnce c rest).map fun p => (d :: p.1, p.2)

def rsplitOnce (c : Char) : List Char → Option (List Char × List Char)
  | [] => none
  | d :: rest =>
    match rsplitOnce c rest with
    | some (before, after) => some (d :: before, after)
    | none => if d = c then some ([], rest) else none

def nextWord (text : List Char) : Option (List Char × List Char) :=
  match text.dropWhile isWhitespace with
  | [] => none
  | rest => some (rest.takeWhile fun c => !isWhitespace c, rest.dropWhile fun c => !isWhitespace c)

/-- Replaces the occurrences of `part` from left to right; `skip` characters of
the last one are still ahead. -/
def replaceAll (part replacement : List Char) (skip : Nat) : List Char → List Char
  | [] => []
  | c :: rest =>
    if 0 < skip then replaceAll part replacement (skip - 1) rest
    else if part.isPrefixOf (c :: rest) then replacement ++ replaceAll part replacement (part.length - 1) rest
    else c :: replaceAll part replacement 0 rest

variable {α : Type} [BEq α] [LawfulBEq α] {sep : α} {xs ys : List α}

omit [BEq α] [LawfulBEq α] in
theorem intercalate_append (sep : α) {xs ys : List (List α)} (hxs : xs ≠ []) (hys : ys ≠ []) :
    [sep].intercalate (xs ++ ys) = [sep].intercalate xs ++ sep :: [sep].intercalate ys := by
  induction xs with
  | nil => exact absurd rfl hxs
  | cons x xs ih =>
      cases xs with
      | nil =>
          rw [List.singleton_append, List.intercalate_cons_of_ne_nil hys, List.intercalate_singleton,
            List.append_assoc, List.singleton_append]
      | cons x' xs =>
          have hall : x' :: xs ++ ys ≠ [] := by simp
          have hfirst : [sep].intercalate (x :: x' :: xs) = x ++ [sep] ++ [sep].intercalate (x' :: xs) :=
            List.intercalate_cons_of_ne_nil (List.cons_ne_nil x' xs)
          rw [List.cons_append, List.intercalate_cons_of_ne_nil hall, ih (List.cons_ne_nil x' xs), hfirst]
          simp only [List.append_assoc]

/-- The parts of one list end in those of the other if it ends in that list, at a
separator. -/
theorem splitOn_suffix_iff : ys.splitOn sep <:+ xs.splitOn sep ↔ xs = ys ∨ ∃ before, xs = before ++ sep :: ys := by
  constructor
  · rintro ⟨parts, hparts⟩
    have hxs : xs = [sep].intercalate (parts ++ ys.splitOn sep) := by
      rw [hparts, List.intercalate_splitOn]
    by_cases hnil : parts = []
    · rw [hnil, List.nil_append, List.intercalate_splitOn] at hxs
      exact .inl hxs
    · rw [intercalate_append sep hnil (List.splitOn_ne_nil sep ys), List.intercalate_splitOn] at hxs
      exact .inr ⟨_, hxs⟩
  · rintro (rfl | ⟨before, rfl⟩)
    · exact List.suffix_refl _
    · rw [List.splitOn_append_cons_self]
      exact List.suffix_append _ _

end Silo.Lib
