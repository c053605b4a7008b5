import Mathlib.Data.List.Basic
import Silo.Lib.Text

namespace Silo.Lib

/-- How often `part` is matched from left to right; `skip` characters of the last
match are still ahead. -/
def matchCount (part : List Char) (skip : Nat) : List Char → Nat
  | [] => 0
  | c :: rest =>
    if 0 < skip then matchCount part (skip - 1) rest
    else if part.isPrefixOf (c :: rest) then matchCount part (part.length - 1) rest + 1
    else matchCount part 0 rest

/-- Replaces the first match of `part`. -/
def replaceFirst (part replacement : List Char) : List Char → List Char
  | [] => []
  | c :: rest =>
    if part.isPrefixOf (c :: rest) then replacement ++ (c :: rest).drop part.length
    else c :: replaceFirst part replacement rest

/-- `part` stands at this position of the text. -/
def OccursAt (part text : List Char) (position : Nat) : Prop := part <+: text.drop position

/-- `part` occurs more than once, each time before the end of its first occurrence. -/
def Tangled (part text : List Char) : Prop :=
  ∃ first other, first < other ∧ OccursAt part text first ∧ OccursAt part text other ∧
    ∀ position, OccursAt part text position → first ≤ position ∧ position < first + part.length

variable {part replacement text : List Char}

theorem not_occursAt_nil (hpart : part ≠ []) (position : Nat) : ¬ OccursAt part [] position := by
  intro h
  rw [OccursAt, List.drop_nil] at h
  exact hpart (List.prefix_nil.mp h)

theorem occursAt_append (front : List Char) (position : Nat) :
    OccursAt part (front ++ text) (front.length + position) ↔ OccursAt part text position := by
  rw [OccursAt, OccursAt, List.drop_length_add_append]

theorem matches_induction {motive : List Char → Prop} (hpart : part ≠ []) (nil : motive [])
    (found : ∀ rest, motive rest → motive (part ++ rest))
    (other : ∀ c rest, ¬ part <+: c :: rest → motive rest → motive (c :: rest)) (text : List Char) : motive text := by
  induction hlength : text.length using Nat.strongRecOn generalizing text with
  | ind length ih =>
      subst hlength
      by_cases hmatch : part <+: text
      · obtain ⟨rest, rfl⟩ := hmatch
        have hpos := List.length_pos_iff.mpr hpart
        exact found rest (ih rest.length (by rw [List.length_append]; omega) rest rfl)
      · cases text with
        | nil => exact nil
        | cons c rest => exact other c rest hmatch (ih rest.length (Nat.lt_succ_self _) rest rfl)

theorem matchCount_skip (skip : Nat) (text : List Char) : matchCount part skip text = matchCount part 0 (text.drop skip) := by
  induction text generalizing skip with
  | nil => rw [List.drop_nil]; rfl
  | cons c rest ih =>
      cases skip with
      | zero => rfl
      | succ skip => rw [matchCount, if_pos (Nat.succ_pos skip), ih]; rfl

theorem replaceAll_skip (skip : Nat) (text : List Char) :
    replaceAll part replacement skip text = replaceAll part replacement 0 (text.drop skip) := by
  induction text generalizing skip with
  | nil => rw [List.drop_nil]; rfl
  | cons c rest ih =>
      cases skip with
      | zero => rfl
      | succ skip => rw [replaceAll, if_pos (Nat.succ_pos skip), ih]; rfl

theorem drop_match {c : Char} {tail : List Char} (rest : List Char) :
    (tail ++ rest).drop ((c :: tail).length - 1) = rest := by
  rw [List.length_cons, Nat.add_sub_cancel, List.drop_left]

theorem matchCount_match (hpart : part ≠ []) (rest : List Char) :
    matchCount part 0 (part ++ rest) = matchCount part 0 rest + 1 := by
  obtain ⟨c, tail, rfl⟩ := List.exists_cons_of_ne_nil hpart
  have hprefix : (c :: tail).isPrefixOf (c :: (tail ++ rest)) = true :=
    List.isPrefixOf_iff_prefix.mpr (List.prefix_append (c :: tail) rest)
  rw [List.cons_append, matchCount, if_neg (Nat.lt_irrefl 0), if_pos hprefix, matchCount_skip, drop_match]

theorem replaceAll_match (hpart : part ≠ []) (rest : List Char) :
    replaceAll part replacement 0 (part ++ rest) = replacement ++ replaceAll part replacement 0 rest := by
  obtain ⟨c, tail, rfl⟩ := List.exists_cons_of_ne_nil hpart
  have hprefix : (c :: tail).isPrefixOf (c :: (tail ++ rest)) = true :=
    List.isPrefixOf_iff_prefix.mpr (List.prefix_append (c :: tail) rest)
  rw [List.cons_append, replaceAll, if_neg (Nat.lt_irrefl 0), if_pos hprefix, replaceAll_skip, drop_match]

theorem replaceFirst_match (hpart : part ≠ []) (rest : List Char) :
    replaceFirst part replacement (part ++ rest) = replacement ++ rest := by
  obtain ⟨c, tail, rfl⟩ := List.exists_cons_of_ne_nil hpart
  have hprefix : (c :: tail).isPrefixOf (c :: (tail ++ rest)) = true :=
    List.isPrefixOf_iff_prefix.mpr (List.prefix_append (c :: tail) rest)
  rw [List.cons_append, replaceFirst, if_pos hprefix, ← List.cons_append, List.drop_left]

section Other

variable {c : Char} {rest : List Char} (h : ¬ part <+: c :: rest)
include h

theorem matchCount_other : matchCount part 0 (c :: rest) = matchCount part 0 rest := by
  rw [matchCount, if_neg (Nat.lt_irrefl 0), if_neg (by rwa [List.isPrefixOf_iff_prefix])]

theorem replaceAll_other : replaceAll part replacement 0 (c :: rest) = c :: replaceAll part replacement 0 rest := by
  rw [replaceAll, if_neg (Nat.lt_irrefl 0), if_neg (by rwa [List.isPrefixOf_iff_prefix])]

theorem replaceFirst_other : replaceFirst part replacement (c :: rest) = c :: replaceFirst part replacement rest := by
  rw [replaceFirst, if_neg (by rwa [List.isPrefixOf_iff_prefix])]

end Other

theorem intercalate_cons_head (sep : List Char) (c : Char) (piece : List Char) (pieces : List (List Char)) :
    sep.intercalate ((c :: piece) :: pieces) = c :: sep.intercalate (piece :: pieces) := by
  cases pieces with
  | nil => rw [List.intercalate_singleton, List.intercalate_singleton]
  | cons next pieces => rw [List.intercalate_cons_cons, List.intercalate_cons_cons, List.cons_append, List.cons_append]

/-- What lies between the matches: as many pieces as there are matches and one more. -/
theorem exists_pieces (hpart : part ≠ []) (replacement text : List Char) :
    ∃ piece pieces, (pieces : List (List Char)).length = matchCount part 0 text ∧
      part.intercalate (piece :: pieces) = text ∧
      replacement.intercalate (piece :: pieces) = replaceAll part replacement 0 text := by
  induction text using matches_induction hpart with
  | nil => exact ⟨[], [], rfl, by simp, by simp [replaceAll]⟩
  | found rest ih =>
      obtain ⟨piece, pieces, hlength, htext, hreplaced⟩ := ih
      refine ⟨[], piece :: pieces, ?_, ?_, ?_⟩
      · rw [matchCount_match hpart, List.length_cons, hlength]
      · rw [List.intercalate_cons_cons, htext]
        rfl
      · rw [List.intercalate_cons_cons, hreplaced, replaceAll_match hpart]
        rfl
  | other c rest hother ih =>
      obtain ⟨piece, pieces, hlength, htext, hreplaced⟩ := ih
      refine ⟨c :: piece, pieces, ?_, ?_, ?_⟩
      · rw [matchCount_other hother, hlength]
      · rw [intercalate_cons_head, htext]
      · rw [intercalate_cons_head, hreplaced, replaceAll_other hother]

theorem matchCount_cases (hpart : part ≠ []) (replacement text : List Char) :
    (matchCount part 0 text = 0 ∧ ∀ position, ¬ OccursAt part text position) ∨
      ∃ front back, text = front ++ (part ++ back) ∧ (∀ position, OccursAt part text position → front.length ≤ position) ∧
        matchCount part 0 text = matchCount part 0 back + 1 ∧
        replaceFirst part replacement text = front ++ (replacement ++ back) := by
  induction text using matches_induction hpart with
  | nil => exact .inl ⟨rfl, not_occursAt_nil hpart⟩
  | found rest _ =>
      refine .inr ⟨[], rest, rfl, fun position _ => Nat.zero_le position, matchCount_match hpart rest, ?_⟩
      exact replaceFirst_match hpart rest
  | other c rest hother ih =>
      rw [matchCount_other hother, replaceFirst_other hother]
      rcases ih with ⟨hcount, hnone⟩ | ⟨front, back, rfl, hfirst, hcount, hreplaced⟩
      · refine .inl ⟨hcount, ?_⟩
        intro position hoccurs
        cases position with
        | zero => exact hother hoccurs
        | succ position => exact hnone position hoccurs
      · refine .inr ⟨c :: front, back, rfl, ?_, hcount, by rw [hreplaced]; rfl⟩
        intro position hoccurs
        cases position with
        | zero => exact absurd hoccurs hother
        | succ position => exact Nat.succ_le_succ (hfirst position hoccurs)

theorem matchCount_eq_zero (hpart : part ≠ []) : matchCount part 0 text = 0 ↔ ∀ position, ¬ OccursAt part text position := by
  rcases matchCount_cases hpart [] text with ⟨hcount, hnone⟩ | ⟨front, back, rfl, -, hcount, -⟩
  · simp only [hcount, hnone, not_false_eq_true, implies_true]
  · constructor
    · intro hzero
      omega
    · intro hnone
      exact absurd ((occursAt_append front 0).mpr (List.prefix_append part back)) (hnone _)

/-- There is one match if all the occurrences begin before the first one ends. -/
theorem matchCount_eq_one (hpart : part ≠ []) : matchCount part 0 text = 1 ↔
    ∃ first, OccursAt part text first ∧
      ∀ position, OccursAt part text position → first ≤ position ∧ position < first + part.length := by
  rcases matchCount_cases hpart [] text with ⟨hcount, hnone⟩ | ⟨front, back, rfl, hfirst, hcount, -⟩
  · constructor
    · intro hone
      omega
    · rintro ⟨first, hoccurs, -⟩
      exact absurd hoccurs (hnone first)
  have hhere : OccursAt part (front ++ (part ++ back)) front.length :=
    (occursAt_append front 0).mpr (List.prefix_append part back)
  have hback : ∀ position, OccursAt part (front ++ (part ++ back)) (front.length + (part.length + position)) ↔
      OccursAt part back position := by
    intro position
    rw [occursAt_append, occursAt_append]
  constructor
  · intro hone
    have hrest := (matchCount_eq_zero hpart).mp (show matchCount part 0 back = 0 by omega)
    refine ⟨front.length, hhere, fun position hoccurs => ⟨hfirst position hoccurs, ?_⟩⟩
    by_contra hlate
    obtain ⟨more, rfl⟩ := Nat.exists_eq_add_of_le (show front.length + part.length ≤ position by omega)
    rw [Nat.add_assoc, hback] at hoccurs
    exact hrest more hoccurs
  · rintro ⟨first, hoccurs, hall⟩
    have hzero : matchCount part 0 back = 0 := by
      rw [matchCount_eq_zero hpart]
      intro position hlate
      have := hall _ ((hback position).mpr hlate)
      have := hall _ hhere
      have := hfirst first hoccurs
      omega
    rw [hcount, hzero]

theorem matchCount_eq_one_iff_unique (hpart : part ≠ []) :
    (matchCount part 0 text = 1 ↔ ∃! position, OccursAt part text position) ↔ ¬ Tangled part text := by
  constructor
  · rintro hiff ⟨first, other, hlt, hfirst, hother, hall⟩
    obtain ⟨position, -, hunique⟩ := hiff.mp ((matchCount_eq_one hpart).mpr ⟨first, hfirst, hall⟩)
    have := hunique first hfirst
    have := hunique other hother
    omega
  · intro htangled
    rw [matchCount_eq_one hpart]
    constructor
    · rintro ⟨first, hfirst, hall⟩
      refine ⟨first, hfirst, fun other hother => ?_⟩
      by_contra hne
      have := (hall other hother).1
      exact htangled ⟨first, other, by omega, hfirst, hother, hall⟩
    · rintro ⟨position, hoccurs, hunique⟩
      have := List.length_pos_iff.mpr hpart
      refine ⟨position, hoccurs, fun other hother => ?_⟩
      have := hunique other hother
      omega

theorem replaceFirst_eq (hpart : part ≠ []) {position : Nat} (hoccurs : OccursAt part text position)
    (hfirst : ∀ other, OccursAt part text other → position ≤ other) :
    replaceFirst part replacement text =
      text.take position ++ (replacement ++ text.drop (position + part.length)) := by
  rcases matchCount_cases hpart replacement text with ⟨-, hnone⟩ | ⟨front, back, rfl, hfront, -, hreplaced⟩
  · exact absurd hoccurs (hnone position)
  · have hhere : OccursAt part (front ++ (part ++ back)) front.length :=
      (occursAt_append front 0).mpr (List.prefix_append part back)
    obtain rfl : position = front.length := Nat.le_antisymm (hfirst _ hhere) (hfront _ hoccurs)
    rw [hreplaced, List.take_left, ← List.drop_drop, List.drop_left, List.drop_left]

end Silo.Lib
