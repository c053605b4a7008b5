import Mathlib.Data.List.Nodup
import Silo.Lib.Occurrences

namespace Silo.Lib

/-- Replaces every part of a table by its character, from left to right in one pass; `skip`
characters of the last one are still ahead. -/
def replaceEach (table : List (List Char × Char)) (skip : Nat) : List Char → List Char
  | [] => []
  | c :: rest =>
    if 0 < skip then replaceEach table (skip - 1) rest
    else
      match table.find? fun entry => entry.1.isPrefixOf (c :: rest) with
      | some (part, d) => d :: replaceEach table (part.length - 1) rest
      | none => c :: replaceEach table 0 rest

def Marked (first last : Char) (part : List Char) : Prop :=
  ∃ inner, part = first :: (inner ++ [last]) ∧ first ∉ inner ++ [last] ∧ last ∉ inner

section Passes

variable {first last c d : Char} {part other text front rest replacement : List Char}
    {table : List (List Char × Char)} {n : Nat}

theorem Marked.eq_of_prefix (h : Marked first last part) (hother : Marked first last other) (hle : part <+: other) :
    part = other := by
  obtain ⟨inner, rfl, -, -⟩ := h
  obtain ⟨inner', rfl, -, hinner⟩ := hother
  rw [List.cons_prefix_cons, List.prefix_concat_iff] at hle
  rcases hle.2 with heq | hle
  · rw [heq]
  · exact absurd (hle.subset (by simp)) hinner

theorem Marked.unique (h : Marked first last part) (hother : Marked first last other) (hpart : part <+: text)
    (hbegins : other <+: text) : part = other := by
  rcases List.prefix_or_prefix_of_prefix hpart hbegins with hle | hle
  · exact h.eq_of_prefix hother hle
  · exact (hother.eq_of_prefix h hle).symm

theorem replaceEach_skip (table : List (List Char × Char)) (n : Nat) (text : List Char) :
    replaceEach table n text = replaceEach table 0 (text.drop n) := by
  induction text generalizing n with
  | nil => rw [List.drop_nil, replaceEach, replaceEach]
  | cons c rest ih =>
      cases n with
      | zero => rfl
      | succ n => rw [replaceEach, if_pos (Nat.succ_pos n), Nat.add_sub_cancel, ih, List.drop_succ_cons]

theorem replaceEach_match (hmem : (part, d) ∈ table) (hmarked : ∀ entry ∈ table, Marked first last entry.1)
    (hunique : ∀ e, (part, e) ∈ table → e = d) (rest : List Char) :
    replaceEach table 0 (part ++ rest) = d :: replaceEach table 0 rest := by
  obtain ⟨inner, hpart, -⟩ := hmarked _ hmem
  dsimp only at hpart
  have hfind : table.find? (fun entry => entry.1.isPrefixOf (part ++ rest)) = some (part, d) := by
    cases hfind : table.find? (fun entry => entry.1.isPrefixOf (part ++ rest)) with
    | none =>
        have hnone := List.find?_eq_none.mp hfind _ hmem
        exact absurd (List.isPrefixOf_iff_prefix.mpr (List.prefix_append part rest)) hnone
    | some entry =>
        obtain ⟨other, e⟩ := entry
        have hother : (other, e) ∈ table := List.mem_of_find?_eq_some hfind
        have hfound := List.find?_some hfind
        have hbegins : other <+: part ++ rest := List.isPrefixOf_iff_prefix.mp hfound
        obtain rfl : other = part :=
          (hmarked _ hother).unique (hmarked _ hmem) hbegins (List.prefix_append part rest)
        rw [hunique e hother]
  rw [hpart] at hfind ⊢
  rw [List.cons_append] at hfind ⊢
  rw [replaceEach, if_neg (Nat.lt_irrefl 0), hfind]
  dsimp only
  rw [replaceEach_skip, List.length_cons, Nat.add_sub_cancel, List.drop_left]

theorem replaceEach_other (h : ∀ entry ∈ table, ¬ entry.1 <+: c :: rest) :
    replaceEach table 0 (c :: rest) = c :: replaceEach table 0 rest := by
  have hfind : table.find? (fun entry => entry.1.isPrefixOf (c :: rest)) = none := by
    rw [List.find?_eq_none]
    exact fun entry hentry => mt List.isPrefixOf_iff_prefix.mp (h entry hentry)
  rw [replaceEach, if_neg (Nat.lt_irrefl 0), hfind]

theorem replaceEach_nil (text : List Char) : replaceEach [] 0 text = text := by
  induction text with
  | nil => rfl
  | cons c rest ih => rw [replaceEach_other (by simp), ih]

theorem replaceAll_append (h : Marked first last part) (hfront : first ∉ front) (replacement rest : List Char) :
    replaceAll part replacement 0 (front ++ rest) = front ++ replaceAll part replacement 0 rest := by
  obtain ⟨inner, rfl, -, -⟩ := h
  induction front with
  | nil => rfl
  | cons c front ih =>
      have hne : c ≠ first := fun heq => hfront (heq ▸ List.mem_cons_self)
      rw [List.cons_append, replaceAll_other, ih fun hmem => hfront (List.mem_cons_of_mem c hmem), List.cons_append]
      rw [List.cons_prefix_cons]
      exact fun hbegins => hne hbegins.1.symm

/-- What a text begins with when a part has been replaced, it began with before, as long as the
new character is not in it. -/
theorem prefix_of_replaceAll (hpart : part ≠ []) (hd : d ∉ front) (h : front <+: replaceAll part [d] 0 text) :
    front <+: text := by
  induction front generalizing text with
  | nil => exact List.nil_prefix
  | cons c front ih =>
      by_cases hbegins : part <+: text
      · obtain ⟨rest, rfl⟩ := hbegins
        rw [replaceAll_match hpart, List.singleton_append, List.cons_prefix_cons] at h
        exact absurd (h.1 ▸ List.mem_cons_self) hd
      · cases text with
        | nil => exact h
        | cons e rest =>
            rw [replaceAll_other hbegins, List.cons_prefix_cons] at h
            rw [List.cons_prefix_cons]
            exact ⟨h.1, ih (fun hmem => hd (List.mem_cons_of_mem c hmem)) h.2⟩

/-- A first replacement and one pass for the others are one pass for all, when the new character
is in none of the others. -/
theorem replaceEach_cons (hpart : Marked first last part) (hmarked : ∀ entry ∈ table, Marked first last entry.1)
    (hkeys : (((part, d) :: table).map Prod.fst).Nodup) (hd : ∀ entry ∈ table, d ∉ entry.1) (text : List Char) :
    replaceEach ((part, d) :: table) 0 text = replaceEach table 0 (replaceAll part [d] 0 text) := by
  have hne {other : List Char} (hother : Marked first last other) : other ≠ [] := by
    obtain ⟨inner, rfl, -⟩ := hother
    exact List.cons_ne_nil _ _
  have hall : ∀ entry ∈ (part, d) :: table, Marked first last entry.1 := List.forall_mem_cons.mpr ⟨hpart, hmarked⟩
  have hunique {other : List Char} {e e' : Char} {entries : List (List Char × Char)}
      (hkeys : (entries.map Prod.fst).Nodup) (he : (other, e) ∈ entries) (he' : (other, e') ∈ entries) : e' = e :=
    congrArg Prod.snd (List.inj_on_of_nodup_map hkeys he' he rfl)
  have hrest : (table.map Prod.fst).Nodup := (List.nodup_cons.mp hkeys).2
  induction hlength : text.length using Nat.strongRecOn generalizing text with
  | ind n ih =>
      by_cases hbegins : part <+: text
      · obtain ⟨rest, rfl⟩ := hbegins
        have hshort : rest.length < n := by
          have := List.length_pos_iff.mpr (hne hpart)
          rw [List.length_append] at hlength
          omega
        have hnew : ∀ entry ∈ table, ¬ entry.1 <+: d :: replaceAll part [d] 0 rest := by
          intro entry hentry hnew
          obtain ⟨e, tail, heq⟩ := List.exists_cons_of_ne_nil (hne (hmarked entry hentry))
          rw [heq, List.cons_prefix_cons] at hnew
          exact hd entry hentry (heq ▸ hnew.1 ▸ List.mem_cons_self)
        rw [replaceAll_match (hne hpart), List.singleton_append, replaceEach_other hnew,
          replaceEach_match List.mem_cons_self hall (fun e he => hunique hkeys List.mem_cons_self he),
          ih _ hshort rest rfl]
      by_cases hothers : ∃ entry ∈ table, entry.1 <+: text
      · obtain ⟨⟨other, e⟩, hentry, rest, rfl⟩ := hothers
        have hmark := hmarked _ hentry
        have hshort : rest.length < n := by
          have := List.length_pos_iff.mpr (hne hmark)
          rw [List.length_append] at hlength
          omega
        have hkept : replaceAll part [d] 0 (other ++ rest) = other ++ replaceAll part [d] 0 rest := by
          obtain ⟨inner, heq, hinner, -⟩ := hmark
          dsimp only at heq
          rw [heq, List.cons_append] at hbegins ⊢
          rw [replaceAll_other hbegins, replaceAll_append hpart hinner, List.cons_append]
        rw [hkept, replaceEach_match hentry hmarked (fun e' he => hunique hrest hentry he),
          replaceEach_match (List.mem_cons_of_mem _ hentry) hall
            (fun e' he => hunique hkeys (List.mem_cons_of_mem _ hentry) he), ih _ hshort rest rfl]
      · cases text with
        | nil => rfl
        | cons c rest =>
            have hnone : ∀ entry ∈ (part, d) :: table, ¬ entry.1 <+: c :: rest :=
              List.forall_mem_cons.mpr ⟨hbegins, fun entry hentry hother => hothers ⟨entry, hentry, hother⟩⟩
            have hstill : ∀ entry ∈ table, ¬ entry.1 <+: c :: replaceAll part [d] 0 rest := by
              intro entry hentry hother
              rw [← replaceAll_other hbegins] at hother
              exact hothers ⟨entry, hentry, prefix_of_replaceAll (hne hpart) (hd entry hentry) hother⟩
            rw [replaceAll_other hbegins, replaceEach_other hstill, replaceEach_other hnone,
              ih _ (by rw [← hlength]; exact Nat.lt_succ_self _) rest rfl]

end Passes

end Silo.Lib
