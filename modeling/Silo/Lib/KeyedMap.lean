import Mathlib.Data.List.Sort

namespace Silo.Lib

variable {α β κ : Type*} [LinearOrder κ]

/-- A map of values that know their keys, in the order of the keys. -/
structure KeyedMap (key : α → κ) where
  entries : List α
  sorted : entries.Pairwise fun a b => key a < key b

namespace KeyedMap

variable {key : α → κ}

/-- A list with the value in the place of its key. -/
def place (key : α → κ) (value : α) : List α → List α
  | [] => [value]
  | entry :: rest =>
    if key value < key entry then value :: entry :: rest
    else if key value = key entry then value :: rest
    else entry :: place key value rest

theorem mem_of_mem_place {value a : α} : ∀ {entries : List α}, a ∈ place key value entries → a = value ∨ a ∈ entries
  | [], h => .inl (List.mem_singleton.mp h)
  | entry :: rest, h => by
      rw [place] at h
      split at h
      · exact List.mem_cons.mp h
      · split at h
        · exact (List.mem_cons.mp h).imp_right (List.mem_cons_of_mem _)
        · obtain rfl | h := List.mem_cons.mp h
          · exact .inr List.mem_cons_self
          · exact (mem_of_mem_place h).imp_right (List.mem_cons_of_mem _)

theorem sorted_place (value : α) : ∀ {entries : List α}, (entries.Pairwise fun a b => key a < key b) →
    (place key value entries).Pairwise fun a b => key a < key b
  | [], _ => List.pairwise_singleton _ _
  | entry :: rest, h => by
      obtain ⟨hbelow, hrest⟩ := List.pairwise_cons.mp h
      rw [place]
      split
      · rename_i hlt
        apply List.Pairwise.cons _ h
        rw [List.forall_mem_cons]
        exact ⟨hlt, fun a ha => hlt.trans (hbelow a ha)⟩
      · rename_i hnot
        split
        · rename_i heq
          exact List.Pairwise.cons (fun a ha => heq ▸ hbelow a ha) hrest
        · rename_i hne
          apply List.Pairwise.cons _ (sorted_place value hrest)
          intro a ha
          obtain rfl | ha := mem_of_mem_place ha
          · exact lt_of_le_of_ne (not_lt.mp hnot) (Ne.symm hne)
          · exact hbelow a ha

def empty : KeyedMap key := ⟨[], List.Pairwise.nil⟩

variable (m : KeyedMap key)

def put (value : α) : KeyedMap key := ⟨place key value m.entries, sorted_place value m.sorted⟩

def containsKey (k : κ) : Bool := m.entries.any fun entry => key entry = k

def lastKey : Option κ := m.entries.getLast?.map key

def latest (signal : α → Option β) : Option (κ × β) :=
  m.entries.reverse.findSome? fun entry => (signal entry).map (key entry, ·)

variable {m} {value : α}

theorem containsKey_iff {k : κ} : m.containsKey k = true ↔ ∃ entry ∈ m.entries, key entry = k := by
  simp [containsKey]

theorem mem_place_of_new {a : α} : ∀ {entries : List α}, (∀ entry ∈ entries, key entry ≠ key value) →
    (a ∈ place key value entries ↔ a = value ∨ a ∈ entries)
  | [], _ => by simp [place]
  | entry :: rest, h => by
      obtain ⟨hentry, hrest⟩ := List.forall_mem_cons.mp h
      rw [place]
      split
      · exact List.mem_cons
      · rw [if_neg (Ne.symm hentry), List.mem_cons, mem_place_of_new hrest, List.mem_cons]
        tauto

theorem mem_put {a : α} (h : m.containsKey (key value) = false) :
    a ∈ (m.put value).entries ↔ a = value ∨ a ∈ m.entries := by
  apply mem_place_of_new
  intro entry hentry hkey
  rw [containsKey_iff.mpr ⟨entry, hentry, hkey⟩] at h
  cases h

theorem mem_place_iff {a : α} : ∀ {entries : List α}, (entries.Pairwise fun a b => key a < key b) →
    (a ∈ place key value entries ↔ a = value ∨ a ∈ entries ∧ key a ≠ key value)
  | [], _ => by simp [place]
  | entry :: rest, h => by
      obtain ⟨hbelow, hrest⟩ := List.pairwise_cons.mp h
      rw [place]
      split
      · rename_i hlt
        have hne : ∀ b ∈ entry :: rest, key b ≠ key value := by
          rw [List.forall_mem_cons]
          exact ⟨ne_of_gt hlt, fun b hb => ne_of_gt (hlt.trans (hbelow b hb))⟩
        rw [List.mem_cons]
        exact or_congr_right (iff_self_and.mpr (hne a))
      · rename_i hnot
        split
        · rename_i heq
          rw [List.mem_cons, List.mem_cons]
          constructor
          · rintro (rfl | ha)
            · exact .inl rfl
            · exact .inr ⟨.inr ha, heq ▸ ne_of_gt (hbelow a ha)⟩
          · rintro (rfl | ⟨rfl | ha, hne⟩)
            · exact .inl rfl
            · exact absurd heq.symm hne
            · exact .inr ha
        · rename_i hne
          rw [List.mem_cons, mem_place_iff hrest, List.mem_cons]
          constructor
          · rintro (rfl | rfl | ⟨ha, ha'⟩)
            · exact .inr ⟨.inl rfl, Ne.symm hne⟩
            · exact .inl rfl
            · exact .inr ⟨.inr ha, ha'⟩
          · rintro (rfl | ⟨rfl | ha, ha'⟩)
            · exact .inr (.inl rfl)
            · exact .inl rfl
            · exact .inr (.inr ⟨ha, ha'⟩)

theorem mem_put_iff {a : α} : a ∈ (m.put value).entries ↔ a = value ∨ a ∈ m.entries ∧ key a ≠ key value :=
  mem_place_iff m.sorted

theorem containsKey_put {k : κ} : (m.put value).containsKey k = (m.containsKey k || decide (key value = k)) := by
  rw [Bool.eq_iff_iff]
  simp only [containsKey_iff, mem_put_iff, Bool.or_eq_true, decide_eq_true_iff]
  constructor
  · rintro ⟨entry, rfl | ⟨hentry, -⟩, rfl⟩
    · exact .inr rfl
    · exact .inl ⟨entry, hentry, rfl⟩
  · intro hk
    by_cases hvalue : key value = k
    · exact ⟨value, .inl rfl, hvalue⟩
    · obtain ⟨entry, hentry, rfl⟩ := hk.resolve_right hvalue
      exact ⟨entry, .inr ⟨hentry, fun heq => hvalue heq.symm⟩, rfl⟩

theorem entries_eq {entries : List α} (hsorted : entries.Pairwise fun a b => key a < key b)
    (h : ∀ a, a ∈ m.entries ↔ a ∈ entries) : m.entries = entries := by
  have : Std.Irrefl fun a b : α => key a < key b := ⟨fun a => lt_irrefl (key a)⟩
  have : Std.Antisymm fun a b : α => key a < key b := ⟨fun a b hab hba => absurd (hab.trans hba) (lt_irrefl _)⟩
  exact List.Pairwise.eq_of_mem_iff m.sorted hsorted h

theorem le_lastKey {k : κ} (h : m.lastKey = some k) : ∀ entry ∈ m.entries, key entry ≤ k := by
  obtain ⟨last, hlast, rfl⟩ := Option.map_eq_some_iff.mp h
  obtain ⟨before, hbefore⟩ := List.getLast?_eq_some_iff.mp hlast
  have hsorted := m.sorted
  rw [hbefore] at hsorted ⊢
  intro entry hentry
  obtain hentry | hentry := List.mem_append.mp hentry
  · exact le_of_lt ((List.pairwise_append.mp hsorted).2.2 entry hentry last (List.mem_singleton_self _))
  · rw [List.mem_singleton.mp hentry]

theorem eq_of_key {a b : α} (ha : a ∈ m.entries) (hb : b ∈ m.entries) (h : key a = key b) : a = b := by
  have hnodup : (m.entries.map key).Nodup := List.pairwise_map.mpr (m.sorted.imp fun hlt => ne_of_lt hlt)
  exact List.inj_on_of_nodup_map hnodup ha hb h

section Latest

variable {signal : α → Option β} {k : κ} {b : β}

theorem latest_map_snd (signal : α → Option β) : (m.latest signal).map Prod.snd = m.entries.reverse.findSome? signal := by
  rw [latest, List.map_findSome?]
  congr 1
  funext entry
  simp

theorem latest_eq_none_iff : m.latest signal = none ↔ ∀ entry ∈ m.entries, signal entry = none := by
  simp [latest, List.findSome?_eq_none_iff]

theorem latest_eq_some_iff : m.latest signal = some (k, b) ↔
    ∃ entry ∈ m.entries, key entry = k ∧ signal entry = some b ∧
      ∀ other ∈ m.entries, (signal other).isSome = true → key other ≤ k := by
  have hforward {k : κ} {b : β} (h : m.latest signal = some (k, b)) :
      ∃ entry ∈ m.entries, key entry = k ∧ signal entry = some b ∧
        ∀ other ∈ m.entries, (signal other).isSome = true → key other ≤ k := by
    obtain ⟨after, entry, before, hsplit, hentry, hafter⟩ := List.findSome?_eq_some_iff.mp h
    rw [List.reverse_eq_iff, List.reverse_append, List.reverse_cons, List.append_assoc] at hsplit
    obtain ⟨b', hsignal, heq⟩ := Option.map_eq_some_iff.mp hentry
    cases heq
    have hsorted := m.sorted
    rw [hsplit] at hsorted ⊢
    refine ⟨entry, by simp, rfl, hsignal, ?_⟩
    intro other hother hsome
    simp only [List.mem_append, List.mem_reverse, List.mem_singleton] at hother
    obtain hbefore | rfl | hlate := hother
    · exact le_of_lt ((List.pairwise_append.mp hsorted).2.2 other (by simpa) entry (by simp))
    · exact le_refl _
    · rw [Option.map_eq_none_iff.mp (hafter other hlate)] at hsome
      cases hsome
  apply Iff.intro hforward
  rintro ⟨entry, hentry, rfl, hsignal, hlast⟩
  cases hlatest : m.latest signal with
  | none => simp [latest_eq_none_iff.mp hlatest entry hentry] at hsignal
  | some found =>
      obtain ⟨other, hother, hkey, hfound, hmax⟩ := hforward hlatest
      have hle : key other ≤ key entry := hlast other hother (by simp [hfound])
      have hge : key entry ≤ found.1 := hmax entry hentry (by simp [hsignal])
      obtain rfl := eq_of_key hother hentry (le_antisymm hle (hkey ▸ hge))
      rw [hsignal] at hfound
      cases hfound
      rw [hkey]

/-- A new value with a signal is the last of them when its key is larger than that of the last one. -/
theorem latest_put (h : m.containsKey (key value) = false) :
    (m.put value).latest signal =
      match signal value with
      | none => m.latest signal
      | some b =>
        if (m.latest signal).all fun found => found.1 < key value then some (key value, b) else m.latest signal := by
  -- the values that were there before, with what is the last of them
  have hold {k : κ} {b : β} (hlatest : m.latest signal = some (k, b)) (hnew : (signal value).isSome = true → key value ≤ k) :
      (m.put value).latest signal = some (k, b) := by
    obtain ⟨entry, hentry, hkey, hsignal, hlast⟩ := latest_eq_some_iff.mp hlatest
    apply latest_eq_some_iff.mpr
    refine ⟨entry, (mem_put h).mpr (.inr hentry), hkey, hsignal, ?_⟩
    intro other hother
    obtain rfl | hother := (mem_put h).mp hother
    · exact hnew
    · exact hlast other hother
  have hfirst {b : β} (hsignal : signal value = some b)
      (hbefore : ∀ other ∈ m.entries, (signal other).isSome = true → key other ≤ key value) :
      (m.put value).latest signal = some (key value, b) := by
    apply latest_eq_some_iff.mpr
    refine ⟨value, (mem_put h).mpr (.inl rfl), rfl, hsignal, ?_⟩
    intro other hother
    obtain rfl | hother := (mem_put h).mp hother
    · exact fun _ => le_refl _
    · exact hbefore other hother
  cases hsignal : signal value with
  | none =>
      cases hlatest : m.latest signal with
      | none =>
          apply latest_eq_none_iff.mpr
          intro other hother
          obtain rfl | hother := (mem_put h).mp hother
          · exact hsignal
          · exact latest_eq_none_iff.mp hlatest other hother
      | some found => exact hold hlatest (by simp [hsignal])
  | some b =>
      cases hlatest : m.latest signal with
      | none =>
          apply hfirst hsignal
          intro other hother hsome
          rw [latest_eq_none_iff.mp hlatest other hother] at hsome
          cases hsome
      | some found =>
          simp only [Option.all_some, decide_eq_true_eq]
          by_cases hlt : found.1 < key value
          · rw [if_pos hlt]
            apply hfirst hsignal
            obtain ⟨-, -, -, -, hlast⟩ := latest_eq_some_iff.mp hlatest
            exact fun other hother hsome => (hlast other hother hsome).trans (le_of_lt hlt)
          · rw [if_neg hlt]
            exact hold hlatest fun _ => not_lt.mp hlt

end Latest

end KeyedMap

end Silo.Lib
