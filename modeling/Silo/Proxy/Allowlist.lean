import Silo.Lib.Text

namespace Silo.Proxy

open Silo.Lib

/-- Lower-cases a host name and strips a single trailing dot. -/
def normalizeHost (host : String) : String :=
  let trimmed := if host.toList.getLast? = some '.' then host.toList.dropLast else host.toList
  String.ofList (trimmed.map Char.toLower)

inductive Entry
  | exact (name : String)
  | wildcard (suffix : String)
  deriving DecidableEq, Repr

def stripSuffix (text suffix : List Char) : Option (List Char) :=
  if suffix.isSuffixOf text then some (text.take (text.length - suffix.length)) else none

structure DomainAllowlist where
  entries : List Entry
  deriving DecidableEq, Repr

namespace DomainAllowlist

def entry (raw : String) : Entry :=
  match (normalizeHost raw).toList with
  | '*' :: '.' :: suffix => .wildcard (String.ofList suffix)
  | name => .exact (String.ofList name)

def new (domains : List String) : DomainAllowlist := ⟨domains.map entry⟩

/-- Whether `host` is allowed by any entry. -/
def allows (list : DomainAllowlist) (host : String) : Bool :=
  let host := normalizeHost host
  list.entries.any fun
    | .exact name => decide (name = host)
    | .wildcard suffix =>
      decide (host = suffix) ||
        (stripSuffix host.toList suffix.toList).any fun before => decide (before.getLast? = some '.')

end DomainAllowlist

def labels (name : String) : List (List Char) := name.toList.splitOn '.'

def Exactly (entry host : String) : Prop := ¬ ['*', '.'] <+: entry.toList ∧ entry = host

/-- The host is the suffix of a wildcard entry or a name below it, label by label. -/
def Below (suffix host : String) : Prop := host = suffix ∨ labels suffix <:+ labels host

theorem stripSuffix_eq_some {text suffix before : List Char} :
    stripSuffix text suffix = some before ↔ text = before ++ suffix := by
  rw [stripSuffix]
  split
  · rename_i h
    obtain ⟨front, rfl⟩ := List.isSuffixOf_iff_suffix.mp h
    have htake : (front ++ suffix).take ((front ++ suffix).length - suffix.length) = front := by simp
    rw [htake, Option.some.injEq, List.append_left_inj, eq_comm]
  · rename_i h
    simp only [reduceCtorEq, false_iff]
    rintro rfl
    exact h (List.isSuffixOf_iff_suffix.mpr (List.suffix_append _ _))

theorem getLast?_eq_dot {before : List Char} : before.getLast? = some '.' ↔ ∃ front, before = front ++ ['.'] := by
  rw [List.getLast?_eq_some_iff]

theorem below_iff {suffix host : String} :
    (decide (host = suffix) ||
      (stripSuffix host.toList suffix.toList).any fun before => decide (before.getLast? = some '.')) = true ↔
      Below suffix host := by
  have hlabels : labels suffix <:+ labels host ↔ host = suffix ∨ ∃ front, host.toList = front ++ '.' :: suffix.toList := by
    rw [labels, labels, splitOn_suffix_iff, String.toList_inj]
  have hstrip : (stripSuffix host.toList suffix.toList).any (fun before => decide (before.getLast? = some '.')) = true ↔
      ∃ front, host.toList = front ++ '.' :: suffix.toList := by
    rw [Option.any_eq_true]
    constructor
    · rintro ⟨before, hbefore, hdot⟩
      obtain ⟨front, rfl⟩ := getLast?_eq_dot.mp (of_decide_eq_true hdot)
      refine ⟨front, ?_⟩
      rw [stripSuffix_eq_some.mp hbefore, List.append_assoc, List.singleton_append]
    · rintro ⟨front, hfront⟩
      refine ⟨front ++ ['.'], ?_, decide_eq_true (getLast?_eq_dot.mpr ⟨front, rfl⟩)⟩
      rw [stripSuffix_eq_some, hfront, List.append_assoc, List.singleton_append]
  rw [Bool.or_eq_true, decide_eq_true_iff, hstrip, Below, hlabels]
  tauto

namespace DomainAllowlist

theorem entry_cases (raw : String) :
    (∃ suffix : String, (normalizeHost raw).toList = ['*', '.'] ++ suffix.toList ∧ entry raw = .wildcard suffix) ∨
      ¬ ['*', '.'] <+: (normalizeHost raw).toList ∧ entry raw = .exact (normalizeHost raw) := by
  rw [entry]
  split
  · rename_i suffix h
    exact .inl ⟨String.ofList suffix, by simp [h], rfl⟩
  · rename_i hno
    refine .inr ⟨?_, by simp⟩
    rintro ⟨suffix, hsuffix⟩
    exact hno suffix hsuffix.symm

/-- An allowlist goes by labels. -/
theorem allows_iff_labels (entries : List String) (host : String) :
    (new entries).allows host = true ↔
      ∃ raw ∈ entries, Exactly (normalizeHost raw) (normalizeHost host) ∨
        ∃ suffix : String, (normalizeHost raw).toList = ['*', '.'] ++ suffix.toList ∧
          Below suffix (normalizeHost host) := by
  simp only [allows, new, List.any_map, List.any_eq_true]
  refine exists_congr fun raw => and_congr_right fun _ => ?_
  obtain ⟨suffix, hsuffix, hentry⟩ | ⟨hplain, hentry⟩ := entry_cases raw
  · have hprefix : ['*', '.'] <+: (normalizeHost raw).toList := ⟨_, hsuffix.symm⟩
    have hone : ∀ other : String, (normalizeHost raw).toList = ['*', '.'] ++ other.toList ↔ other = suffix := by
      intro other
      rw [hsuffix, List.append_cancel_left_eq, String.toList_inj, eq_comm]
    simp only [Function.comp, hentry, below_iff, Exactly, hprefix, not_true_eq_false, false_and, false_or, hone,
      exists_eq_left]
  · have hnone : ∀ suffix : String, (normalizeHost raw).toList ≠ ['*', '.'] ++ suffix.toList :=
      fun suffix h => hplain ⟨_, h.symm⟩
    simp only [Function.comp, hentry, decide_eq_true_eq, Exactly, hplain, not_false_eq_true, true_and, hnone,
      false_and, exists_false, or_false]

/-- A wildcard whose suffix is empty goes by labels as well: it allows the empty name. -/
theorem allows_below_root :
    ¬ ∀ (entries : List String) (host : String), (new entries).allows host = true ↔
      ∃ raw ∈ entries, Exactly (normalizeHost raw) (normalizeHost host) ∨
        ∃ suffix : String, (normalizeHost raw).toList = ['*', '.'] ++ suffix.toList ∧ suffix ≠ "" ∧
          Below suffix (normalizeHost host) := by
  intro h
  have hallows : (new ["*.."]).allows "" = true := by decide
  obtain ⟨raw, hraw, hmatch⟩ := (h ["*.."] "").mp hallows
  obtain rfl := List.mem_singleton.mp hraw
  have hraw : (normalizeHost "*..").toList = ['*', '.'] := by decide
  rw [Exactly, hraw] at hmatch
  rcases hmatch with ⟨hplain, -⟩ | ⟨suffix, hsuffix, hne, -⟩
  · exact hplain (List.prefix_refl _)
  · have hnil : suffix.toList = [] := by simpa using hsuffix
    exact hne (String.toList_inj.mp (by rw [hnil]; rfl))

example : (new ["*.example.com"]).allows "a.example.com" = true ∧
    (new ["*.example.com"]).allows "evilexample.com" = false := by
  decide

end DomainAllowlist

end Silo.Proxy
