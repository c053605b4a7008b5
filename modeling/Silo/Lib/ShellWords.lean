import Silo.Lib.Occurrences

namespace Silo.Lib.Shell

inductive Mode
  | plain
  | quoted
  | escaped
  deriving DecidableEq, Repr

structure Splitter where
  done : List (List Char)
  word : Option (List Char)
  mode : Mode
  deriving DecidableEq, Repr

/-- What ends a command, or begins or ends an operator, a comment, an expansion or a double-quoted
part, where it is not quoted. -/
def special : List Char := "\n|&;<>()$`\"*?[]#~\x7b\x7d!^".toList

def isSpecial (c : Char) : Bool := special.contains c

def isOrdinary (c : Char) : Bool := !isSpecial c && !([' ', '\t', '\'', '\\'].contains c)

namespace Splitter

variable (s : Splitter)

def add (c : Char) : Splitter := { s with word := some (s.word.getD [] ++ [c]) }

/-- The quoting rules of a POSIX shell; none where a character is special. -/
def step (c : Char) : Option Splitter :=
  match s.mode with
  | .plain =>
    if c = ' ' ∨ c = '\t' then some { s with done := s.done ++ s.word.toList, word := none }
    else if c = '\'' then some { s with word := some (s.word.getD []), mode := .quoted }
    else if c = '\\' then some { s with mode := .escaped }
    else if isSpecial c then none
    else some (s.add c)
  | .quoted => if c = '\'' then some { s with mode := .plain } else some (s.add c)
  | .escaped => if c = '\n' then some { s with mode := .plain } else some { s.add c with mode := .plain }

def finish : Option (List (List Char)) := if s.mode = .plain then some (s.done ++ s.word.toList) else none

end Splitter

/-- A command line as words; none when it is more than words. -/
def split (line : List Char) : Option (List (List Char)) :=
  (line.foldlM Splitter.step ⟨[], none, .plain⟩).bind Splitter.finish

def Quotes (text word : List Char) : Prop :=
  ∀ done, text.foldlM Splitter.step ⟨done, none, .plain⟩ = some ⟨done, some word, .plain⟩

variable {text word : List Char} {done : List (List Char)}

theorem step_ordinary {c : Char} (h : isOrdinary c = true) (word : Option (List Char)) :
    Splitter.step ⟨done, word, .plain⟩ c = some ⟨done, some (word.getD [] ++ [c]), .plain⟩ := by
  simp only [isOrdinary, Bool.and_eq_true, Bool.not_eq_true', List.contains_eq_mem, decide_eq_false_iff_not,
    List.mem_cons, List.not_mem_nil, or_false, not_or] at h
  obtain ⟨hspecial, hspace, htab, hquote, hescape⟩ := h
  rw [Splitter.step]
  dsimp only
  rw [if_neg (not_or.mpr ⟨hspace, htab⟩), if_neg hquote, if_neg hescape, hspecial, if_neg Bool.false_ne_true]
  rfl

theorem foldlM_ordinary (h : ∀ c ∈ text, isOrdinary c = true) (word : List Char) :
    text.foldlM Splitter.step ⟨done, some word, .plain⟩ = some ⟨done, some (word ++ text), .plain⟩ := by
  induction text generalizing word with
  | nil => rw [List.append_nil]; rfl
  | cons c text ih =>
      rw [List.foldlM_cons, step_ordinary (h c List.mem_cons_self), Option.bind_eq_bind, Option.bind_some,
        ih fun d hd => h d (List.mem_cons_of_mem c hd), Option.getD_some, List.append_assoc, List.singleton_append]

theorem quotes_ordinary (hne : text ≠ []) (h : ∀ c ∈ text, isOrdinary c = true) : Quotes text text := by
  intro done
  obtain ⟨c, text, rfl⟩ := List.exists_cons_of_ne_nil hne
  rw [List.foldlM_cons, step_ordinary (h c List.mem_cons_self), Option.bind_eq_bind, Option.bind_some,
    foldlM_ordinary fun d hd => h d (List.mem_cons_of_mem c hd)]
  rfl

theorem foldlM_spliced (word text : List Char) :
    (replaceAll ['\''] "'\\''".toList 0 text).foldlM Splitter.step ⟨done, some word, .quoted⟩ =
      some ⟨done, some (word ++ text), .quoted⟩ := by
  induction text generalizing word with
  | nil => rw [List.append_nil]; rfl
  | cons c text ih =>
      by_cases hc : c = '\''
      · have hmatch : replaceAll ['\''] "'\\''".toList 0 (c :: text) =
            "'\\''".toList ++ replaceAll ['\''] "'\\''".toList 0 text := by
          rw [hc]
          exact replaceAll_match (List.cons_ne_nil '\'' []) text
        have hquote : "'\\''".toList.foldlM Splitter.step ⟨done, some word, .quoted⟩ =
            some ⟨done, some (word ++ ['\'']), .quoted⟩ := rfl
        rw [hmatch, List.foldlM_append, hquote, Option.bind_eq_bind, Option.bind_some, ih, hc, List.append_assoc,
          List.singleton_append]
      · have hstep : Splitter.step ⟨done, some word, .quoted⟩ c = some ⟨done, some (word ++ [c]), .quoted⟩ := by
          rw [Splitter.step]
          exact if_neg hc
        have hother : ¬ ['\''] <+: c :: text := by
          rw [List.cons_prefix_cons]
          exact fun h => hc h.1.symm
        rw [replaceAll_other hother, List.foldlM_cons, hstep, Option.bind_eq_bind, Option.bind_some, ih,
          List.append_assoc, List.singleton_append]

theorem quotes_spliced (word : List Char) :
    Quotes ('\'' :: (replaceAll ['\''] "'\\''".toList 0 word ++ ['\''])) word := by
  intro done
  have hopen : Splitter.step ⟨done, none, .plain⟩ '\'' = some ⟨done, some [], .quoted⟩ := rfl
  rw [List.foldlM_cons, hopen, Option.bind_eq_bind, Option.bind_some, List.foldlM_append, foldlM_spliced]
  rfl

theorem finish_intercalate {texts words : List (List Char)} (h : List.Forall₂ Quotes texts words)
    (hword : Quotes text word) (done : List (List Char)) :
    (([' '].intercalate (text :: texts)).foldlM Splitter.step ⟨done, none, .plain⟩).bind Splitter.finish =
      some (done ++ word :: words) := by
  induction h generalizing text word done with
  | nil =>
      rw [List.intercalate_singleton, hword, Option.bind_some]
      rfl
  | @cons next word' texts words hnext _ ih =>
      have hblank : Splitter.step ⟨done, some word, .plain⟩ ' ' = some ⟨done ++ [word], none, .plain⟩ := rfl
      rw [List.intercalate_cons_cons, List.append_assoc, List.foldlM_append, hword, Option.bind_eq_bind,
        Option.bind_some, List.singleton_append, List.foldlM_cons, hblank, Option.bind_eq_bind, Option.bind_some, ih hnext,
        List.append_assoc, List.singleton_append]

theorem split_intercalate {texts words : List (List Char)} (h : List.Forall₂ Quotes texts words) (hne : words ≠ []) :
    split ([' '].intercalate texts) = some words := by
  cases h with
  | nil => exact absurd rfl hne
  | cons hword hwords => exact finish_intercalate hwords hword []

end Silo.Lib.Shell
