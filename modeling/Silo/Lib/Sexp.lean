import Mathlib.Data.List.Basic

namespace Silo.Lib

inductive Sexp
  | atom (name : String)
  | text (content : String)
  | regex (content : String)
  | list (items : List Sexp)

namespace Sexp

inductive Mode
  | blank
  | comment
  | atom (name : List Char)
  | quoted (raw : Bool) (content : List Char)
  | escaped (raw : Bool) (content : List Char)

/-- `items` are those of the innermost open list so far, `outer` those of the lists around it. -/
structure Reader where
  mode : Mode
  items : List Sexp
  outer : List (List Sexp)

namespace Reader

def isSpace (c : Char) : Bool := c = ' ' || c = '\n' || c = '\t' || c = '\r'

def isDelimiter (c : Char) : Bool := isSpace c || c = '(' || c = ')' || c = '"' || c = ';'

def unescape (c : Char) : Char := if c = 'n' then '\n' else if c = 't' then '\t' else if c = 'r' then '\r' else c

def quote (raw : Bool) (content : List Char) : Sexp :=
  if raw then .regex (String.ofList content) else .text (String.ofList content)

def between (c : Char) (items : List Sexp) (outer : List (List Sexp)) : Option Reader :=
  if isSpace c then some ⟨.blank, items, outer⟩
  else if c = '(' then some ⟨.blank, [], items :: outer⟩
  else if c = ')' then
    match outer with
    | [] => none
    | around :: outer => some ⟨.blank, around ++ [.list items], outer⟩
  else if c = '"' then some ⟨.quoted false [], items, outer⟩
  else if c = ';' then some ⟨.comment, items, outer⟩
  else some ⟨.atom [c], items, outer⟩

/-- A string ends at a quote that no backslash precedes; a number sign before it makes it
a regular expression. -/
def step (r : Reader) (c : Char) : Option Reader :=
  match r.mode with
  | .blank => between c r.items r.outer
  | .comment => some { r with mode := if c = '\n' then .blank else .comment }
  | .atom name =>
    if name = ['#'] ∧ c = '"' then some { r with mode := .quoted true [] }
    else if isDelimiter c then between c (r.items ++ [.atom (String.ofList name)]) r.outer
    else some { r with mode := .atom (name ++ [c]) }
  | .quoted raw content =>
    if c = '"' then some ⟨.blank, r.items ++ [quote raw content], r.outer⟩
    else if c = '\\' then some { r with mode := .escaped raw content }
    else some { r with mode := .quoted raw (content ++ [c]) }
  | .escaped raw content => some { r with mode := .quoted raw (content ++ [unescape c]) }

def run : Reader → List Char → Option Reader
  | r, [] => some r
  | r, c :: rest => (r.step c).bind fun r => run r rest

def finish (r : Reader) : Option (List Sexp) :=
  match r.outer, r.mode with
  | [], .blank => some r.items
  | [], .comment => some r.items
  | [], .atom name => some (r.items ++ [.atom (String.ofList name)])
  | _, _ => none

end Reader

open Reader

/-- The expressions of a text, or none when it is not a sequence of expressions. -/
def read (text : List Char) : Option (List Sexp) := (run ⟨.blank, [], []⟩ text).bind finish

theorem run_append (r : Reader) (a b : List Char) : run r (a ++ b) = (run r a).bind fun r => run r b := by
  induction a generalizing r with
  | nil => rfl
  | cons c a ih =>
      simp only [List.cons_append, run, Option.bind_assoc]
      congr 1
      funext r
      exact ih r

theorem run_concat {r r' r'' : Reader} {s t : String} (hs : run r s.toList = some r')
    (ht : run r' t.toList = some r'') : run r (s ++ t).toList = some r'' := by
  rw [String.toList_append, run_append, hs, Option.bind_some, ht]

def Reads (text : List Char) (items : List Sexp) : Prop :=
  ∀ before outer, run ⟨.blank, before, outer⟩ text = some ⟨.blank, before ++ items, outer⟩

def Opens (text : List Char) (items : List Sexp) : Prop :=
  ∀ before outer, run ⟨.blank, before, outer⟩ text = some ⟨.blank, items, before :: outer⟩

def Closes (text : List Char) : Prop :=
  ∀ items before outer, run ⟨.blank, items, before :: outer⟩ text = some ⟨.blank, before ++ [.list items], outer⟩

variable {a b : List Char} {items more : List Sexp}

theorem Reads.nil : Reads [] [] := by
  intro before outer
  rw [run, List.append_nil]

theorem Reads.append (ha : Reads a items) (hb : Reads b more) : Reads (a ++ b) (items ++ more) := by
  intro before outer
  rw [run_append, ha, Option.bind_some, hb, List.append_assoc]

theorem Reads.flatMap {α : Type} {xs : List α} {f : α → List Char} {g : α → Sexp}
    (h : ∀ x ∈ xs, Reads (f x) [g x]) : Reads (xs.flatMap f) (xs.map g) := by
  induction xs with
  | nil => exact .nil
  | cons x xs ih =>
      rw [List.flatMap_cons, List.map_cons]
      have hrest : Reads (xs.flatMap f) (xs.map g) := ih fun y hy => h y (by simp [hy])
      exact (h x (by simp)).append hrest

/-- A text written as a literal is read without computing its characters. -/
theorem run_literal {s : String} (hs : s = String.ofList a) (r : Reader) : run r s.toList = run r a := by
  rw [hs, String.toList_ofList]

theorem Reads.literal {s : String} (hs : s = String.ofList a) (ha : Reads a items) : Reads s.toList items := by
  rwa [hs, String.toList_ofList]

theorem Opens.literal {s : String} (hs : s = String.ofList a) (ha : Opens a items) : Opens s.toList items := by
  rwa [hs, String.toList_ofList]

theorem Closes.literal {s : String} (hs : s = String.ofList a) (ha : Closes a) : Closes s.toList := by
  rwa [hs, String.toList_ofList]

theorem Opens.append (ha : Opens a items) (hb : Reads b more) : Opens (a ++ b) (items ++ more) := by
  intro before outer
  rw [run_append, ha, Option.bind_some, hb]

theorem Opens.close (ha : Opens a items) (hb : Closes b) : Reads (a ++ b) [.list items] := by
  intro before outer
  rw [run_append, ha, Option.bind_some, hb]

theorem Reads.read (h : Reads a items) : Sexp.read a = some items := by
  rw [Sexp.read, h]
  rfl

def escape (content : List Char) : List Char := content.flatMap fun c => if c = '\\' then ['\\', '\\'] else [c]

theorem run_escape {content : List Char} (h : '"' ∉ content) (read : List Char) (before : List Sexp)
    (outer : List (List Sexp)) :
    run ⟨.quoted false read, before, outer⟩ (escape content) = some ⟨.quoted false (read ++ content), before, outer⟩ := by
  induction content generalizing read with
  | nil => simp [escape, run]
  | cons c content ih =>
      obtain ⟨hc, hcontent⟩ := not_or.mp (mt List.mem_cons.mpr h)
      have hnext := ih hcontent (read ++ [c])
      rw [List.append_assoc, List.singleton_append] at hnext
      rw [escape, List.flatMap_cons, run_append, ← hnext]
      by_cases hslash : c = '\\'
      · subst hslash
        rfl
      · simp [run, step, hslash, Ne.symm hc, escape]

theorem Reads.quoted {content : List Char} (h : '"' ∉ content) :
    Reads ('"' :: escape content ++ ['"']) [.text (String.ofList content)] := by
  intro before outer
  rw [run_append]
  have hopen : run ⟨.blank, before, outer⟩ ('"' :: escape content) = some ⟨.quoted false content, before, outer⟩ :=
    run_escape h [] before outer
  rw [hopen]
  rfl

theorem escape_injective {content content' : List Char} (h : escape content = escape content')
    (hcontent : '"' ∉ content) (hcontent' : '"' ∉ content') : content = content' := by
  have hread := run_escape hcontent [] [] []
  rw [h, run_escape hcontent'] at hread
  simpa using hread.symm

end Sexp

end Silo.Lib
