import Silo.Lib.ShellWords

namespace Silo.Clients

open Silo.Lib

inductive LlmBackendChoice
  | anthropic
  | openai
  | openaiWs
  | «local»
  deriving DecidableEq, Repr

def LlmBackendChoice.cliName : LlmBackendChoice → List Char
  | .anthropic => "anthropic".toList
  | .openai => "openai".toList
  | .openaiWs => "openai-ws".toList
  | .local => "local".toList

inductive SandboxChoice
  | auto
  | mock
  deriving DecidableEq, Repr

def SandboxChoice.cliName : SandboxChoice → List Char
  | .auto => "auto".toList
  | .mock => "mock".toList

/-- `quotaUsd` is a double by its bits. -/
structure LocalHarnessOptions where
  workspaceDir : List Char
  siloBinary : List Char
  createWorkspace : Bool := true
  backend : LlmBackendChoice := .anthropic
  model : List Char := []
  apiKeyEnv : List Char := []
  sandbox : SandboxChoice := .auto
  allowedDomains : List (List Char) := []
  readAllowlist : List (List Char) := []
  quotaUsd : Option UInt64 := none
  deriving DecidableEq, Repr

namespace LocalHarnessOptions

section Command

variable (doubleText : UInt64 → List Char) (options : LocalHarnessOptions)

/-- The arguments of `silo`; `doubleText` is `double.toString`. -/
def buildRunArgs : List (List Char) :=
  ["run".toList, "--workspace".toList, options.workspaceDir] ++
  (if options.createWorkspace then ["--create".toList] else []) ++
  ["--llm".toList, options.backend.cliName] ++
  (if !options.model.isEmpty then ["--model".toList, options.model] else []) ++
  (if !options.apiKeyEnv.isEmpty then ["--api-key-env".toList, options.apiKeyEnv] else []) ++
  ["--sandbox".toList, options.sandbox.cliName] ++
  (options.allowedDomains.flatMap fun domain => ["--allow-domain".toList, domain]) ++
  (options.readAllowlist.flatMap fun path => ["--allow-read".toList, path]) ++
  match options.quotaUsd with
  | some quota => ["--quota-usd".toList, doubleText quota]
  | none => []

/-- The characters of `_shellSafe`. -/
def isShellSafe (c : Char) : Bool :=
  ('A' ≤ c && c ≤ 'Z') || ('a' ≤ c && c ≤ 'z') || ('0' ≤ c && c ≤ '9') || "_-./:=@%+,".toList.contains c

def shellQuote (value : List Char) : List Char :=
  if value.isEmpty then "''".toList
  else if value.all isShellSafe then value
  else '\'' :: (replaceAll ['\''] "'\\''".toList 0 value ++ ['\''])

def runCommandLine : List Char :=
  [' '].intercalate ((options.siloBinary :: options.buildRunArgs doubleText).map shellQuote)

end Command

theorem isOrdinary_of_isShellSafe {c : Char} (h : isShellSafe c = true) : Shell.isOrdinary c = true := by
  have hspecial : (Shell.special.all fun d => !isShellSafe d) = true := by decide
  have hblank : ([' ', '\t', '\'', '\\'].all fun d => !isShellSafe d) = true := by decide
  have hnot {chars : List Char} (hchars : (chars.all fun d => !isShellSafe d) = true) : chars.contains c = false := by
    rw [List.contains_eq_mem, decide_eq_false_iff_not]
    intro hmem
    have := List.all_eq_true.mp hchars c hmem
    rw [h] at this
    cases this
  rw [Shell.isOrdinary, Shell.isSpecial, hnot hspecial, hnot hblank]
  rfl

theorem quotes_shellQuote (value : List Char) : Shell.Quotes (shellQuote value) value := by
  rw [shellQuote]
  split
  case isTrue hempty =>
    rw [List.isEmpty_iff.mp hempty]
    exact fun done => rfl
  case isFalse hne =>
    split
    case isTrue hsafe =>
      apply Shell.quotes_ordinary
      · exact fun hnil => hne (List.isEmpty_iff.mpr hnil)
      · exact fun c hc => isOrdinary_of_isShellSafe (List.all_eq_true.mp hsafe c hc)
    case isFalse => exact Shell.quotes_spliced value

theorem forall₂_shellQuote (args : List (List Char)) : List.Forall₂ Shell.Quotes (args.map shellQuote) args := by
  induction args with
  | nil => exact .nil
  | cons arg args ih => exact .cons (quotes_shellQuote arg) ih

/-- A shell reads the line that is shown as the command that is run. -/
theorem split_runCommandLine (doubleText : UInt64 → List Char) (options : LocalHarnessOptions) :
    Shell.split (options.runCommandLine doubleText) =
      some (options.siloBinary :: options.buildRunArgs doubleText) :=
  Shell.split_intercalate (forall₂_shellQuote _) (List.cons_ne_nil _ _)

example : shellQuote "it's here".toList = "'it'\\''s here'".toList := by decide

end LocalHarnessOptions

end Silo.Clients
