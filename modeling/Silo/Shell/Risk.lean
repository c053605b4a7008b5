import Silo.Lib.Utf8
import Silo.Shell.HostFs

namespace Silo.Shell

open Silo.Lib Silo.Workspace

def osBytes : OsStr → OsBytes
  | .text s => s.toUTF8.toList
  | .raw bytes => bytes

namespace HostFs

variable (fs : HostFs) (cwd : Location)

/-- `normalize_path` of the path with these components, the last one first. -/
def normalizeRev (root : Bool) : List PathComp → PathBuf
  | [] =>
    match fs.canonicalize cwd (PathBuf.bytes ⟨root, []⟩) with
    | some location => .ofLocation location
    | none => ⟨root, []⟩
  | comp :: rest =>
    match fs.canonicalize cwd (PathBuf.bytes ⟨root, (comp :: rest).reverse⟩) with
    | some location => .ofLocation location
    | none =>
      match comp with
      | .normal name => if root || !rest.isEmpty then (normalizeRev root rest).push name else ⟨root, [comp]⟩
      | _ => ⟨root, (comp :: rest).reverse⟩

/-- The nearest existing ancestor of the path, with the rest of it reattached. -/
def reattach (path : PathBuf) : PathBuf :=
  match path.comps.reverse with
  | .normal name :: rest =>
    if path.root || !rest.isEmpty then (fs.normalizeRev cwd path.root rest).push name else path
  | _ => path

def normalizePath (path : OsStr) : PathBuf :=
  match fs.canonicalize cwd (osBytes path) with
  | some location => .ofLocation location
  | none => fs.reattach cwd (.ofBytes (osBytes path))

variable {cwd} {cwd' : Location}

theorem normalizeRev_of_root (comps : List PathComp) :
    fs.normalizeRev cwd true comps = fs.normalizeRev cwd' true comps := by
  induction comps with
  | nil => rw [normalizeRev, normalizeRev, fs.canonicalize_of_absolute rfl cwd cwd']
  | cons comp rest ih =>
      have habsolute : isAbsolute (PathBuf.bytes ⟨true, (comp :: rest).reverse⟩) = true := rfl
      cases comp <;> simp only [normalizeRev, fs.canonicalize_of_absolute habsolute cwd cwd', ih]

theorem normalizePath_of_absolute {path : OsStr} (h : isAbsolute (osBytes path) = true) :
    fs.normalizePath cwd path = fs.normalizePath cwd' path := by
  have hroot : (PathBuf.ofBytes (osBytes path)).root = true := h
  rw [normalizePath, normalizePath, fs.canonicalize_of_absolute h cwd cwd', reattach, reattach, hroot]
  split
  · rfl
  · split
    · rw [fs.normalizeRev_of_root]
    · rfl

end HostFs

structure RiskHit where
  path : PathBuf
  reason : String
  deriving DecidableEq, Repr

def homeRelativeRisks : List (String × String) :=
  [(".ssh", "SSH private keys"), (".gnupg", "GPG private keys"), (".aws", "AWS credentials"),
    (".azure", "Azure credentials"), (".config/gcloud", "Google Cloud credentials"),
    (".kube", "Kubernetes credentials"), (".docker/config.json", "Docker registry credentials"),
    (".netrc", "netrc passwords"), (".npmrc", "npm tokens"), (".pypirc", "PyPI tokens"),
    (".cargo/credentials", "crates.io tokens"), (".cargo/credentials.toml", "crates.io tokens"),
    (".git-credentials", "git stored passwords"), (".password-store", "pass(1) password store"),
    (".gitconfig", "git config may embed credentials"), (".mozilla", "Firefox profile (cookies, passwords)"),
    (".thunderbird", "Thunderbird profile"), (".config/google-chrome", "Chrome profile (cookies, passwords)"),
    (".config/chromium", "Chromium profile (cookies, passwords)"),
    (".config/BraveSoftware", "Brave profile (cookies, passwords)"), ("Library/Keychains", "macOS keychains"),
    ("Library/Cookies", "macOS cookies"), ("Library/Safari", "Safari browsing data"),
    ("Library/Application Support/Google/Chrome", "Chrome profile (cookies, passwords)"),
    ("Library/Application Support/Firefox", "Firefox profile (cookies, passwords)"),
    ("Library/Application Support/BraveSoftware", "Brave profile (cookies, passwords)"),
    (".claude", "Claude Code credentials and state"), (".openai", "OpenAI credentials"),
    (".anthropic", "Anthropic credentials")]

structure Dirs where
  home : OsStr
  stateDir : OsStr

def knownRiskyPaths (dirs : Dirs) : List (OsBytes × String) :=
  (homeRelativeRisks.map fun risk => (join (osBytes dirs.home) risk.1.toUTF8.toList, risk.2)) ++
    [(osBytes dirs.stateDir, "llmdevsilo state (journals, frontend keys, harness credentials)")]

namespace HostFs

variable (fs : HostFs) (cwd : Location) (dirs : Dirs)

/-- The sensitive paths that exist and equal, contain or are contained in the entry. -/
def scanAllowlistEntry (entry : OsStr) : List RiskHit :=
  let entry := fs.normalizePath cwd entry
  (knownRiskyPaths dirs).filterMap fun risk =>
    match fs.canonicalize cwd risk.1 with
    | none => none
    | some location =>
      let risky := PathBuf.ofLocation location
      if risky.startsWith entry || entry.startsWith risky then some ⟨risky, risk.2⟩ else none

def scanAllowlist (entries : List OsStr) : List (OsStr × RiskHit) :=
  entries.flatMap fun entry => (fs.scanAllowlistEntry cwd dirs entry).map fun hit => (entry, hit)

end HostFs

/-- `Path::display`. -/
def display : OsStr → String
  | .text s => s
  | .raw bytes => String.ofList (Utf8.lossy bytes)

def displayPath (path : PathBuf) : String := String.ofList (Utf8.lossy path.bytes)

/-- The process that reads paths. -/
structure Process where
  cwd : Location

namespace Process

variable (fs : HostFs) (p : Process) (dirs : Dirs)

/-- `validate_read_allowlist`: the warnings, or why an entry is refused. -/
def validateReadAllowlist (entries allowRisky : List OsStr) : Except String (List String) :=
  let normalize := fs.normalizePath p.cwd
  let refused := (fs.scanAllowlist p.cwd dirs entries).filter fun e => normalize e.1 ∉ allowRisky.map normalize
  if refused.isEmpty then
    .ok ((allowRisky.filter fun path => normalize path ∉ entries.map normalize).map fun path =>
      "--allow-risky-path " ++ display path ++ " matches no read-allowlist entry; it has no effect")
  else
    .error ("refusing risky read allowlist entries: " ++ "; ".intercalate (refused.map fun e =>
      display e.1 ++ " exposes " ++ displayPath e.2.path ++ " (" ++ e.2.reason ++ ")"))

theorem validateReadAllowlist_ok {entries allowRisky : List OsStr} (h : entries ⊆ allowRisky) :
    ∃ warnings, p.validateReadAllowlist fs dirs entries allowRisky = .ok warnings := by
  have hrefused : (fs.scanAllowlist p.cwd dirs entries).filter (fun e =>
      fs.normalizePath p.cwd e.1 ∉ allowRisky.map (fs.normalizePath p.cwd)) = [] := by
    rw [List.filter_eq_nil_iff]
    intro e he
    obtain ⟨entry, hentry, he⟩ := List.mem_flatMap.mp he
    obtain ⟨hit, -, rfl⟩ := List.mem_map.mp he
    have hmem : fs.normalizePath p.cwd entry ∈ allowRisky.map (fs.normalizePath p.cwd) :=
      List.mem_map_of_mem (h hentry)
    simp [hmem]
  simp only [validateReadAllowlist, hrefused, List.isEmpty_nil, if_true]
  exact ⟨_, rfl⟩

end Process

end Silo.Shell
