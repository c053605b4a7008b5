import Silo.Lib.Lists
import Silo.Shell.Risk

namespace Silo.Shell

open Silo.Lib Silo.Workspace

inductive SandboxKind
  | mock
  | macosSandboxExec
  | macosLinuxVm
  | linuxGvisor
  | linuxMicrovm
  deriving DecidableEq, Repr

inductive SandboxOpt
  | auto
  | mock
  | sandboxExec
  | linuxVm
  | gvisor
  | microvm
  deriving DecidableEq, Repr

/-- `Sandbox::kind`, which the access report and the run file repeat. -/
def SandboxKind.name : SandboxKind → String
  | .mock => "mock"
  | .macosSandboxExec => "macos-sandbox-exec"
  | .macosLinuxVm => "macos-linux-vm"
  | .linuxGvisor => "linux-gvisor"
  | .linuxMicrovm => "linux-microvm"

def sandboxKindFromName : String → Option SandboxKind
  | "mock" => some .mock
  | "macos-sandbox-exec" => some .macosSandboxExec
  | "macos-linux-vm" => some .macosLinuxVm
  | "linux-gvisor" => some .linuxGvisor
  | "linux-microvm" => some .linuxMicrovm
  | _ => none

theorem sandboxKindFromName_name (kind : SandboxKind) : sandboxKindFromName kind.name = some kind := by
  cases kind <;> rfl

inductive Platform
  | macos
  | linux
  deriving DecidableEq, Repr

def resolveSandboxKind (platform : Platform) : SandboxOpt → SandboxKind
  | .auto => if platform = .macos then .macosSandboxExec else .linuxGvisor
  | .mock => .mock
  | .sandboxExec => .macosSandboxExec
  | .linuxVm => .macosLinuxVm
  | .gvisor => .linuxGvisor
  | .microvm => .linuxMicrovm

structure SandboxConfig where
  kind : SandboxKind
  readAllowlist : List OsStr
  allowedDomains : List String

def profilable (location : Location) : Bool :=
  (String.fromUTF8? ⟨(PathBuf.ofLocation location).bytes.toArray⟩).any fun text =>
    !text.contains '"' && !text.contains '\n'

/-- `create_sandbox` and `start` as far as the read allowlist goes: the locations that the
sandbox makes readable for it. The virtual machines are not implemented, and the mock
runs on a script and opens nothing. -/
def startSandbox (fs : HostFs) (platform : Platform) (cwd : Location) (script : Bool) (config : SandboxConfig) :
    Option (List Location) :=
  let resolved := config.readAllowlist.mapM fun entry => fs.canonicalize cwd (osBytes entry)
  match config.kind with
  | .mock => if script then some [] else none
  | .macosSandboxExec => if platform = .macos then resolved.filter fun r => r.all profilable else none
  | .linuxGvisor => if platform = .linux then resolved else none
  | .macosLinuxVm | .linuxMicrovm => none

structure RunInfo where
  pid : Nat
  sandboxKind : Option String
  readAllowlist : List String
  allowedDomains : List String

/-- A harness: the process and the settings that `run` works with. -/
structure HarnessRun where
  id : String
  pid : Nat
  process : Process
  dirs : Dirs
  config : SandboxConfig
  allowRiskyPaths : List OsStr
  script : Bool

namespace HarnessRun

variable (fs : HostFs) (platform : Platform) (h : HarnessRun)

/-- The locations its sandbox resolved, if the harness comes up. -/
def starts : Option (List Location) :=
  match h.process.validateReadAllowlist fs h.dirs h.config.readAllowlist h.allowRiskyPaths with
  | .error _ => none
  | .ok _ => startSandbox fs platform h.process.cwd h.script h.config

def runInfo : RunInfo :=
  ⟨h.pid, some h.config.kind.name, h.config.readAllowlist.map display, h.config.allowedDomains⟩

end HarnessRun

/-- What the shell finds of running harnesses: the harness that the workspace is attached
to, the run files and the live processes. -/
structure Host where
  attachedHarness : Option String
  runFile : String → Option RunInfo
  alive : Nat → Bool

def runningHarnessPolicy (host : Host) : Option (String × RunInfo) := do
  let harnessId ← host.attachedHarness
  let info ← host.runFile harnessId
  if !host.alive info.pid || info.sandboxKind.isNone then none else some (harnessId, info)

structure ShellArgs where
  allowRead : List OsStr
  allowDomain : List String
  sandbox : Option SandboxOpt
  allowRiskyPath : List OsStr

def ShellArgs.explicitFlags (args : ShellArgs) : Bool :=
  !args.allowRead.isEmpty || !args.allowDomain.isEmpty || args.sandbox.isSome

structure ShellPolicy where
  kind : SandboxKind
  readAllowlist : List OsStr
  allowedDomains : List String
  mirroredFrom : Option String

def fromFlags (platform : Platform) (args : ShellArgs) : ShellPolicy :=
  ⟨resolveSandboxKind platform (args.sandbox.getD .auto), args.allowRead, args.allowDomain, none⟩

def resolvePolicy (platform : Platform) (args : ShellArgs) (host : Host) : ShellPolicy :=
  match runningHarnessPolicy host with
  | none => fromFlags platform args
  | some (harnessId, info) =>
    if args.explicitFlags then fromFlags platform args
    else
      match sandboxKindFromName (info.sandboxKind.getD "") with
      | none => fromFlags platform args
      | some kind => ⟨kind, info.readAllowlist.map .text, info.allowedDomains, some harnessId⟩

structure ShellRun where
  process : Process
  dirs : Dirs
  args : ShellArgs

namespace ShellRun

variable (fs : HostFs) (platform : Platform) (shell : ShellRun) (policy : ShellPolicy)

/-- Mirrored entries are accepted with those of `--allow-risky-path`. -/
def acceptedRisky : List OsStr :=
  if policy.mirroredFrom.isSome then shell.args.allowRiskyPath ++ policy.readAllowlist
  else shell.args.allowRiskyPath

/-- The locations that `execute` makes readable for the policy, if the shell comes up. -/
def starts : Option (List Location) :=
  match shell.process.validateReadAllowlist fs shell.dirs policy.readAllowlist (shell.acceptedRisky policy) with
  | .error _ => none
  | .ok _ =>
    startSandbox fs platform shell.process.cwd false ⟨policy.kind, policy.readAllowlist, policy.allowedDomains⟩

end ShellRun

/-- The locations of a sandbox that came up for real are those of its entries. -/
theorem mapM_of_startSandbox {fs : HostFs} {platform : Platform} {cwd : Location} {script : Bool}
    {config : SandboxConfig} {resolved : List Location}
    (h : startSandbox fs platform cwd script config = some resolved) (hkind : config.kind ≠ .mock) :
    config.readAllowlist.mapM (fun entry => fs.canonicalize cwd (osBytes entry)) = some resolved := by
  rw [startSandbox.eq_def] at h
  split at h
  · exact absurd ‹_› hkind
  · split at h
    · exact (Option.filter_eq_some_iff.mp h).1
    · cases h
  · split at h
    · exact h
    · cases h
  · cases h
  · cases h

/-- A sandbox comes up wherever one of the same kind did, for entries whose locations are
among those of the other. -/
theorem startSandbox_of_subset {fs : HostFs} {platform : Platform} {cwd cwd' : Location} {script script' : Bool}
    {config config' : SandboxConfig} {resolved resolved' : List Location} (hkind : config.kind ≠ .mock)
    (h : startSandbox fs platform cwd script config = some resolved) (hsame : config'.kind = config.kind)
    (hmapM : config'.readAllowlist.mapM (fun entry => fs.canonicalize cwd' (osBytes entry)) = some resolved')
    (hsubset : resolved' ⊆ resolved) : startSandbox fs platform cwd' script' config' = some resolved' := by
  rw [startSandbox.eq_def] at h
  rw [startSandbox.eq_def, hsame, hmapM]
  split at h
  · exact absurd ‹_› hkind
  · split at h
    · next hplatform =>
        rw [if_pos hplatform]
        have hall := (Option.filter_eq_some_iff.mp h).2
        simp only [Option.filter_some, ite_eq_left_iff, reduceCtorEq, imp_false, not_not]
        rw [List.all_eq_true] at hall ⊢
        exact fun l hl => hall l (hsubset hl)
    · cases h
  · split at h
    · next hplatform => exact if_pos hplatform
    · cases h
  · cases h
  · cases h

variable {fs : HostFs} {platform : Platform} {h : HarnessRun} {shell : ShellRun} {host : Host}
  {resolved : List Location}

/-- The host shows the harness to the shell: attached, with its run file, and alive. -/
structure Host.Shows (host : Host) (h : HarnessRun) : Prop where
  attached : host.attachedHarness = some h.id
  runFile : host.runFile h.id = some h.runInfo
  alive : host.alive h.pid = true

def reread (entry : OsStr) : OsStr := .text (display entry)

/-- The shell has the harness's access under the policy. -/
structure SameAccess (fs : HostFs) (platform : Platform) (h : HarnessRun) (resolved : List Location)
    (shell : ShellRun) (policy : ShellPolicy) : Prop where
  kind : policy.kind = h.config.kind
  domains : policy.allowedDomains = h.config.allowedDomains
  locations : ∀ l, l ∈ (shell.starts fs platform policy).getD [] ↔ l ∈ resolved
  inherited : ∀ entry ∈ policy.readAllowlist,
    fs.scanAllowlistEntry shell.process.cwd shell.dirs entry ≠ [] →
    fs.normalizePath shell.process.cwd entry ∉ shell.args.allowRiskyPath.map (fs.normalizePath shell.process.cwd) →
    fs.normalizePath shell.process.cwd entry ∈ h.config.readAllowlist.map (fs.normalizePath h.process.cwd)

/-- The text of the entry means to the shell what the entry means to the harness: it is
Unicode, and absolute unless both work in one directory. -/
def portable (h : HarnessRun) (shell : ShellRun) : OsStr → Bool
  | .text s => isAbsolute s.toUTF8.toList || shell.process.cwd = h.process.cwd
  | .raw _ => false

/-- What has to be true of the other entries: the shell finds each where the harness found
some entry, finds some entry where the harness found it, and takes over no acceptance of a
location that the harness did not scan. -/
structure Covered (fs : HostFs) (h : HarnessRun) (resolved : List Location) (shell : ShellRun) : Prop where
  locations : h.config.kind ≠ .mock → ∀ entry ∈ h.config.readAllowlist, portable h shell entry = false →
    (∃ l ∈ resolved, fs.canonicalize shell.process.cwd (osBytes (reread entry)) = some l) ∧
      ∀ l, fs.canonicalize h.process.cwd (osBytes entry) = some l → ∃ other ∈ h.config.readAllowlist,
        fs.canonicalize shell.process.cwd (osBytes (reread other)) = some l
  inherited : ∀ entry ∈ h.config.readAllowlist, portable h shell entry = false →
    fs.scanAllowlistEntry shell.process.cwd shell.dirs (reread entry) ≠ [] →
    fs.normalizePath shell.process.cwd (reread entry) ∉
      shell.args.allowRiskyPath.map (fs.normalizePath shell.process.cwd) →
    fs.normalizePath shell.process.cwd (reread entry) ∈
      h.config.readAllowlist.map (fs.normalizePath h.process.cwd)

theorem resolvePolicy_mirrors (hshows : host.Shows h) (hflags : shell.args.explicitFlags = false) :
    resolvePolicy platform shell.args host =
      ⟨h.config.kind, h.config.readAllowlist.map reread, h.config.allowedDomains, some h.id⟩ := by
  have hrunning : runningHarnessPolicy host = some (h.id, h.runInfo) := by
    have hpid : h.runInfo.pid = h.pid := rfl
    have hsome : h.runInfo.sandboxKind = some h.config.kind.name := rfl
    simp [runningHarnessPolicy, hshows.attached, hshows.runFile, hpid, hshows.alive, hsome]
  have hname : sandboxKindFromName (h.runInfo.sandboxKind.getD "") = some h.config.kind :=
    sandboxKindFromName_name _
  simp only [resolvePolicy, hrunning, hflags, hname, Bool.false_eq_true, if_false]
  simp only [HarnessRun.runInfo, List.map_map]
  rfl

theorem canonicalize_of_portable {entry : OsStr} (hp : portable h shell entry = true) :
    fs.canonicalize shell.process.cwd (osBytes (reread entry)) =
      fs.canonicalize h.process.cwd (osBytes entry) := by
  cases entry with
  | raw bytes => cases hp
  | text s =>
      rw [portable, Bool.or_eq_true, decide_eq_true_eq] at hp
      obtain habsolute | hcwd := hp
      · exact fs.canonicalize_of_absolute habsolute _ _
      · rw [hcwd]
        rfl

theorem normalizePath_of_portable {entry : OsStr} (hp : portable h shell entry = true) :
    fs.normalizePath shell.process.cwd (reread entry) = fs.normalizePath h.process.cwd entry := by
  cases entry with
  | raw bytes => cases hp
  | text s =>
      rw [portable, Bool.or_eq_true, decide_eq_true_eq] at hp
      obtain habsolute | hcwd := hp
      · exact fs.normalizePath_of_absolute habsolute
      · rw [hcwd]
        rfl

theorem starts_of_mirrored {policy : ShellPolicy} (hm : policy.mirroredFrom.isSome = true) :
    shell.starts fs platform policy = startSandbox fs platform shell.process.cwd false
      ⟨policy.kind, policy.readAllowlist, policy.allowedDomains⟩ := by
  have hsubset : policy.readAllowlist ⊆ shell.acceptedRisky policy := by
    rw [ShellRun.acceptedRisky, if_pos hm]
    exact List.subset_append_right _ _
  obtain ⟨warnings, hok⟩ := shell.process.validateReadAllowlist_ok fs shell.dirs hsubset
  rw [ShellRun.starts, hok]

theorem mapM_reread (cwd : Location) :
    (h.config.readAllowlist.map reread).mapM (fun entry => fs.canonicalize cwd (osBytes entry)) =
      h.config.readAllowlist.mapM fun entry => fs.canonicalize cwd (osBytes (reread entry)) := by
  induction h.config.readAllowlist with
  | nil => rfl
  | cons entry entries ih => rw [List.map_cons, List.mapM_cons, List.mapM_cons, ih]

theorem sandbox_of_starts (hstarts : h.starts fs platform = some resolved) :
    startSandbox fs platform h.process.cwd h.script h.config = some resolved := by
  rw [HarnessRun.starts] at hstarts
  split at hstarts
  · cases hstarts
  · exact hstarts

def mirrored (h : HarnessRun) : ShellPolicy :=
  ⟨h.config.kind, h.config.readAllowlist.map reread, h.config.allowedDomains, some h.id⟩

theorem Covered.of_sameAccess (hstarts : h.starts fs platform = some resolved)
    (hsame : SameAccess fs platform h resolved shell (mirrored h)) : Covered fs h resolved shell where
  inherited entry hentry _ := hsame.inherited _ (List.mem_map_of_mem hentry)
  locations hkind entry hentry _ := by
    have hmem := mem_of_mapM (mapM_of_startSandbox (sandbox_of_starts hstarts) hkind)
    obtain ⟨l, hl⟩ := some_of_mapM (mapM_of_startSandbox (sandbox_of_starts hstarts) hkind) entry hentry
    have hshell := hsame.locations
    cases hcase : shell.starts fs platform (mirrored h) with
    | none =>
        -- The harness has a location, so the shell has one too.
        have := (hshell l).mpr ((hmem l).mpr ⟨entry, hentry, hl⟩)
        rw [hcase] at this
        cases this
    | some found =>
        rw [hcase, Option.getD_some] at hshell
        rw [starts_of_mirrored rfl] at hcase
        have hmapM := mapM_of_startSandbox hcase hkind
        rw [mirrored, mapM_reread] at hmapM
        obtain ⟨m, hm⟩ := some_of_mapM hmapM entry hentry
        refine ⟨⟨m, (hshell m).mp ((mem_of_mapM hmapM m).mpr ⟨entry, hentry, hm⟩), hm⟩, ?_⟩
        intro k hk
        exact (mem_of_mapM hmapM k).mp ((hshell k).mpr ((hmem k).mpr ⟨entry, hentry, hk⟩))

theorem Covered.locations_iff (hstarts : h.starts fs platform = some resolved)
    (hcovered : Covered fs h resolved shell) (l : Location) :
    l ∈ (shell.starts fs platform (mirrored h)).getD [] ↔ l ∈ resolved := by
  have hsandbox := sandbox_of_starts hstarts
  rw [starts_of_mirrored rfl]
  by_cases hkind : h.config.kind = .mock
  · have hresolved : resolved = [] := by
      simp only [startSandbox, hkind] at hsandbox
      split at hsandbox <;> cases hsandbox
      rfl
    have hnone : startSandbox fs platform shell.process.cwd false
        ⟨(mirrored h).kind, (mirrored h).readAllowlist, (mirrored h).allowedDomains⟩ = none := by
      simp [startSandbox, mirrored, hkind]
    rw [hnone, hresolved]
    rfl
  · have hharness := mapM_of_startSandbox hsandbox hkind
    have hmem := mem_of_mapM hharness
    have hwithin : ∀ entry ∈ h.config.readAllowlist,
        ∃ l ∈ resolved, fs.canonicalize shell.process.cwd (osBytes (reread entry)) = some l := by
      intro entry hentry
      cases hp : portable h shell entry with
      | false => exact (hcovered.locations hkind entry hentry hp).1
      | true =>
          obtain ⟨l, hl⟩ := some_of_mapM hharness entry hentry
          exact ⟨l, (hmem l).mpr ⟨entry, hentry, hl⟩, by rw [canonicalize_of_portable hp, hl]⟩
    obtain ⟨found, hfound⟩ := mapM_of_some fun entry hentry =>
      (hwithin entry hentry).imp fun _ hl => hl.2
    have hsubset : found ⊆ resolved := by
      intro l hl
      obtain ⟨entry, hentry, hloc⟩ := (mem_of_mapM hfound l).mp hl
      obtain ⟨m, hm, hloc'⟩ := hwithin entry hentry
      rw [hloc] at hloc'
      cases hloc'
      exact hm
    have hup : startSandbox fs platform shell.process.cwd false
        ⟨(mirrored h).kind, (mirrored h).readAllowlist, (mirrored h).allowedDomains⟩ = some found :=
      startSandbox_of_subset hkind hsandbox rfl ((mapM_reread shell.process.cwd).trans hfound) hsubset
    rw [hup, Option.getD_some]
    refine ⟨fun hl => hsubset hl, ?_⟩
    intro hl
    obtain ⟨entry, hentry, hloc⟩ := (hmem l).mp hl
    cases hp : portable h shell entry with
    | false => exact (mem_of_mapM hfound l).mpr ((hcovered.locations hkind entry hentry hp).2 l hloc)
    | true => exact (mem_of_mapM hfound l).mpr ⟨entry, hentry, by rw [canonicalize_of_portable hp, hloc]⟩

theorem Covered.sameAccess (hstarts : h.starts fs platform = some resolved)
    (hcovered : Covered fs h resolved shell) : SameAccess fs platform h resolved shell (mirrored h) where
  kind := rfl
  domains := rfl
  locations := hcovered.locations_iff hstarts
  inherited entry hentry hflagged hplain := by
    obtain ⟨original, horiginal, rfl⟩ := List.mem_map.mp hentry
    cases hp : portable h shell original with
    | false => exact hcovered.inherited original horiginal hp hflagged hplain
    | true =>
        rw [normalizePath_of_portable hp]
        exact List.mem_map_of_mem horiginal

/-- A shell that mirrors a running harness has the harness's access exactly if the entries
that are relative to another directory, or not Unicode, are covered. -/
theorem mirrored_access_iff (hstarts : h.starts fs platform = some resolved) (hshows : host.Shows h)
    (hflags : shell.args.explicitFlags = false) :
    SameAccess fs platform h resolved shell (resolvePolicy platform shell.args host) ↔
      Covered fs h resolved shell := by
  rw [resolvePolicy_mirrors hshows hflags]
  exact ⟨Covered.of_sameAccess hstarts, Covered.sameAccess hstarts⟩

def utf8 (s : String) : OsBytes := s.toUTF8.toList

def twoSshDirs : HostFs where
  node location :=
    if location ∈ [["home"], ["home", "u"], ["home", "u", ".ssh"], ["data"], ["data", ".ssh"]].map (List.map utf8)
    then some (.dir true) else none

def userDirs : Dirs := ⟨.text "/home/u", .text "/home/u/.llmdevsilo"⟩

/-- A harness that works in `/data` and may read the entry. -/
def dataHarness (entry : String) : HarnessRun :=
  ⟨"h1", 7, ⟨[utf8 "data"]⟩, userDirs, ⟨.linuxGvisor, [.text entry], ["crates.io"]⟩, [], false⟩

def homeShell : ShellRun := ⟨⟨[utf8 "home", utf8 "u"]⟩, userDirs, ⟨[], [], none, []⟩⟩

def hostOf (h : HarnessRun) : Host := ⟨some h.id, fun _ => some h.runInfo, fun _ => true⟩

theorem hostOf_shows (h : HarnessRun) : (hostOf h).Shows h := ⟨rfl, rfl, rfl⟩

theorem mirrored_access_iff_absolute_entry :
    ∃ resolved, (dataHarness "/data/.ssh").starts twoSshDirs .linux = some resolved ∧
      SameAccess twoSshDirs .linux (dataHarness "/data/.ssh") resolved homeShell
        (resolvePolicy .linux homeShell.args (hostOf (dataHarness "/data/.ssh"))) := by
  have hstarts : (dataHarness "/data/.ssh").starts twoSshDirs .linux = some [[utf8 "data", utf8 ".ssh"]] := by
    decide +kernel
  refine ⟨_, hstarts, (mirrored_access_iff hstarts (hostOf_shows _) rfl).mpr ?_⟩
  have hportable : ∀ entry ∈ (dataHarness "/data/.ssh").config.readAllowlist,
      portable (dataHarness "/data/.ssh") homeShell entry ≠ false := by decide +kernel
  constructor
  · intro _ entry hentry hp
    exact absurd hp (hportable entry hentry)
  · intro entry hentry hp
    exact absurd hp (hportable entry hentry)

/-- A relative entry that is harmless where the harness works names the user's keys where
the shell does, and is taken over as accepted. -/
theorem mirrored_relative_entry :
    ¬ ∀ fs platform h resolved shell host, HarnessRun.starts fs platform h = some resolved → Host.Shows host h →
      shell.args.explicitFlags = false →
      SameAccess fs platform h resolved shell (resolvePolicy platform shell.args host) := by
  intro hall
  have hsame := hall twoSshDirs .linux (dataHarness ".ssh") [[utf8 "data", utf8 ".ssh"]] homeShell
    (hostOf (dataHarness ".ssh")) (by decide +kernel) (hostOf_shows _) rfl
  have hkeys : [utf8 "home", utf8 "u", utf8 ".ssh"] ∈ [[utf8 "data", utf8 ".ssh"]] :=
    (hsame.locations _).mp (by decide +kernel)
  revert hkeys
  decide +kernel

end Silo.Shell
