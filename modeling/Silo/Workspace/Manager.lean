import Mathlib.Data.List.Infix
import Silo.Workspace.Diff

namespace Silo.Workspace.Autoexec

inductive Pattern
  | underDir (dirs : List String)
  | name (name : String)
  | pathSuffix (names : List String)
  | nameSuffix (ending : String)
  deriving DecidableEq, Repr

def Pattern.matches (segments : List String) : Pattern → Bool
  | underDir dirs => dirs <:+: segments.dropLast
  | name n => segments.getLast? = some n
  | pathSuffix names => names.isSuffixOf segments
  | nameSuffix ending => segments.getLast?.any fun n => ending.toList.isSuffixOf n.toList

def rules : List (Pattern × String) :=
  [(.underDir [".git", "hooks"],
      "git hook: git runs these scripts on commit, checkout, merge, push, and other operations"),
    (.pathSuffix [".git", "config"],
      "git repository configuration: core.hooksPath, core.fsmonitor, and filter drivers name programs git executes"),
    (.name ".gitattributes",
      "git attributes: filter and diff driver assignments make git run the bound driver commands on checkout, diff, and other operations"),
    (.name ".gitmodules",
      "git submodules: URL and path changes control what git fetches and checks out on submodule update"),
    (.name ".envrc",
      "direnv configuration: the shell executes .envrc when entering the directory"),
    (.underDir [".direnv"],
      "direnv state: contents are loaded by direnv when entering the directory"),
    (.underDir [".vscode"],
      "VS Code workspace configuration: tasks.json, settings.json, and launch.json can run commands when the folder is opened"),
    (.underDir [".idea"],
      "JetBrains IDE configuration: run configurations and tool settings can run commands when the project is opened"),
    (.name "package.json",
      "npm manifest: lifecycle scripts such as postinstall run on package installation"),
    (.underDir [".husky"],
      "husky git hook: git runs these scripts on commit and other operations"),
    (.name ".pre-commit-config.yaml",
      "pre-commit configuration: defines hooks that run on git commit"),
    (.name "build.rs",
      "cargo build script: compiled and run by cargo build"),
    (.pathSuffix [".cargo", "config.toml"],
      "cargo configuration: runner and rustc-wrapper settings redirect build and run commands"),
    (.pathSuffix [".cargo", "config"],
      "cargo configuration: runner and rustc-wrapper settings redirect build and run commands"),
    (.nameSuffix ".code-workspace",
      "VS Code workspace file: embedded settings and tasks can run commands when opened")]

/-- The reason when the relative path is a known auto-exec surface. The first
matching rule wins. -/
def matchPath (relPath : String) : Option String :=
  let segments := ((relPath.toList.splitOn '/').map String.ofList).filter (· ≠ "")
  if segments = [] then none
  else (rules.find? fun (pattern, _) => pattern.matches segments).map (·.2)

end Silo.Workspace.Autoexec

namespace Silo.Workspace

open Silo.Lib

structure AutoExecFlag where
  path : String
  reason : String
  deriving DecidableEq, Repr

structure UnlockReport where
  changes : List FileChange
  autoExecFlags : List AutoExecFlag
  deriving DecidableEq, Repr

namespace Manager

open Strategy

variable (cfg : Config)

def removeWorkspaceDir (id : String) : Host Unit := do
  let parts ← fs (.listContainer id)
  Io.forEach (fun
    | .blobs => removeDirAll cfg.depth (blobsDir id)
    | .data => removeDirAll cfg.depth (dataDir id)
    | .mnt => removeDirAll cfg.depth (mountpoint id)
    | part => fs (.removePart id part)) parts

def undoPartialLock (id : String) : Host Unit := do
  (makeDirWritable canonDir).ignore
  removeMarker canonDir
  let data ← Io.ask (.isDir (dataDir id))
  Io.when data (moveContents cfg (dataDir id) canonDir).ignore
  let bundle ← Io.ask (.hasPart id .sparsebundle)
  Io.when bundle do
    (restoreFromSparsebundle cfg id canonDir).ignore
    (detachImage id).ignore
  let image ← Io.ask (.hasPart id .img)
  Io.when image do
    (restoreFromExt4Image cfg id canonDir).ignore
    (unmountFuse cfg id).ignore
  let mounted ← Io.ask (.isMountpoint id)
  Io.when (!mounted) (removeWorkspaceDir cfg id).ignore

/-- The first section of `lock`: the key is reserved, so that a concurrent lock
of the same path fails. -/
def reserve (key id : String) : Host Unit :=
  Io.locked do
    acquireLock
    let reg ← load
    if reg.any (·.locked) then Io.fail (.locked key)
    else save (some ⟨id, true, false, cfg.strategy, none, [], []⟩)

/-- An image strategy that falls back to the plain directory. -/
def lockIntoImage (id : String) (into cleanup : Host Unit) (strategy : ContainerStrategy)
    (warning : String) (extraWarnings : List String) :
    Host (ContainerStrategy × List String) := do
  match ← into.attempt with
  | .ok _ => pure (strategy, extraWarnings)
  | .error _ => do
    cleanup
    moveContents cfg canonDir (dataDir id)
    pure (.plainDir, extraWarnings ++ [warning])

def containContents (id : String) (extraWarnings : List String) :
    Host (ContainerStrategy × List String) :=
  match cfg.strategy with
  | .plainDir => do
    moveContents cfg canonDir (dataDir id)
    pure (.plainDir, extraWarnings)
  | .sparseBundle =>
    lockIntoImage cfg id (lockIntoSparsebundle cfg canonDir id) (cleanupSparsebundle cfg id)
      .sparseBundle "hdiutil failed; using the plain-directory strategy instead" extraWarnings
  | .ext4Fuse =>
    lockIntoImage cfg id (lockIntoExt4Image cfg canonDir id) (cleanupExt4Image cfg id)
      .ext4Fuse "ext4 image setup failed; using the plain-directory strategy instead" extraWarnings

/-- The part of `lock` outside the registry lock: snapshot, container, marker. -/
def slowWork (id : String) : Host (ContainerStrategy × List String) := do
  let tree ← Snapshot.snapshot cfg canonDir (blobsDir id)
  Snapshot.writeManifest id tree
  let result ← containContents cfg id cfg.strategyHint.toList
  writeMarker canonDir
  makeDirReadonly canonDir
  pure result

def unreserve (id : String) : Host Unit :=
  Io.locked do
    acquireLock
    let reg ← load
    Io.when (reg.any fun entry => entry.id = id) (save none)

/-- The last section of `lock`: the reserved entry must still be ours. -/
def commit (key id : String) (strategy : ContainerStrategy) (extraWarnings : List String) :
    Host Unit :=
  Io.locked do
    acquireLock
    match ← load with
    | some entry =>
      if entry.id = id then
        save (some { entry with strategy := strategy, warnings := extraWarnings })
      else do
        undoPartialLock cfg id
        Io.fail (.setup s!"the registry entry for {key} changed while locking; the lock was rolled back")
    | none => do
      undoPartialLock cfg id
      Io.fail (.setup s!"the registry entry for {key} changed while locking; the lock was rolled back")

def lock : Host WorkspaceStatus := do
  fs (.createDirAll canonDir)
  if cfg.nested then
    Io.fail (.setup "workspace cannot contain or live inside the harness state directory")
  else do
    let key ← Io.ofExcept (pathToString cfg.path)
    let id ← Io.ask .shortId
    reserve cfg key id
    match ← (slowWork cfg id).attempt with
    | .error error => do
      undoPartialLock cfg id
      (unreserve id).ignore
      Io.fail error
    | .ok (strategy, extraWarnings) => do
      commit cfg key id strategy extraWarnings
      pure ⟨true, none, 0, strategy.warning :: extraWarnings⟩

def isProtected (self : Process) (pid : Nat) : Bool := pid = 0 || pid = 1 || pid = self.pid

def unlockStepError (step : String) : WorkspaceError :=
  .setup s!"unlock step '{step}' failed; the workspace is unchanged for this step — re-run unlock to resume"

def terminateAttachments (self : Process) (entry : RegistryEntry) : Host Unit := do
  let targets := entry.attached.toList.map (·.process) ++ entry.secondaryAttachments.map (·.process)
  Io.forEach (fun p => Io.when (!isProtected self p.pid) (Io.ask (.terminate p))) targets
  let alive ← Io.ask .liveness
  Io.when (targets.any fun p => !isProtected self p.pid && alive p)
    (Io.fail (unlockStepError "terminating attachments"))

/-- Step 4: the contents go back into the original directory. A missing data
directory counts as moved back by an earlier attempt. -/
def restore (entry : RegistryEntry) : Host Unit := do
  fs (.createDirAll canonDir)
  (makeDirWritable canonDir).mapErr fun _ => unlockStepError "restoring directory access"
  removeMarker canonDir
  match entry.strategy with
  | .plainDir => do
    let data ← Io.ask (.isDir (dataDir entry.id))
    Io.when data ((moveContents cfg (dataDir entry.id) canonDir).mapErr fun _ =>
      unlockStepError "restoring the workspace contents")
  | .sparseBundle => (restoreFromSparsebundle cfg entry.id canonDir).mapErr fun _ =>
      unlockStepError "restoring the workspace contents"
  | .ext4Fuse => (restoreFromExt4Image cfg entry.id canonDir).mapErr fun _ =>
      unlockStepError "restoring the workspace contents"

def report (id : String) : Host UnlockReport := do
  let lockedTree ← Snapshot.loadManifest id
  let currentTree ← Snapshot.walkTree cfg canonDir
  let changes ← Diff.diffTrees cfg lockedTree currentTree (blobsDir id) canonDir
  pure ⟨changes, changes.filterMap fun change =>
    (Autoexec.matchPath change.path).map fun reason => ⟨change.path, reason⟩⟩

/-- Unlocks a workspace: terminates attached processes, restores plain-directory
access, and reports all changes since locking. -/
def unlock (self : Process) : Host UnlockReport := do
  let key ← Io.ofExcept (pathToString cfg.path)
  let entry ← beginUnlock key
  terminateAttachments self entry
  (releaseMount cfg entry.strategy entry.id).mapErr fun _ =>
    unlockStepError "detaching the workspace image"
  restore cfg entry
  let result ← report cfg entry.id
  (releaseMount cfg entry.strategy entry.id).mapErr fun _ =>
    unlockStepError "detaching the workspace image"
  unreserve entry.id
  let mounted ← Io.ask (.isMountpoint entry.id)
  Io.when (!mounted) (removeWorkspaceDir cfg entry.id).ignore
  pure result

end Manager

end Silo.Workspace
