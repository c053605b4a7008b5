import Silo.Workspace.Strategy

namespace Silo.Workspace

open Silo.Lib

inductive Guard
  | workspace (strategy : ContainerStrategy) (token : String)
  | shared (strategy : ContainerStrategy) (pid : Nat) (token : String)
  deriving DecidableEq, Repr

def Guard.token : Guard → String
  | workspace _ token | shared _ _ token => token

def Guard.strategy : Guard → ContainerStrategy
  | workspace strategy _ | shared strategy _ _ => strategy

def Guard.clear : Guard → RegistryEntry → RegistryEntry
  | .workspace _ token, entry => entry.clearAttached token
  | .shared _ pid token, entry => entry.removeSecondary pid token

structure AttachedWorkspace where
  mountPath : Place
  detachGuard : Guard
  deriving DecidableEq, Repr

structure WorkspaceStatus where
  locked : Bool
  attachedHarness : Option String
  liveShells : Nat
  warnings : List String
  deriving DecidableEq, Repr

def pathToString : OsStr → Except WorkspaceError String
  | .text s => .ok s
  | .raw _ => .error (.setup "path is not valid UTF-8")

namespace Manager

variable (cfg : Config)

def acquireLock : Host Unit := .op .acquireLock .done
def load : Host (Option RegistryEntry) := .op .load .done
def save (entry : Option RegistryEntry) : Host Unit := .op (.save entry) .done

/-- Resolves the mount path for an entry, mounting the image when the strategy
uses one and it is not already mounted. -/
def mountForEntry (entry : RegistryEntry) : Host Place :=
  match entry.strategy with
  | .plainDir => do
    if ← Io.ask (.isDir (Strategy.dataDir entry.id)) then pure (.data entry.id)
    else Io.fail (.damaged "workspace data directory is missing")
  | .sparseBundle => do
    fs (.createDirAll (Strategy.mountpoint entry.id))
    if ← Io.ask (.isMountpoint entry.id) then pure (.mnt entry.id)
    else do
      runTool "hdiutil attach" (.mount .sparseBundle entry.id)
      pure (.mnt entry.id)
  | .ext4Fuse => do
    fs (.createDirAll (Strategy.mountpoint entry.id))
    if ← Io.ask (.isMountpoint entry.id) then pure (.mnt entry.id)
    else do
      Strategy.mountExt4Image cfg entry.id
      pure (.mnt entry.id)

/-- The checks `attach` and `attach_shared` begin with: the entry of a locked
workspace no unlock has begun on, without its dead attachments. -/
def attachable (key : String) : Host RegistryEntry := do
  acquireLock
  match ← load with
  | none => Io.fail (.notLocked key)
  | some entry =>
    if !entry.locked then Io.fail (.notLocked key)
    else if entry.unlocking then
      Io.fail (.setup s!"an unlock of workspace {key} is in progress; re-run `silo workspace unlock` to finish it")
    else do
      let alive ← Io.ask .liveness
      pure (entry.pruneDeadAttachments alive).1

/-- Attaches a locked workspace for a harness run by the process `self`. -/
def attach (self : Process) (harnessId : String) : Host AttachedWorkspace := do
  let key ← Io.ofExcept (pathToString cfg.path)
  Io.locked do
    let entry ← attachable key
    match entry.attached with
    | some attachment =>
      Io.fail (.setup s!"workspace {key} is already attached to harness {attachment.harnessId} (pid {attachment.process.pid})")
    | none => do
      let mountPath ← mountForEntry cfg entry
      let token ← Io.ask .shortId
      save (some { entry with attached := some ⟨harnessId, self, token⟩ })
      pure ⟨mountPath, .workspace entry.strategy token⟩

/-- Attaches a locked workspace for an inspection process, sharing the mount with
any attached harness. -/
def attachShared (self : Process) : Host AttachedWorkspace := do
  let key ← Io.ofExcept (pathToString cfg.path)
  Io.locked do
    let entry ← attachable key
    let mountPath ← mountForEntry cfg entry
    let token ← Io.ask .shortId
    save (some { entry with
      secondaryAttachments := entry.secondaryAttachments ++ [⟨"shell", self, token⟩] })
    pure ⟨mountPath, .shared entry.strategy self.pid token⟩

/-- One attempt of `detach_workspace` or `detach_shared_workspace`: the
registration goes and, when no live attachment remains, the mount with it. -/
def detach (guard : Guard) : Host Unit :=
  Io.locked do
    acquireLock
    match ← load with
    | none => pure ()
    | some entry => do
      let entry := guard.clear entry
      let alive ← Io.ask .liveness
      let release := guard.strategy.usesImage && !entry.hasLiveAttachments alive
      save (some entry)
      Io.when release (Strategy.releaseMount cfg guard.strategy entry.id)

def detachAttempts : Nat := 3

def status : Host WorkspaceStatus := do
  let _ ← Io.ofExcept (pathToString cfg.path)
  Io.locked do
    acquireLock
    match ← load with
    | none => pure ⟨false, none, 0, []⟩
    | some entry => do
      let alive ← Io.ask .liveness
      let (entry, pruned) := entry.pruneDeadAttachments alive
      Io.when pruned (save (some entry))
      pure ⟨entry.locked, entry.attached.map (·.harnessId), entry.secondaryAttachments.length,
        entry.strategy.warning :: entry.warnings⟩

/-- Step 1 of `unlock`: the entry is read and marked, so that no new attachment
can appear. -/
def beginUnlock (key : String) : Host RegistryEntry :=
  Io.locked do
    acquireLock
    match ← load with
    | none => Io.fail (.notLocked key)
    | some entry => do
      save (some { entry with unlocking := true })
      pure { entry with unlocking := true }

end Manager

end Silo.Workspace
