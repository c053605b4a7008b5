import Mathlib.Algebra.GroupWithZero.Nat
import Silo.Workspace.World

namespace Silo.Workspace

open Silo.Lib

abbrev Host := Io FsOp WorkspaceError

def fs {α : Type} (o : FsOp (Except Errno α)) : Host α := Io.call .io o

/-- `run_tool`: a failed spawn or a non-zero exit is a setup error. -/
def runTool (program : String) (o : FsOp (Except Errno Unit)) : Host Unit :=
  Io.call (fun _ => .setup (program ++ " failed")) o

namespace Strategy

variable (cfg : Config)

def markerFileName : Name := ⟨.text "LOCKED_BY_LLMDEVSILO", by decide⟩

def markerContents : String :=
  "This directory is a locked llmdevsilo workspace.\n\nWhile locked, the contents are managed by the llmdevsilo harness and a\nsandboxed coding agent may be working on them. Do not create, edit, or\ndelete files here from outside the sandbox.\n\nTo stop the harness, restore the contents, and review a report of every\nchange, unlock the workspace:\n\n    silo workspace unlock <path-to-this-directory>\n"

def volumeMetadata : List Name :=
  [⟨.text ".fseventsd", by decide⟩, ⟨.text ".Spotlight-V100", by decide⟩,
    ⟨.text ".Trashes", by decide⟩, ⟨.text ".TemporaryItems", by decide⟩]

def lostAndFound : Name := ⟨.text "lost+found", by decide⟩

def ext4VolumeMetadata : List Name := [lostAndFound]

def canonDir : Loc := ⟨.canon, []⟩
def blobsDir (id : String) : Loc := ⟨.blobs id, []⟩
def dataDir (id : String) : Loc := ⟨.data id, []⟩
def mountpoint (id : String) : Loc := ⟨.mnt id, []⟩

/-- `fs::copy`: the target gets the source's mode before its bytes. -/
def copyFile (src dst : Loc) : Host Unit := do
  let (mode, bytes) ← fs (.openRead src)
  fs (.create dst mode)
  fs (.chmod dst mode)
  fs (.write dst bytes)

def writeFile (l : Loc) (bytes : Bytes) : Host Unit := do
  fs (.create l 0o666#12)
  fs (.write l bytes)

def removeDirAll : Nat → Loc → Host Unit
  | 0, _ => Io.fail (.io .tooDeep)
  | depth + 1, l => do
    let names ← fs (.readDir l)
    Io.forEach (fun n => do
      match ← fs (.lstat (l.child n)) with
      | .dir _ => removeDirAll depth (l.child n)
      | _ => fs (.unlink (l.child n))) names
    fs (.rmdir l)

def removeEntry (l : Loc) : Host Unit := do
  match ← fs (.lstat l) with
  | .dir _ => removeDirAll cfg.depth l
  | _ => fs (.unlink l)

def removeContents (dir : Loc) : Host Unit := do
  let names ← fs (.readDir dir)
  Io.forEach (fun n => removeEntry cfg (dir.child n)) names

def copyEntry : Nat → Loc → Loc → Host Unit
  | 0, _, _ => Io.fail (.io .tooDeep)
  | depth + 1, src, dst => do
    match ← fs (.lstat src) with
    | .symlink _ => do
      let target ← fs (.readLink src)
      fs (.symlink target dst)
    | .dir mode => do
      fs (.createDirAll dst)
      let names ← fs (.readDir src)
      Io.forEach (fun n => copyEntry depth (src.child n) (dst.child n)) names
      fs (.chmod dst mode)
    | .file _ _ => copyFile src dst

def copyContentsExcluding (src dst : Loc) (exclude : List Name) : Host Unit := do
  fs (.createDirAll dst)
  let names ← fs (.readDir src)
  Io.forEach (fun n =>
    if n ∈ exclude then pure () else copyEntry cfg.depth (src.child n) (dst.child n)) names

def copyContents (src dst : Loc) : Host Unit := copyContentsExcluding cfg src dst []

def moveEntry (src dst : Loc) : Host Unit := do
  match ← (fs (.rename src dst)).attempt with
  | .ok _ => pure ()
  | .error _ => do
    copyEntry cfg.depth src dst
    removeEntry cfg src

/-- Moves every entry of `src` into `dst`, renaming when both are on the same
file system and copying plus deleting otherwise. -/
def moveContents (src dst : Loc) : Host Unit := do
  fs (.createDirAll dst)
  let names ← fs (.readDir src)
  Io.forEach (fun n => moveEntry cfg (src.child n) (dst.child n)) names

def writeMarker (dir : Loc) : Host Unit :=
  writeFile (dir.child markerFileName) markerContents.toUTF8.toList

def removeMarker (dir : Loc) : Host Unit := (fs (.unlink (dir.child markerFileName))).ignore

def changeDirMode (dir : Loc) (f : Mode → Mode) : Host Unit := do
  match ← fs (.lstat dir) with
  | .dir mode | .file mode _ => fs (.chmod dir (f mode))
  | .symlink _ => Io.fail (.io .invalid)

def makeDirReadonly (dir : Loc) : Host Unit := changeDirMode dir fun m => m &&& ~~~(0o222#12)

def makeDirWritable (dir : Loc) : Host Unit := changeDirMode dir fun m => m ||| 0o200#12

def detachFailed : WorkspaceError :=
  .setup "cannot detach the workspace image (retried with -force)"

def unmountFailed : WorkspaceError :=
  .setup "cannot unmount the workspace image (retried with a lazy unmount)"

def notLinux : WorkspaceError := .setup "the ext4 image strategy requires Linux"

/-- Detaches the image. A failed detach is retried once with `-force`. -/
def detachImage (id : String) : Host Unit := do
  if ← Io.ask (.isMountpoint id) then
    match ← (runTool "hdiutil" (.unmount id)).attempt with
    | .ok _ => pure ()
    | .error _ => (runTool "hdiutil" (.unmount id)).mapErr fun _ => detachFailed
  else pure ()

/-- Runs `fusermount`, falling back to `fusermount3`. -/
def runFusermount (id : String) : Host Unit := do
  match ← (runTool "fusermount" (.unmount id)).attempt with
  | .ok _ => pure ()
  | .error _ => runTool "fusermount3" (.unmount id)

/-- Unmounts the FUSE mount. A failed unmount is retried lazily (`-z`). -/
def unmountFuse (id : String) : Host Unit := do
  if ← Io.ask (.isMountpoint id) then
    if cfg.linux then
      match ← (runFusermount id).attempt with
      | .ok _ => pure ()
      | .error _ => (runFusermount id).mapErr fun _ => unmountFailed
    else Io.fail notLinux
  else pure ()

def releaseMount (strategy : ContainerStrategy) (id : String) : Host Unit :=
  match strategy with
  | .plainDir => pure ()
  | .sparseBundle => detachImage id
  | .ext4Fuse => unmountFuse cfg id

def mountExt4Image (id : String) : Host Unit :=
  if cfg.linux then runTool "fuse2fs" (.mount .ext4Fuse id) else Io.fail notLinux

/-- Creates the sparse bundle, copies the workspace contents into it, and
removes the originals. -/
def lockIntoSparsebundle (source : Loc) (id : String) : Host Unit := do
  runTool "hdiutil create" (.hdiutilCreate id)
  fs (.createDirAll (mountpoint id))
  runTool "hdiutil attach" (.mount .sparseBundle id)
  let copyResult ← (copyContents cfg source (mountpoint id)).attempt
  let detachResult ← (runTool "hdiutil detach" (.unmount id)).attempt
  Io.ofExcept copyResult
  Io.ofExcept detachResult
  removeContents cfg source

def removeMountpoint (id : String) : Host Unit := do
  let mounted ← Io.ask (.isMountpoint id)
  Io.when (!mounted) (removeDirAll cfg.depth (mountpoint id)).ignore

def cleanupSparsebundle (id : String) : Host Unit := do
  (detachImage id).ignore
  (fs (.removePart id .sparsebundle)).ignore
  removeMountpoint cfg id

/-- Mounts the sparse bundle unless it is mounted, copies the contents back out,
and unmounts. -/
def restoreFromSparsebundle (id : String) (dest : Loc) : Host Unit := do
  fs (.createDirAll (mountpoint id))
  let mounted ← Io.ask (.isMountpoint id)
  Io.when (!mounted) (runTool "hdiutil attach" (.mount .sparseBundle id))
  let copyResult ← (copyContentsExcluding cfg (mountpoint id) dest volumeMetadata).attempt
  let detachResult ← (detachImage id).attempt
  Io.ofExcept copyResult
  Io.ofExcept detachResult

/-- Total size of the regular files under `dir`, saturating at `u64::MAX`. -/
def dirContentSize : Nat → Loc → Host Nat
  | 0, _ => Io.fail (.io .tooDeep)
  | depth + 1, dir => do
    let names ← fs (.readDir dir)
    Io.fold (fun total n => do
      match ← fs (.lstat (dir.child n)) with
      | .dir _ => do
        let below ← dirContentSize depth (dir.child n)
        pure (min (total + below) (2 ^ 64 - 1))
      | .file _ bytes => pure (min (total + bytes.length) (2 ^ 64 - 1))
      | .symlink _ => pure total) 0 names

/-- Twice the content size plus 256 MiB, at least 1 GiB, in whole 4 KiB blocks. -/
def ext4ImageSizeBytes (contentSize : Nat) : Nat :=
  let wanted := max (min (min (contentSize * 2) (2 ^ 64 - 1) + 256 * 1024 * 1024) (2 ^ 64 - 1))
    (1024 * 1024 * 1024)
  min ((wanted + 4095) / 4096 * 4096) (2 ^ 64 - 1)

def cleanupExt4Image (id : String) : Host Unit := do
  (unmountFuse cfg id).ignore
  (fs (.removePart id .img)).ignore
  removeMountpoint cfg id

/-- Creates and formats the raw image, mounts it, copies the workspace contents
in, unmounts, and removes the originals. -/
def lockIntoExt4Image (source : Loc) (id : String) : Host Unit :=
  if cfg.linux then do
    let contentSize ← dirContentSize cfg.depth source
    fs (.createImg id (ext4ImageSizeBytes contentSize))
    runTool "mkfs.ext4" (.mkfsExt4 id)
    fs (.createDirAll (mountpoint id))
    mountExt4Image cfg id
    (fs (.rmdir ((mountpoint id).child lostAndFound))).ignore
    let copyResult ← (copyContents cfg source (mountpoint id)).attempt
    let unmountResult ← (unmountFuse cfg id).attempt
    Io.ofExcept copyResult
    Io.ofExcept unmountResult
    removeContents cfg source
  else Io.fail notLinux

def restoreFromExt4Image (id : String) (dest : Loc) : Host Unit :=
  if cfg.linux then do
    fs (.createDirAll (mountpoint id))
    let mounted ← Io.ask (.isMountpoint id)
    Io.when (!mounted) (mountExt4Image cfg id)
    let copyResult ← (copyContentsExcluding cfg (mountpoint id) dest ext4VolumeMetadata).attempt
    let unmountResult ← (unmountFuse cfg id).attempt
    Io.ofExcept copyResult
    Io.ofExcept unmountResult
  else Io.fail notLinux

end Strategy

end Silo.Workspace
