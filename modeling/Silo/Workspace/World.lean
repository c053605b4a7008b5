import Silo.Lib.Prog
import Silo.Workspace.FileTree
import Silo.Workspace.RegistryLock

namespace Silo.Workspace

inductive ContainerStrategy
  | plainDir
  | sparseBundle
  | ext4Fuse
  deriving DecidableEq, Repr

namespace ContainerStrategy

def warning : ContainerStrategy → String
  | plainDir => "workspace contents moved under the harness state directory; they are protected by file permissions only"
  | sparseBundle => "the workspace image is mounted host-visible while a harness is attached"
  | ext4Fuse => "the workspace image is mounted host-visible while a harness is attached; the image size is fixed at lock time and does not grow"

def usesImage : ContainerStrategy → Bool
  | plainDir => false
  | sparseBundle | ext4Fuse => true

end ContainerStrategy

/-- A process as an attachment record names it: its pid and start-time hint. -/
abbrev Process := RegistryLock.LockHolder

structure Attachment where
  harnessId : String
  process : Process
  token : String
  deriving DecidableEq, Repr

structure SecondaryAttachment where
  purpose : String
  process : Process
  token : String
  deriving DecidableEq, Repr

/-- One locked workspace. -/
structure RegistryEntry where
  id : String
  locked : Bool
  unlocking : Bool
  strategy : ContainerStrategy
  attached : Option Attachment
  secondaryAttachments : List SecondaryAttachment
  warnings : List String
  deriving DecidableEq, Repr

namespace RegistryEntry

variable (alive : Process → Bool)

/-- Drops attachment records whose process is dead. The flag tells whether
anything was removed. -/
def pruneDeadAttachments (entry : RegistryEntry) : RegistryEntry × Bool :=
  let attached := entry.attached.filter fun a => alive a.process
  let secondary := entry.secondaryAttachments.filter fun a => alive a.process
  ({ entry with attached := attached, secondaryAttachments := secondary },
    (entry.attached.isSome && attached.isNone) ||
      secondary.length != entry.secondaryAttachments.length)

def liveSecondaryCount (entry : RegistryEntry) : Nat :=
  (entry.secondaryAttachments.filter fun a => alive a.process).length

def hasLiveAttachments (entry : RegistryEntry) : Bool :=
  entry.attached.any (fun a => alive a.process) || 0 < entry.liveSecondaryCount alive

/-- `detach_workspace`'s change of the entry: the primary attachment goes if it
carries the guard's token. -/
def clearAttached (entry : RegistryEntry) (token : String) : RegistryEntry :=
  if entry.attached.any (fun a => a.token = token) then { entry with attached := none } else entry

/-- `detach_shared_workspace`'s: the first registration of the same pid and
token goes. -/
def removeSecondary (entry : RegistryEntry) (pid : Nat) (token : String) : RegistryEntry :=
  { entry with
    secondaryAttachments :=
      entry.secondaryAttachments.eraseP fun a => a.process.pid = pid && a.token = token }

end RegistryEntry

inductive WorkspaceError
  | locked (key : String)
  | notLocked (key : String)
  | setup (message : String)
  | damaged (message : String)
  | io (error : Errno)
  deriving DecidableEq, Repr

open Silo.Lib

inductive EntryKind
  | file
  | symlink
  | dir
  deriving DecidableEq, Repr

/-- A permission mode as a manifest records it, a `u32`. -/
abbrev RecordedMode := BitVec 32

/-- One manifest record as serialized in `manifest.json`. -/
structure ManifestEntry where
  path : String
  kind : EntryKind
  sha256 : Option String
  size : Option Nat
  symlinkTarget : Option String
  mode : Option RecordedMode
  deriving DecidableEq, Repr

/-- What the image commands do to the file system inside an image: the root of a
new volume, and the root as mounting it shows it. -/
structure Volumes where
  format : ContainerStrategy → FileTree
  mount : ContainerStrategy → FileTree → FileTree

abbrev Digest := { s : String // s ≠ "" ∧ '/' ∉ s.toList }

theorem digest_empty : "e3b0c44298fc1c149afbf4c8996fb92427ae41e4649b934ca495991b7852b855" ≠ "" ∧
    '/' ∉ "e3b0c44298fc1c149afbf4c8996fb92427ae41e4649b934ca495991b7852b855".toList := by decide

theorem umask_usual : (0o022#12 : Mode) &&& 0o700#12 = 0#12 := by decide

/-- A workspace manager and the host it runs on. `depth` bounds how deep
directories nest; `ids`, `sha256`, `lossy` and `unified` stand for the UUID
generator, the hash, the decoding of text and the line diff. -/
structure Config where
  path : OsStr
  nested : Bool
  strategy : ContainerStrategy
  strategyHint : Option String
  linux : Bool
  sameFs : Bool
  depth : Nat
  umask : Mode
  umask_owner : umask &&& 0o700#12 = 0#12
  volumes : Volumes
  ids : Nat → String
  sha256 : Bytes → Digest
  lossy : Bytes → String
  unified : String → String → String

/-- The children of a workspace's directory `workspaces/<id>`. -/
inductive Part
  | blobs
  | manifest
  | data
  | mnt
  | sparsebundle
  | img
  deriving DecidableEq, Repr

/-- A workspace's directory. An absent child is an empty tree or `none`; a new
image file has no file system in it. `mounted` is the image mounted at `mnt`. -/
structure Container where
  blobs : FileTree := []
  manifest : Option (List ManifestEntry) := none
  data : FileTree := []
  mnt : FileTree := []
  sparsebundle : Option FileTree := none
  img : Option (Option FileTree) := none
  mounted : Option ContainerStrategy := none
  deriving DecidableEq, Repr

namespace Container

def volume (c : Container) : ContainerStrategy → Option FileTree
  | .plainDir => none
  | .sparseBundle => c.sparsebundle
  | .ext4Fuse => c.img.join

def setVolume (c : Container) (t : FileTree) : ContainerStrategy → Container
  | .plainDir => c
  | .sparseBundle => { c with sparsebundle := some t }
  | .ext4Fuse => { c with img := some (some t) }

/-- Below a live mountpoint stand the contents of the image. -/
def mntTree (c : Container) : FileTree :=
  match c.mounted with
  | none => c.mnt
  | some s => (c.volume s).getD []

def setMntTree (c : Container) (t : FileTree) : Container :=
  match c.mounted with
  | none => { c with mnt := t }
  | some s => c.setVolume t s

def parts (c : Container) : List Part :=
  (if c.blobs = [] then [] else [Part.blobs]) ++ (if c.manifest.isNone then [] else [Part.manifest]) ++
    (if c.data = [] then [] else [Part.data]) ++ (if c.mnt = [] then [] else [Part.mnt]) ++
    (if c.sparsebundle.isNone then [] else [Part.sparsebundle]) ++
    (if c.img.isNone then [] else [Part.img])

end Container

/-- The host: the workspace directory, the directories under `workspaces/`, the
registry's entry for the workspace, the processes and the ids handed out. -/
structure World where
  canon : FileTree
  containers : String → Container
  registry : Option RegistryEntry
  alive : Process → Bool
  drawn : Nat

inductive Place
  | canon
  | blobs (id : String)
  | data (id : String)
  | mnt (id : String)
  deriving DecidableEq, Repr

structure Loc where
  place : Place
  path : Path
  deriving DecidableEq, Repr

def Loc.child (l : Loc) (n : Name) : Loc := { l with path := n :: l.path }

namespace World

def setContainer (w : World) (id : String) (c : Container) : World :=
  { w with containers := Function.update w.containers id c }

def tree (w : World) : Place → FileTree
  | .canon => w.canon
  | .blobs id => (w.containers id).blobs
  | .data id => (w.containers id).data
  | .mnt id => (w.containers id).mntTree

def setTree (w : World) (t : FileTree) : Place → World
  | .canon => { w with canon := t }
  | .blobs id => w.setContainer id { w.containers id with blobs := t }
  | .data id => w.setContainer id { w.containers id with data := t }
  | .mnt id => w.setContainer id ((w.containers id).setMntTree t)

/-- Whether two roots are on one file system. A mounted image is one of its own. -/
def sameDevice (w : World) (cfg : Config) : Place → Place → Bool
  | .mnt i, .mnt j => i = j || (cfg.sameFs && (w.containers i).mounted.isNone && (w.containers j).mounted.isNone)
  | .mnt i, p => (w.containers i).mounted.isNone && (cfg.sameFs || p ≠ .canon)
  | p, .mnt i => (w.containers i).mounted.isNone && (cfg.sameFs || p ≠ .canon)
  | p, q => cfg.sameFs || (p = .canon) = (q = .canon)

end World

/-- The operations on the host, each one step. The ones that answer `Bool` or an
`Except` show a failure there. -/
inductive FsOp : Type → Type
  | createDirAll (l : Loc) : FsOp (Except Errno Unit)
  | lstat (l : Loc) : FsOp (Except Errno Inode)
  | isDir (l : Loc) : FsOp Bool
  | present (l : Loc) : FsOp Bool
  | readDir (l : Loc) : FsOp (Except Errno (List Name))
  | readLink (l : Loc) : FsOp (Except Errno OsStr)
  | symlink (target : OsStr) (l : Loc) : FsOp (Except Errno Unit)
  | openRead (l : Loc) : FsOp (Except Errno (Mode × Bytes))
  | create (l : Loc) (mode : Mode) : FsOp (Except Errno Unit)
  | write (l : Loc) (bytes : Bytes) : FsOp (Except Errno Unit)
  | chmod (l : Loc) (mode : Mode) : FsOp (Except Errno Unit)
  | unlink (l : Loc) : FsOp (Except Errno Unit)
  | rmdir (l : Loc) : FsOp (Except Errno Unit)
  | rename (src dst : Loc) : FsOp (Except Errno Unit)
  | listContainer (id : String) : FsOp (Except Errno (List Part))
  | removePart (id : String) (part : Part) : FsOp (Except Errno Unit)
  | writeManifest (id : String) (entries : List ManifestEntry) : FsOp (Except Errno Unit)
  | readManifest (id : String) : FsOp (Except Errno (List ManifestEntry))
  | hdiutilCreate (id : String) : FsOp (Except Errno Unit)
  | createImg (id : String) (size : Nat) : FsOp (Except Errno Unit)
  | mkfsExt4 (id : String) : FsOp (Except Errno Unit)
  | mount (strategy : ContainerStrategy) (id : String) : FsOp (Except Errno Unit)
  | unmount (id : String) : FsOp (Except Errno Unit)
  | isMountpoint (id : String) : FsOp Bool
  | hasPart (id : String) (part : Part) : FsOp Bool
  | acquireLock : FsOp (Except WorkspaceError Unit)
  | load : FsOp (Except WorkspaceError (Option RegistryEntry))
  | save (entry : Option RegistryEntry) : FsOp (Except WorkspaceError Unit)
  | shortId : FsOp String
  | liveness : FsOp (Process → Bool)
  | terminate (process : Process) : FsOp Unit

namespace World

variable (cfg : Config)

/-- An operation on the tree at `l` that fails, or leaves another tree there. -/
def update (w : World) (l : Loc) (f : FileTree → Except Errno FileTree) :
    Except Errno Unit × World :=
  match f (w.tree l.place) with
  | .error e => (.error e, w)
  | .ok t => (.ok (), w.setTree t l.place)

def rename (w : World) (src dst : Loc) : Except Errno Unit × World :=
  if !w.sameDevice cfg src.place dst.place then (.error .crossDevice, w) else
  match (w.tree src.place).rename src.path (w.tree dst.place) dst.path with
  | .error e => (.error e, w)
  | .ok (t, u) =>
    if src.place = dst.place then
      (.ok (), w.setTree ((w.tree src.place).moved src.path dst.path ++ t.prune dst.path) src.place)
    else (.ok (), (w.setTree t src.place).setTree u dst.place)

def modify (w : World) (id : String) (f : Container → Except Errno Container) :
    Except Errno Unit × World :=
  match f (w.containers id) with
  | .error e => (.error e, w)
  | .ok c => (.ok (), w.setContainer id c)

/-- The root of a live mount cannot be removed. -/
def busy (w : World) : Loc → Bool
  | ⟨.mnt id, []⟩ => (w.containers id).mounted.isSome
  | _ => false

def dirMode : Mode := 0o777#12 &&& ~~~cfg.umask

end World

namespace Container

def removePart (c : Container) : Part → Except Errno Container
  | .manifest => if c.manifest.isNone then .error .notFound else .ok { c with manifest := none }
  | .sparsebundle =>
    if c.sparsebundle.isNone then .error .notFound else .ok { c with sparsebundle := none }
  | .img => if c.img.isNone then .error .notFound else .ok { c with img := none }
  | .blobs | .data | .mnt => .error .isADirectory

def hdiutilCreate (v : Volumes) (c : Container) : Except Errno Container :=
  if c.sparsebundle.isSome then .error .exists
  else .ok { c with sparsebundle := some (v.format .sparseBundle) }

def mkfsExt4 (v : Volumes) (c : Container) : Except Errno Container :=
  if c.img.isNone then .error .notFound else .ok { c with img := some (some (v.format .ext4Fuse)) }

def mount (v : Volumes) (s : ContainerStrategy) (c : Container) : Except Errno Container :=
  match c.volume s with
  | none => .error .notFound
  | some t =>
    if c.mounted.isSome || c.mnt = [] then .error .exists
    else .ok { c.setVolume (v.mount s t) s with mounted := some s }

def unmount (c : Container) : Except Errno Container :=
  if c.mounted.isNone then .error .invalid else .ok { c with mounted := none }

end Container

namespace FsOp

variable (cfg : Config)

def failure : {β : Type} → FsOp β → β
  | _, createDirAll _ | _, symlink _ _ | _, create _ _ | _, write _ _ | _, chmod _ _
  | _, unlink _ | _, rmdir _ | _, rename _ _ | _, removePart _ _ | _, writeManifest _ _
  | _, hdiutilCreate _ | _, createImg _ _ | _, mkfsExt4 _ | _, mount _ _ | _, unmount _ =>
    .error .failed
  | _, lstat _ => .error .failed
  | _, readDir _ => .error .failed
  | _, readLink _ => .error .failed
  | _, openRead _ => .error .failed
  | _, listContainer _ => .error .failed
  | _, readManifest _ => .error .failed
  | _, isDir _ | _, present _ | _, isMountpoint _ | _, hasPart _ _ => false
  | _, acquireLock => .error (.setup "timed out waiting for the workspace registry lock")
  | _, load => .error (.io .failed)
  | _, save _ => .error (.io .failed)
  | _, shortId => ""
  | _, liveness => fun _ => false
  | _, terminate _ => ()

def perform : {β : Type} → FsOp β → World → β × World
  | _, createDirAll l, w => w.update l fun t => t.mkdir l.path (World.dirMode cfg)
  | _, lstat l, w => ((w.tree l.place).lstat l.path, w)
  | _, isDir l, w => ((w.tree l.place).lstat l.path matches .ok (.dir _), w)
  | _, present l, w => ((w.tree l.place).lstat l.path matches .ok _, w)
  | _, readDir l, w => ((w.tree l.place).readDir l.path, w)
  | _, readLink l, w => ((w.tree l.place).readLink l.path, w)
  | _, symlink target l, w => w.update l fun t => t.add l.path (.symlink target)
  | _, openRead l, w => ((w.tree l.place).openRead l.path, w)
  | _, create l m, w => w.update l fun t => t.create l.path (m &&& ~~~cfg.umask)
  | _, write l bytes, w => w.update l fun t => .ok (t.write l.path bytes)
  | _, chmod l m, w => w.update l fun t => t.chmod l.path m
  | _, unlink l, w => w.update l fun t => t.unlink l.path
  | _, rmdir l, w => w.update l fun t => if w.busy l then .error .failed else t.rmdir l.path
  | _, rename src dst, w => w.rename cfg src dst
  | _, listContainer id, w => (.ok (w.containers id).parts, w)
  | _, removePart id part, w => w.modify id fun c => c.removePart part
  | _, writeManifest id entries, w => w.modify id fun c => .ok { c with manifest := some entries }
  | _, readManifest id, w => ((w.containers id).manifest.elim (.error .notFound) .ok, w)
  | _, hdiutilCreate id, w => w.modify id fun c => c.hdiutilCreate cfg.volumes
  | _, createImg id _, w => w.modify id fun c => .ok { c with img := some none }
  | _, mkfsExt4 id, w => w.modify id fun c => c.mkfsExt4 cfg.volumes
  | _, mount s id, w => w.modify id fun c => c.mount cfg.volumes s
  | _, unmount id, w => w.modify id fun c => c.unmount
  | _, isMountpoint id, w => ((w.containers id).mounted.isSome, w)
  | _, hasPart id part, w => (part ∈ (w.containers id).parts, w)
  | _, acquireLock, w => (.ok (), w)
  | _, load, w => (.ok w.registry, w)
  | _, save entry, w => (.ok (), { w with registry := entry })
  | _, shortId, w => (cfg.ids w.drawn, { w with drawn := w.drawn + 1 })
  | _, liveness, w => (w.alive, w)
  | _, terminate process, w => ((), { w with alive := Function.update w.alive process false })

/-- Drawing an id and asking whether a process lives never fail. -/
def fallible : {β : Type} → FsOp β → Bool
  | _, shortId | _, liveness => false
  | _, _ => true

end FsOp

/-- A failed operation leaves the host as it was. -/
def host (cfg : Config) : Handler FsOp World where
  run o failed w := if failed && o.fallible then (o.failure, w) else o.perform cfg w

namespace Container

@[simp] theorem setVolume_mounted (c : Container) (t : FileTree) (s : ContainerStrategy) :
    (c.setVolume t s).mounted = c.mounted := by
  cases s <;> rfl

@[simp] theorem setVolume_data (c : Container) (t : FileTree) (s : ContainerStrategy) :
    (c.setVolume t s).data = c.data := by
  cases s <;> rfl

@[simp] theorem setVolume_blobs (c : Container) (t : FileTree) (s : ContainerStrategy) :
    (c.setVolume t s).blobs = c.blobs := by
  cases s <;> rfl

@[simp] theorem setVolume_manifest (c : Container) (t : FileTree) (s : ContainerStrategy) :
    (c.setVolume t s).manifest = c.manifest := by
  cases s <;> rfl

@[simp] theorem setVolume_mnt (c : Container) (t : FileTree) (s : ContainerStrategy) :
    (c.setVolume t s).mnt = c.mnt := by
  cases s <;> rfl

theorem volume_setVolume {c : Container} {s : ContainerStrategy} (hs : s.usesImage)
    (t : FileTree) : (c.setVolume t s).volume s = some t := by
  cases s with
  | plainDir => cases hs
  | sparseBundle => rfl
  | ext4Fuse => rfl

theorem setMntTree_eq (c : Container) (t : FileTree) : (c.setMntTree t).mounted = c.mounted ∧
    (c.setMntTree t).data = c.data ∧ (c.setMntTree t).blobs = c.blobs ∧
    (c.setMntTree t).manifest = c.manifest := by
  rw [setMntTree]
  cases hm : c.mounted with
  | none => exact ⟨rfl, rfl, rfl, rfl⟩
  | some s => simp [hm]

theorem mntTree_setMntTree {c : Container} (h : c.mounted ≠ some .plainDir) (t : FileTree) :
    (c.setMntTree t).mntTree = t := by
  rw [setMntTree]
  cases hm : c.mounted with
  | none => simp [mntTree]
  | some s =>
      have hs : s.usesImage := by
        cases s with
        | plainDir => exact absurd hm h
        | sparseBundle => rfl
        | ext4Fuse => rfl
      simp [mntTree, hm, volume_setVolume hs]

theorem setMntTree_setMntTree (c : Container) (t u : FileTree) :
    (c.setMntTree t).setMntTree u = c.setMntTree u := by
  unfold setMntTree
  cases hm : c.mounted with
  | none => simp
  | some s => cases s <;> simp [setVolume, hm]

theorem mntTree_congr {c d : Container} (hm : d.mounted = c.mounted) (hmnt : d.mnt = c.mnt)
    (hb : d.sparsebundle = c.sparsebundle) (hi : d.img = c.img) : d.mntTree = c.mntTree := by
  unfold mntTree
  rw [hm, hmnt]
  cases c.mounted with
  | none => rfl
  | some s => cases s <;> simp [volume, hb, hi]

end Container

namespace World

variable {w : World} {id j : String} {t : FileTree} {pl : Place}

@[simp] theorem setContainer_self (c : Container) : (w.setContainer id c).containers id = c := by
  simp [setContainer]

theorem setContainer_of_ne (c : Container) (h : j ≠ id) :
    (w.setContainer id c).containers j = w.containers j := by
  simp [setContainer, h]

@[simp] theorem setContainer_registry (c : Container) :
    (w.setContainer id c).registry = w.registry := rfl

@[simp] theorem setContainer_alive (c : Container) : (w.setContainer id c).alive = w.alive := rfl

@[simp] theorem setContainer_drawn (c : Container) : (w.setContainer id c).drawn = w.drawn := rfl

@[simp] theorem setContainer_canon (c : Container) : (w.setContainer id c).canon = w.canon := rfl

@[simp] theorem setTree_registry : (w.setTree t pl).registry = w.registry := by
  cases pl <;> rfl

@[simp] theorem setTree_alive : (w.setTree t pl).alive = w.alive := by
  cases pl <;> rfl

@[simp] theorem setTree_drawn : (w.setTree t pl).drawn = w.drawn := by
  cases pl <;> rfl

/-- What is mounted at the place, if it is a mountpoint, is an image. -/
def Settable (w : World) : Place → Prop
  | .mnt id => (w.containers id).mounted ≠ some .plainDir
  | _ => True

theorem containers_setContainer {α : Type} (f : Container → α) {c : Container}
    (hc : f c = f (w.containers id)) :
    f ((w.setContainer id c).containers j) = f (w.containers j) := by
  by_cases hj : j = id
  · subst hj
    rw [setContainer_self, hc]
  · rw [setContainer_of_ne _ hj]

/-- A new tree under `mnt` leaves the mount and the data directory alone. -/
theorem setTree_mnt (w : World) (t : FileTree) (id j : String) :
    ((w.setTree t (.mnt id)).containers j).mounted = (w.containers j).mounted ∧
      ((w.setTree t (.mnt id)).containers j).data = (w.containers j).data :=
  ⟨containers_setContainer (·.mounted) ((w.containers id).setMntTree_eq t).1,
    containers_setContainer (·.data) ((w.containers id).setMntTree_eq t).2.1⟩

theorem setTree_mounted (w : World) (t : FileTree) (pl : Place) (j : String) :
    ((w.setTree t pl).containers j).mounted = (w.containers j).mounted := by
  cases pl with
  | canon => rfl
  | blobs id => exact containers_setContainer (·.mounted) rfl
  | data id => exact containers_setContainer (·.mounted) rfl
  | mnt id => exact (w.setTree_mnt t id j).1

theorem Settable.setTree (h : w.Settable pl) (t : FileTree) (pl' : Place) :
    (w.setTree t pl').Settable pl := by
  cases pl with
  | mnt id =>
      change ((w.setTree t pl').containers id).mounted ≠ _
      rw [setTree_mounted]
      exact h
  | _ => trivial

theorem tree_setTree (h : w.Settable pl) : (w.setTree t pl).tree pl = t := by
  cases pl with
  | canon => rfl
  | blobs id => simp [setTree, tree]
  | data id => simp [setTree, tree]
  | mnt id =>
      rw [setTree, tree, setContainer_self]
      exact Container.mntTree_setMntTree h t

theorem tree_setTree_of_ne {pl' : Place} (h : pl' ≠ pl) :
    (w.setTree t pl).tree pl' = w.tree pl' := by
  cases pl with
  | canon =>
      cases pl' with
      | canon => exact absurd rfl h
      | _ => rfl
  | blobs i =>
      cases pl' with
      | canon => rfl
      | blobs j =>
          refine congrArg Container.blobs (setContainer_of_ne _ ?_)
          rintro rfl
          exact h rfl
      | data j => exact containers_setContainer (·.data) rfl
      | mnt j => exact containers_setContainer Container.mntTree (Container.mntTree_congr rfl rfl rfl rfl)
  | data i =>
      cases pl' with
      | canon => rfl
      | blobs j => exact containers_setContainer (·.blobs) rfl
      | data j =>
          refine congrArg Container.data (setContainer_of_ne _ ?_)
          rintro rfl
          exact h rfl
      | mnt j => exact containers_setContainer Container.mntTree (Container.mntTree_congr rfl rfl rfl rfl)
  | mnt i =>
      have hc := (w.containers i).setMntTree_eq t
      cases pl' with
      | canon => rfl
      | blobs j => exact containers_setContainer (·.blobs) hc.2.2.1
      | data j => exact containers_setContainer (·.data) hc.2.1
      | mnt j =>
          refine congrArg Container.mntTree (setContainer_of_ne _ ?_)
          rintro rfl
          exact h rfl

theorem setTree_setTree (u : FileTree) : (w.setTree t pl).setTree u pl = w.setTree u pl := by
  have hset : ∀ (i : String) (c d : Container),
      (w.setContainer i c).setContainer i d = w.setContainer i d := by
    intro i c d
    simp [setContainer]
  cases pl with
  | canon => rfl
  | blobs i => simp [setTree, hset]
  | data i => simp [setTree, hset]
  | mnt i => simp [setTree, hset, Container.setMntTree_setMntTree]

theorem update_cases (w : World) (l : Loc) (f : FileTree → Except Errno FileTree) :
    (∃ e, f (w.tree l.place) = .error e ∧ w.update l f = (.error e, w)) ∨
      ∃ t, f (w.tree l.place) = .ok t ∧ w.update l f = (.ok (), w.setTree t l.place) := by
  rw [update]
  cases f (w.tree l.place) with
  | error e => exact .inl ⟨e, rfl, rfl⟩
  | ok t => exact .inr ⟨t, rfl, rfl⟩

theorem modify_cases (w : World) (id : String) (f : Container → Except Errno Container) :
    (∃ e, f (w.containers id) = .error e ∧ w.modify id f = (.error e, w)) ∨
      ∃ c, f (w.containers id) = .ok c ∧ w.modify id f = (.ok (), w.setContainer id c) := by
  rw [modify]
  cases f (w.containers id) with
  | error e => exact .inl ⟨e, rfl, rfl⟩
  | ok c => exact .inr ⟨c, rfl, rfl⟩

end World

variable {cfg : Config} {β : Type}

theorem host_run (o : FsOp β) (b : Bool) (w : World) :
    (host cfg).run o b w = if b && o.fallible then (o.failure, w) else o.perform cfg w := rfl

theorem host_cases (cfg : Config) (o : FsOp β) (b : Bool) (w : World) :
    (host cfg).run o b w = (o.failure, w) ∨ (host cfg).run o b w = o.perform cfg w := by
  rw [host_run]
  split
  · exact .inl rfl
  · exact .inr rfl

theorem host_of_infallible {o : FsOp β} (ho : o.fallible = false) (b : Bool) (w : World) :
    (host cfg).run o b w = o.perform cfg w := by
  rw [host_run, ho, Bool.and_false]
  rfl

end Silo.Workspace
