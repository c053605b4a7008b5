import Silo.Workspace.Attach

namespace Silo.Workspace

open Silo.Lib

inductive TreeEntry
  | file (sha256 : String) (size : Nat) (mode : Option RecordedMode)
  | symlink (target : String)
  | dir (mode : Option RecordedMode)
  deriving DecidableEq, Repr

abbrev Tree := List (String × TreeEntry)

namespace Tree

def get : Tree → String → Option TreeEntry
  | [], _ => none
  | (k, v) :: t, path => if k = path then some v else get t path

def insert : Tree → String → TreeEntry → Tree
  | [], path, entry => [(path, entry)]
  | (k, v) :: t, path, entry =>
    if k = path then (path, entry) :: t
    else if path < k then (path, entry) :: (k, v) :: t
    else (k, v) :: insert t path entry

end Tree

namespace ManifestEntry

def fromTree (path : String) : TreeEntry → ManifestEntry
  | .file sha256 size mode => ⟨path, .file, some sha256, some size, none, mode⟩
  | .symlink target => ⟨path, .symlink, none, none, some target, none⟩
  | .dir mode => ⟨path, .dir, none, none, none, mode⟩

def intoTree (m : ManifestEntry) : Except WorkspaceError (String × TreeEntry) :=
  match m.kind with
  | .file =>
    match m.sha256, m.size with
    | some sha256, some size => .ok (m.path, .file sha256 size m.mode)
    | _, _ => .error (.damaged s!"manifest entry {m.path} is a file without a hash or size")
  | .symlink =>
    match m.symlinkTarget with
    | some target => .ok (m.path, .symlink target)
    | none => .error (.damaged s!"manifest entry {m.path} is a symlink without a target")
  | .dir => .ok (m.path, .dir m.mode)

end ManifestEntry

namespace Path

def texts : Path → Option (List String)
  | [] => some []
  | n :: p =>
    match n.1, texts p with
    | .text s, some ss => some (ss ++ [s])
    | _, _ => none

/-- `path_to_string` of a relative path: its names with `/` between them. -/
def toText (p : Path) : Except WorkspaceError String :=
  match texts p with
  | some ss => .ok ("/".intercalate ss)
  | none => .error (.setup "path is not valid UTF-8")

end Path

namespace Snapshot

variable (cfg : Config)

def entryMode (l : Loc) : Host (Option RecordedMode) := do
  match ← fs (.lstat l) with
  | .file mode _ | .dir mode => pure (some (mode.setWidth 32))
  | .symlink _ => pure none

/-- The walk: every entry below `dir`, a directory before what is in it. -/
def scanDir (fileEntry : Loc → Host (String × Nat)) : Nat → Tree → Loc → Host Tree
  | 0, _, _ => Io.fail (.io .tooDeep)
  | depth + 1, tree, dir => do
    let names ← fs (.readDir dir)
    Io.fold (fun tree n => do
      let node ← fs (.lstat (dir.child n))
      let rel ← Io.ofExcept (Path.toText (dir.child n).path)
      match node with
      | .symlink _ => do
        let target ← fs (.readLink (dir.child n))
        let target ← Io.ofExcept (pathToString target)
        pure (tree.insert rel (.symlink target))
      | .dir _ => do
        let mode ← entryMode (dir.child n)
        scanDir fileEntry depth (tree.insert rel (.dir mode)) (dir.child n)
      | .file _ _ => do
        let (sha256, size) ← fileEntry (dir.child n)
        let mode ← entryMode (dir.child n)
        pure (tree.insert rel (.file sha256 size mode))) tree names

def scanTree (fileEntry : Loc → Host (String × Nat)) (root : Loc) : Host Tree :=
  scanDir fileEntry cfg.depth [] root

def hashFile (l : Loc) : Host (String × Nat) := do
  let (_, bytes) ← fs (.openRead l)
  pure ((cfg.sha256 bytes).1, bytes.length)

/-- Walks the tree and records every entry without storing any content. -/
def walkTree (root : Loc) : Host Tree := scanTree cfg (hashFile cfg) root

def incoming : Name := ⟨.text ".incoming", by decide⟩

def blobName (bytes : Bytes) : Name := ⟨.text (cfg.sha256 bytes).1, (cfg.sha256 bytes).2⟩

/-- Hashes a file while copying it into the blob store, under a temporary name
first. Existing blobs are reused. -/
def storeFileBlob (blobsDir : Loc) (l : Loc) : Host (String × Nat) := do
  let (_, bytes) ← fs (.openRead l)
  let tmp := blobsDir.child incoming
  fs (.create tmp 0o666#12)
  fs (.write tmp bytes)
  let sha256 := cfg.sha256 bytes
  let blob := blobsDir.child ⟨.text sha256.1, sha256.2⟩
  if ← Io.ask (.present blob) then do
    fs (.unlink tmp)
    pure (sha256.1, bytes.length)
  else do
    fs (.rename tmp blob)
    pure (sha256.1, bytes.length)

/-- Walks the tree and stores every regular file's content in the blob store. -/
def snapshot (root blobsDir : Loc) : Host Tree := do
  fs (.createDirAll blobsDir)
  scanTree cfg (storeFileBlob cfg blobsDir) root

def writeManifest (id : String) (tree : Tree) : Host Unit :=
  fs (.writeManifest id (tree.map fun (path, entry) => ManifestEntry.fromTree path entry))

def collect : List ManifestEntry → Except WorkspaceError Tree
  | [] => .ok []
  | m :: ms =>
    match m.intoTree, collect ms with
    | .error e, _ => .error e
    | .ok _, .error e => .error e
    | .ok (path, entry), .ok tree =>
      .ok (if (tree.get path).isSome then tree else tree.insert path entry)

def loadManifest (id : String) : Host Tree := do
  let entries ← fs (.readManifest id)
  Io.ofExcept (collect entries)

end Snapshot

inductive ChangeKind
  | added
  | modified
  | deleted
  deriving DecidableEq, Repr

structure FileChange where
  path : String
  kind : ChangeKind
  diff : Option String
  note : Option String
  deriving DecidableEq, Repr

namespace Path

/-- The path a `/`-separated string names below a root. -/
def ofText (s : String) : Path :=
  (s.toList.splitOn '/').reverse.filterMap fun part =>
    if h : (OsStr.text (.ofList part)).IsName then some ⟨.text (.ofList part), h⟩ else none

end Path

namespace Diff

variable (cfg : Config)

def binarySniffBytes : Nat := 8192
def maxDiffBytes : Nat := 1024 * 1024

def contentEqual : TreeEntry → TreeEntry → Bool
  | .file sha256 size _, .file sha256' size' _ => sha256 = sha256' && size = size'
  | .symlink target, .symlink target' => target = target'
  | .dir _, .dir _ => true
  | _, _ => false

def entryMode : TreeEntry → Option RecordedMode
  | .file _ _ mode | .dir mode => mode
  | .symlink _ => none

def octal (m : RecordedMode) : String :=
  let digits := Nat.toDigits 8 m.toNat
  String.ofList (List.replicate (4 - digits.length) '0' ++ digits)

def modeNote (old new : TreeEntry) : Option String :=
  match entryMode old, entryMode new with
  | some was, some now => if was = now then none else some s!"mode {octal was} -> {octal now}"
  | _, _ => none

/-- Decodes bytes for diffing; `none` marks the content as binary. -/
def bytesToText (bytes : Bytes) : Option String :=
  if maxDiffBytes < bytes.length then none
  else if 0 ∈ bytes.take binarySniffBytes then none
  else some (cfg.lossy bytes)

def readCurrentText (root : Loc) (rel : String) : Host (Option String) := do
  let l : Loc := { root with path := Path.ofText rel ++ root.path }
  match ← fs (.lstat l) with
  | .file _ bytes =>
    if maxDiffBytes < bytes.length then pure none
    else do
      let (_, bytes) ← fs (.openRead l)
      pure (bytesToText cfg bytes)
  | _ => Io.fail (.io .invalid)

def readBlobText (blobsDir : Loc) (sha256 : String) (size : Nat) : Host (Option String) :=
  if maxDiffBytes < size then pure none
  else do
    let l : Loc := { blobsDir with path := Path.ofText sha256 ++ blobsDir.path }
    let (_, bytes) ← (fs (.openRead l)).mapErr fun _ =>
      .damaged s!"snapshot blob {sha256} is unreadable"
    pure (bytesToText cfg bytes)

def diffPath (blobsDir root : Loc) (path : String) :
    Option TreeEntry → Option TreeEntry → Host (Option FileChange)
  | none, none => pure none
  | none, some (.file _ _ _) => do
    let new ← readCurrentText cfg root path
    pure (some ⟨path, .added, new.map (cfg.unified ""), none⟩)
  | none, some _ => pure (some ⟨path, .added, none, none⟩)
  | some (.file sha256 size _), none => do
    let old ← readBlobText cfg blobsDir sha256 size
    pure (some ⟨path, .deleted, old.map fun old => cfg.unified old "", none⟩)
  | some _, none => pure (some ⟨path, .deleted, none, none⟩)
  | some old, some new =>
    if contentEqual old new then
      pure ((modeNote old new).map fun note => ⟨path, .modified, none, some note⟩)
    else
      match old, new with
      | .file sha256 size _, .file _ _ _ => do
        let before ← readBlobText cfg blobsDir sha256 size
        let after ← readCurrentText cfg root path
        pure (some ⟨path, .modified, before.bind fun b => after.map (cfg.unified b), modeNote old new⟩)
      | _, _ => pure (some ⟨path, .modified, none, modeNote old new⟩)

def insertKey (path : String) : List String → List String
  | [] => [path]
  | k :: ks => if k = path then k :: ks else if path < k then path :: k :: ks else k :: insertKey path ks

def paths (locked current : Tree) : List String :=
  (locked.map (·.1) ++ current.map (·.1)).foldr insertKey []

/-- One change per differing path, sorted by path. -/
def diffTrees (locked current : Tree) (blobsDir root : Loc) : Host (List FileChange) :=
  Io.fold (fun changes path => do
    let change ← diffPath cfg blobsDir root path (locked.get path) (current.get path)
    pure (changes ++ change.toList)) [] (paths locked current)

end Diff

end Silo.Workspace
