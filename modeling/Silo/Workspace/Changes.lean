import Silo.Workspace.Diff
import Silo.Workspace.Snapshots

namespace Silo.Workspace

open Silo.Lib

namespace TreeEntry

def ModesDiffer : Option RecordedMode → Option RecordedMode → Prop
  | some was, some now => was ≠ now
  | _, _ => False

def Differs : TreeEntry → TreeEntry → Prop
  | .file sha256 size mode, .file sha256' size' mode' =>
    sha256 ≠ sha256' ∨ size ≠ size' ∨ ModesDiffer mode mode'
  | .symlink target, .symlink target' => target ≠ target'
  | .dir mode, .dir mode' => ModesDiffer mode mode'
  | _, _ => True

def ModesAgree (old new : Option RecordedMode) : Prop := old = none ∨ new = none ∨ old = new

/-- Equal entries, up to modes missing on one side. -/
def Agrees : TreeEntry → TreeEntry → Prop
  | .file sha256 size mode, .file sha256' size' mode' =>
    sha256 = sha256' ∧ size = size' ∧ ModesAgree mode mode'
  | .symlink target, .symlink target' => target = target'
  | .dir mode, .dir mode' => ModesAgree mode mode'
  | _, _ => False

theorem not_modesDiffer_iff (old new : Option RecordedMode) : ¬ ModesDiffer old new ↔ ModesAgree old new := by
  cases old <;> cases new <;> simp [ModesDiffer, ModesAgree]

theorem not_differs_iff (old new : TreeEntry) : ¬ old.Differs new ↔ old.Agrees new := by
  cases old <;> cases new <;> simp [Differs, Agrees, not_modesDiffer_iff]

theorem agrees_refl (entry : TreeEntry) : entry.Agrees entry := by
  cases entry <;> simp [Agrees, ModesAgree]

end TreeEntry

namespace Tree

variable {t : Tree} {path k : String} {entry : TreeEntry}

/-- `BTreeMap::remove`. -/
def erase (t : Tree) (path : String) : Tree := t.filter fun e => e.1 ≠ path

theorem get_erase_self : (t.erase path).get path = none := by
  induction t with
  | nil => rfl
  | cons e t ih =>
      obtain ⟨l, v⟩ := e
      by_cases hl : l = path
      · simpa [erase, hl] using ih
      · have h : erase ((l, v) :: t) path = (l, v) :: erase t path := by simp [erase, hl]
        rw [h, get, if_neg hl, ih]

theorem get_erase_of_ne (h : path ≠ k) : (t.erase path).get k = t.get k := by
  induction t with
  | nil => rfl
  | cons e t ih =>
      obtain ⟨l, v⟩ := e
      by_cases hl : l = path
      · have he : erase ((l, v) :: t) path = erase t path := by simp [erase, hl]
        rw [he, ih, get, if_neg (hl ▸ h)]
      · have he : erase ((l, v) :: t) path = (l, v) :: erase t path := by simp [erase, hl]
        rw [he, get, get, ih]

def adopt (t : Tree) (path : String) : Option TreeEntry → Tree
  | some entry => t.insert path entry
  | none => t.erase path

/-- The entries of `current` at these paths, over the tree. -/
def replay (current t : Tree) (paths : List String) : Tree :=
  paths.foldl (fun t path => t.adopt path (current.get path)) t

theorem get_adopt (old : Option TreeEntry) : (t.adopt path old).get k = if path = k then old else t.get k := by
  by_cases h : path = k
  · subst h
    cases old with
    | none => rw [adopt, get_erase_self, if_pos rfl]
    | some entry => rw [adopt, get_insert_self, if_pos rfl]
  · cases old with
    | none => rw [adopt, get_erase_of_ne h, if_neg h]
    | some entry => rw [adopt, get_insert_of_ne h, if_neg h]

theorem get_replay (current : Tree) (paths : List String) :
    (replay current t paths).get k = if k ∈ paths then current.get k else t.get k := by
  induction paths generalizing t with
  | nil => simp [replay]
  | cons path paths ih =>
      rw [replay, List.foldl_cons, ← replay, ih, get_adopt]
      by_cases hk : k ∈ paths
      · simp [hk]
      · by_cases hp : path = k
        · simp [hp]
        · simp [hk, hp, Ne.symm hp]

end Tree

namespace Diff

open Snapshot (desktop)

variable (cfg : Config) {w : World} {locked current : Tree} {blobsDir root : Loc} {path : String}

theorem mem_insertKey {ks : List String} {k : String} : k ∈ insertKey path ks ↔ k = path ∨ k ∈ ks := by
  induction ks with
  | nil => simp [insertKey]
  | cons l ks ih =>
      rw [insertKey]
      split
      · next hl => simp [hl]
      · split
        · simp
        · simp only [List.mem_cons, ih]
          tauto

theorem insertKey_sorted {ks : List String} (h : ks.Pairwise (· < ·)) : (insertKey path ks).Pairwise (· < ·) := by
  induction ks with
  | nil => simp [insertKey]
  | cons l ks ih =>
      obtain ⟨hl, hks⟩ := List.pairwise_cons.mp h
      rw [insertKey]
      split
      · exact h
      · next hne =>
          split
          · next hlt =>
              apply List.pairwise_cons.mpr
              refine ⟨?_, h⟩
              intro k hk
              rcases List.mem_cons.mp hk with rfl | hk
              · exact hlt
              · exact String.lt_trans hlt (hl k hk)
          · next hnlt =>
              apply List.pairwise_cons.mpr
              refine ⟨?_, ih hks⟩
              intro k hk
              rcases mem_insertKey.mp hk with rfl | hk
              · exact (Std.lt_trichotomy l k).resolve_right (fun h => h.elim hne hnlt)
              · exact hl k hk

theorem paths_sorted (locked current : Tree) : (paths locked current).Pairwise (· < ·) := by
  rw [paths]
  induction locked.map (·.1) ++ current.map (·.1) with
  | nil => exact .nil
  | cons path rest ih => exact insertKey_sorted ih

theorem mem_paths : path ∈ paths locked current ↔
    (∃ old, locked.get path = some old) ∨ ∃ new, current.get path = some new := by
  rw [← Tree.mem_keys_iff, ← Tree.mem_keys_iff, ← List.mem_append, paths]
  induction locked.map (·.1) ++ current.map (·.1) with
  | nil => simp
  | cons k rest ih => rw [List.foldr_cons, mem_insertKey, ih, List.mem_cons]

/-- The blobs and the current files that a diff shows can be read. -/
structure Readable (w : World) (locked current : Tree) (blobsDir root : Loc) : Prop where
  blobs : ∀ path sha256 size mode, locked.get path = some (.file sha256 size mode) →
    ∃ read, (w.tree blobsDir.place).openRead (Path.ofText sha256 ++ blobsDir.path) = .ok read
  files : ∀ path sha256 size mode, current.get path = some (.file sha256 size mode) →
    ∃ read, (w.tree root.place).openRead (Path.ofText path ++ root.path) = .ok read

def outline (change : FileChange) : String × ChangeKind × Option String := (change.path, change.kind, change.note)

def outlineAt (path : String) : Option TreeEntry → Option TreeEntry → Option (String × ChangeKind × Option String)
  | none, none => none
  | none, some _ => some (path, .added, none)
  | some _, none => some (path, .deleted, none)
  | some old, some new =>
    if contentEqual old new && (modeNote old new).isNone then none
    else some (path, .modified, modeNote old new)

theorem lstat_of_openRead {t : FileTree} {p : Path} {mode : Mode} {bytes : Bytes}
    (h : t.openRead p = .ok (mode, bytes)) : t.lstat p = .ok (.file mode bytes) := by
  rw [FileTree.openRead] at h
  split at h
  · cases h
  · next m b hstat =>
      split at h
      · cases h
        exact hstat
      · cases h
  · cases h
  · cases h

theorem readCurrentText_exec {read : Mode × Bytes}
    (h : (w.tree root.place).openRead (Path.ofText path ++ root.path) = .ok read) :
    ∃ text, (readCurrentText cfg root path).exec (host cfg) w = (.ok text, w) := by
  obtain ⟨mode, bytes⟩ := read
  have hstat := lstat_of_openRead h
  rw [readCurrentText, Io.exec_bind]
  simp only [fs, Io.exec_call, host_run, FsOp.perform, Bool.false_and, Bool.false_eq_true, if_false, hstat]
  split
  · exact ⟨none, rfl⟩
  · rw [Io.exec_bind]
    simp only [Io.exec_call, host_run, FsOp.perform, Bool.false_and, Bool.false_eq_true, if_false, h]
    exact ⟨_, rfl⟩

theorem readBlobText_exec {sha256 : String} {read : Mode × Bytes} (size : Nat)
    (h : (w.tree blobsDir.place).openRead (Path.ofText sha256 ++ blobsDir.path) = .ok read) :
    ∃ text, (readBlobText cfg blobsDir sha256 size).exec (host cfg) w = (.ok text, w) := by
  rw [readBlobText]
  split
  · exact ⟨none, rfl⟩
  · rw [Io.exec_bind, Io.exec_mapErr]
    simp only [fs, Io.exec_call, host_run, FsOp.perform, Bool.false_and, Bool.false_eq_true, if_false, h]
    exact ⟨_, rfl⟩

theorem diffPath_exec (h : Readable w locked current blobsDir root) (path : String) :
    ∃ change, (diffPath cfg blobsDir root path (locked.get path) (current.get path)).exec (host cfg) w =
        (.ok change, w) ∧ change.map outline = outlineAt path (locked.get path) (current.get path) := by
  cases hold : locked.get path with
  | none =>
      cases hnew : current.get path with
      | none => exact ⟨none, rfl, rfl⟩
      | some new =>
          cases new with
          | file sha256 size mode =>
              obtain ⟨read, hread⟩ := h.files path _ _ _ hnew
              obtain ⟨text, htext⟩ := readCurrentText_exec cfg hread
              exact ⟨_, Io.exec_bind_ok _ htext, rfl⟩
          | symlink target => exact ⟨_, rfl, rfl⟩
          | dir mode => exact ⟨_, rfl, rfl⟩
  | some old =>
      cases hnew : current.get path with
      | none =>
          cases old with
          | file sha256 size mode =>
              obtain ⟨read, hread⟩ := h.blobs path _ _ _ hold
              obtain ⟨text, htext⟩ := readBlobText_exec cfg size hread
              exact ⟨_, Io.exec_bind_ok _ htext, rfl⟩
          | symlink target => exact ⟨_, rfl, rfl⟩
          | dir mode => exact ⟨_, rfl, rfl⟩
      | some new =>
          by_cases hsame : contentEqual old new = true
          · refine ⟨(modeNote old new).map fun note => ⟨path, .modified, none, some note⟩, ?_, ?_⟩
            · simp [diffPath, hsame]
            · cases hnote : modeNote old new <;> simp [outlineAt, hsame, hnote, outline]
          · have hline : outlineAt path (some old) (some new) = some (path, .modified, modeNote old new) := by
              simp [outlineAt, hsame]
            rw [hline]
            simp only [diffPath, hsame, if_false, Bool.false_eq_true]
            split
            · next sha256 size mode sha256' size' mode' =>
                obtain ⟨blob, hblob⟩ := h.blobs path _ _ _ hold
                obtain ⟨before, hbefore⟩ := readBlobText_exec cfg size hblob
                obtain ⟨read, hread⟩ := h.files path _ _ _ hnew
                obtain ⟨after, hafter⟩ := readCurrentText_exec cfg hread
                refine ⟨some ⟨path, .modified, before.bind fun b => after.map (cfg.unified b), _⟩, ?_, rfl⟩
                rw [Io.exec_bind_ok _ hbefore, Io.exec_bind_ok _ hafter]
                rfl
            · exact ⟨_, rfl, rfl⟩

def outlines (locked current : Tree) (paths : List String) : List (String × ChangeKind × Option String) :=
  paths.filterMap fun path => outlineAt path (locked.get path) (current.get path)

theorem diffTrees_exec (h : Readable w locked current blobsDir root) :
    ∃ changes, (diffTrees cfg locked current blobsDir root).exec (host cfg) w = (.ok changes, w) ∧
      changes.map outline = outlines locked current (paths locked current) := by
  -- the loop, with the changes found so far
  have hloop : ∀ (ps : List String) (found : List FileChange),
      ∃ changes, (Io.fold (fun changes path => do
          let change ← diffPath cfg blobsDir root path (locked.get path) (current.get path)
          pure (changes ++ change.toList)) found ps).exec (host cfg) w = (.ok changes, w) ∧
        changes.map outline = found.map outline ++ outlines locked current ps := by
    intro ps
    induction ps with
    | nil => exact fun found => ⟨found, rfl, by simp [outlines]⟩
    | cons path ps ih =>
        intro found
        obtain ⟨change, hrun, hline⟩ := diffPath_exec cfg h path
        obtain ⟨changes, hrest, hlines⟩ := ih (found ++ change.toList)
        refine ⟨changes, ?_, ?_⟩
        · rw [Io.fold, Io.exec_bind_ok (a := found ++ change.toList) (t := w)]
          · exact hrest
          · rw [Io.exec_bind_ok _ hrun]
            rfl
        · rw [hlines, List.map_append, List.append_assoc, outlines, outlines, List.filterMap_cons, ← hline]
          cases change <;> rfl
  obtain ⟨changes, hrun, hlines⟩ := hloop (paths locked current) []
  exact ⟨changes, hrun, by simpa using hlines⟩

def Changed : Option TreeEntry → Option TreeEntry → Prop
  | none, none => False
  | some old, some new => old.Differs new
  | _, _ => True

/-- The path is in neither of the trees, or its entries are equal up to modes missing on
one side. -/
def Unchanged : Option TreeEntry → Option TreeEntry → Prop
  | none, none => True
  | some old, some new => old.Agrees new
  | _, _ => False

theorem not_changed_iff (old new : Option TreeEntry) : ¬ Changed old new ↔ Unchanged old new := by
  cases old <;> cases new <;> simp [Changed, Unchanged, TreeEntry.not_differs_iff]

theorem unchanged_refl (entry : Option TreeEntry) : Unchanged entry entry := by
  cases entry with
  | none => trivial
  | some entry => exact entry.agrees_refl

def ModeChanged : Option TreeEntry → Option TreeEntry → Prop
  | some old, some new => TreeEntry.ModesDiffer (entryMode old) (entryMode new)
  | _, _ => False

/-- What a list of changes tells about two trees. -/
structure Tells (locked current : Tree) (changes : List FileChange) : Prop where
  sorted : changes.Pairwise fun a b => a.path < b.path
  reported : ∀ path, path ∈ changes.map (·.path) ↔ Changed (locked.get path) (current.get path)
  added : ∀ change ∈ changes, change.kind = .added ↔ locked.get change.path = none
  deleted : ∀ change ∈ changes, change.kind = .deleted ↔ current.get change.path = none
  note : ∀ change ∈ changes,
    change.note.isSome = true ↔ ModeChanged (locked.get change.path) (current.get change.path)
  empty : changes = [] ↔ ∀ path, Unchanged (locked.get path) (current.get path)
  replayed : ∀ path,
    Unchanged ((Tree.replay current locked (changes.map (·.path))).get path) (current.get path)

theorem modeNote_isSome (old new : TreeEntry) :
    (modeNote old new).isSome = true ↔ TreeEntry.ModesDiffer (entryMode old) (entryMode new) := by
  rw [modeNote]
  cases entryMode old with
  | none => simp [TreeEntry.ModesDiffer]
  | some was =>
      cases entryMode new with
      | none => simp [TreeEntry.ModesDiffer]
      | some now => by_cases h : was = now <;> simp [TreeEntry.ModesDiffer, h]

/-- Entries of equal content without a note are those that do not differ. -/
theorem contentEqual_iff (old new : TreeEntry) :
    (contentEqual old new && (modeNote old new).isNone) = true ↔ ¬ old.Differs new := by
  have hnote : (modeNote old new).isNone = true ↔ ¬ TreeEntry.ModesDiffer (entryMode old) (entryMode new) := by
    rw [← modeNote_isSome]
    cases modeNote old new <;> simp
  rw [Bool.and_eq_true, hnote]
  cases old <;> cases new <;> simp [contentEqual, TreeEntry.Differs, entryMode, TreeEntry.ModesDiffer, and_assoc]

theorem outlineAt_isSome (path : String) (old new : Option TreeEntry) :
    (∃ line, outlineAt path old new = some line) ↔ Changed old new := by
  cases old with
  | none => cases new <;> simp [outlineAt, Changed]
  | some old =>
      cases new with
      | none => simp [outlineAt, Changed]
      | some new =>
          have h := contentEqual_iff old new
          rw [Changed, outlineAt]
          split
          · next hsame => simpa using h.mp hsame
          · next hsame => simpa using not_not.mp fun hn => hsame (h.mpr hn)

theorem outlineAt_spec {path : String} {old new : Option TreeEntry} {line : String × ChangeKind × Option String}
    (h : outlineAt path old new = some line) :
    line.1 = path ∧ (line.2.1 = .added ↔ old = none) ∧ (line.2.1 = .deleted ↔ new = none) ∧
      (line.2.2.isSome = true ↔ ModeChanged old new) := by
  cases old with
  | none =>
      cases new with
      | none => cases h
      | some new =>
          cases h
          simp [ModeChanged]
  | some old =>
      cases new with
      | none =>
          cases h
          simp [ModeChanged]
      | some new =>
          rw [outlineAt] at h
          split at h <;> cases h
          simp [ModeChanged, modeNote_isSome]

theorem changed_of_get {path : String} (h : Changed (locked.get path) (current.get path)) :
    path ∈ paths locked current := by
  rw [mem_paths]
  cases hold : locked.get path with
  | some old => exact .inl ⟨old, rfl⟩
  | none =>
      cases hnew : current.get path with
      | some new => exact .inr ⟨new, rfl⟩
      | none =>
          rw [hold, hnew] at h
          exact h.elim

theorem tells_of_outlines {changes : List FileChange}
    (h : changes.map outline = outlines locked current (paths locked current)) : Tells locked current changes := by
  have hpath : ∀ {path line}, outlineAt path (locked.get path) (current.get path) = some line → line.1 = path :=
    fun h => (outlineAt_spec h).1
  have hpaths : changes.map (·.path) = (outlines locked current (paths locked current)).map (·.1) := by
    rw [← h, List.map_map]
    rfl
  have hmem : ∀ path, path ∈ changes.map (·.path) ↔ Changed (locked.get path) (current.get path) := by
    intro path
    rw [hpaths, List.mem_map]
    constructor
    · rintro ⟨line, hline, rfl⟩
      obtain ⟨k, -, hk⟩ := List.mem_filterMap.mp hline
      rw [hpath hk]
      exact (outlineAt_isSome k _ _).mp ⟨line, hk⟩
    · intro hchanged
      obtain ⟨line, hline⟩ := (outlineAt_isSome path _ _).mpr hchanged
      exact ⟨line, List.mem_filterMap.mpr ⟨path, changed_of_get hchanged, hline⟩, hpath hline⟩
  have hspec : ∀ change ∈ changes, outlineAt change.path (locked.get change.path) (current.get change.path) =
      some (outline change) := by
    intro change hchange
    have hline : outline change ∈ outlines locked current (paths locked current) := by
      rw [← h]
      exact List.mem_map_of_mem hchange
    obtain ⟨k, -, hk⟩ := List.mem_filterMap.mp hline
    have hkp : change.path = k := hpath hk
    rw [hkp]
    exact hk
  constructor
  case sorted =>
    have hsorted : (changes.map (·.path)).Pairwise (· < ·) := by
      rw [hpaths]
      apply List.Pairwise.map
      · exact fun _ _ hlt => hlt
      · apply List.Pairwise.filterMap _ _ (paths_sorted locked current)
        intro k l hlt line hline line' hline'
        rw [hpath hline, hpath hline']
        exact hlt
    exact List.pairwise_map.mp hsorted
  case reported => exact hmem
  case added => exact fun change hchange => (outlineAt_spec (hspec change hchange)).2.1
  case deleted => exact fun change hchange => (outlineAt_spec (hspec change hchange)).2.2.1
  case note => exact fun change hchange => (outlineAt_spec (hspec change hchange)).2.2.2
  case empty =>
    constructor
    · rintro rfl path
      exact (not_changed_iff _ _).mp fun hchanged => by simpa using (hmem path).mpr hchanged
    · intro hall
      cases changes with
      | nil => rfl
      | cons change rest =>
          have hchanged := (hmem change.path).mp (by simp)
          exact absurd hchanged ((not_changed_iff _ _).mpr (hall change.path))
  case replayed =>
    intro path
    rw [Tree.get_replay]
    split
    · exact unchanged_refl _
    · next hnot => exact (not_changed_iff _ _).mp fun hchanged => hnot ((hmem path).mpr hchanged)

/-- The diff of two trees, with the blobs and the files in reach, tells every change and
nothing else. -/
theorem diff_trees_tells (h : Readable w locked current blobsDir root) :
    ∃ changes, (diffTrees cfg locked current blobsDir root).exec (host cfg) w = (.ok changes, w) ∧
      Tells locked current changes := by
  obtain ⟨changes, hrun, hlines⟩ := diffTrees_exec cfg h
  exact ⟨changes, hrun, tells_of_outlines hlines⟩

theorem isName_a : (OsStr.text "a").IsName := by decide

/-- An emptied file, with its old content in the blob store. -/
def emptiedFile : World where
  canon := [([], .dir 0o755#12), ([⟨.text "a", isName_a⟩], .file 0o644#12 [])]
  containers _ :=
    { blobs :=
        [([], .dir 0o755#12),
          ([⟨.text "98ea6e4f216f2fb4b69fff9b3a44842c38686ca685f3f55dc48c5d3fb1107be4", by decide⟩],
            .file 0o644#12 [104, 105, 10])] }
  registry := none
  alive _ := false
  drawn := 0

def hello : Tree :=
  [("a", .file "98ea6e4f216f2fb4b69fff9b3a44842c38686ca685f3f55dc48c5d3fb1107be4" 3 (some 0o644#32))]

def emptied : Tree :=
  [("a", .file "e3b0c44298fc1c149afbf4c8996fb92427ae41e4649b934ca495991b7852b855" 0 (some 0o644#32))]

theorem readable_emptiedFile :
    Readable emptiedFile hello emptied (Strategy.blobsDir "w") Strategy.canonDir := by
  constructor
  · intro path sha256 size mode h
    simp only [hello, Tree.get] at h
    split at h
    · cases h
      exact ⟨(0o644#12, [104, 105, 10]), by decide⟩
    · cases h
  · intro path sha256 size mode h
    simp only [emptied, Tree.get] at h
    split at h
    · next hpath =>
        subst hpath
        exact ⟨(0o644#12, []), by decide⟩
    · cases h

theorem diff_trees_tells_emptied :
    ∃ changes, (diffTrees desktop hello emptied (Strategy.blobsDir "w") Strategy.canonDir).exec
        (host desktop) emptiedFile = (.ok changes, emptiedFile) ∧ Tells hello emptied changes :=
  diff_trees_tells desktop readable_emptiedFile

/-- A locked entry from before modes were recorded is left without its mode. -/
theorem replay_without_recorded_mode :
    ∃ w locked current changes, Readable w locked current (Strategy.blobsDir "w") Strategy.canonDir ∧
      (diffTrees desktop locked current (Strategy.blobsDir "w") Strategy.canonDir).exec (host desktop) w =
        (.ok changes, w) ∧
      (Tree.replay current locked (changes.map (·.path))).get "src" ≠ current.get "src" := by
  refine ⟨emptiedFile, [("src", .dir none)], [("src", .dir (some 0o755#32))], [], ⟨?_, ?_⟩, rfl, by decide⟩
  · intro path sha256 size mode h
    simp only [Tree.get] at h
    split at h <;> cases h
  · intro path sha256 size mode h
    simp only [Tree.get] at h
    split at h <;> cases h

end Diff

end Silo.Workspace
