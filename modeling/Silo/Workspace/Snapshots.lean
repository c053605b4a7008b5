import Silo.Workspace.Listing

namespace Silo.Workspace

open Silo.Lib

variable {cfg : Config} {w : World}

theorem fs_exec {α : Type} {o : FsOp (Except Errno α)} {a : α} {w' : World} (h : o.perform cfg w = (.ok a, w')) :
    (fs o).exec (host cfg) w = (.ok a, w') := by
  rw [fs, Io.exec_call, host_run, Bool.false_and]
  simp [h]

namespace Snapshot

variable {t : FileTree} {tree : Tree}

theorem pathToString_of_textual (ht : t.Textual) {p : Path} {target : OsStr} (h : t.get p = some (.symlink target)) :
    pathToString target = .ok (linkText target) := by
  obtain ⟨s, rfl⟩ := ht.targets p target h
  rfl

/-- The walk of a tree, with a way to record its files that leaves the tree alone and
what it has stored in place. -/
theorem scanDir_exec (fileEntry : Loc → Host (String × Nat)) (I : World → Prop) (Has : Bytes → World → Prop)
    (ht : t.Textual) (hs : t.Sound) (hsee : ∀ {w}, I w → w.tree .canon = t)
    (hfile : ∀ {w p mode bytes}, I w → t.get p = some (.file mode bytes) →
      ∃ w', (fileEntry ⟨.canon, p⟩).exec (host cfg) w = (.ok ((cfg.sha256 bytes).1, bytes.length), w') ∧ I w' ∧
        (∀ b, Has b w → Has b w') ∧ Has bytes w')
    {depth : Nat} {dir : Path} {m : Mode} (hdir : t.get dir = some (.dir m)) (hwithin : t.Within dir depth)
    (tree : Tree) (hw : I w) :
    ∃ w', (scanDir fileEntry (depth + 1) tree ⟨.canon, dir⟩).exec (host cfg) w =
        (.ok (listing cfg t (depth + 1) tree dir), w') ∧ I w' ∧ (∀ b, Has b w → Has b w') ∧
      ∀ n, n ∈ t.names dir → ∀ r mode bytes, t.get (r ++ n :: dir) = some (.file mode bytes) → Has bytes w' := by
  induction depth generalizing dir m tree w with
  | zero =>
      have hnames : t.names dir = [] := by
        rw [FileTree.names_eq_nil]
        intro n
        by_contra hn
        have hlen := hwithin [n] hn
        simp at hlen
      have hread : (w.tree .canon).readDir dir = .ok [] := by rw [hsee hw, hs.readDir hdir, hnames]
      refine ⟨w, ?_, hw, fun _ h => h, by simp [hnames]⟩
      rw [scanDir, Io.exec_bind_ok _ (fs_exec (by rw [FsOp.perform, hread])), listing_succ, hnames]
      rfl
  | succ depth ih =>
      have hread : (w.tree .canon).readDir dir = .ok (t.names dir) := by rw [hsee hw, hs.readDir hdir]
      rw [scanDir, Io.exec_bind_ok _ (fs_exec (by rw [FsOp.perform, hread])), listing_succ]
      refine (Io.exec_fold (H := host cfg) (fun tree n => visit cfg t (depth + 1) tree (n :: dir))
        (fun w w' => ∀ b, Has b w → Has b w') I
        (fun n w => ∀ r mode bytes, t.get (r ++ n :: dir) = some (.file mode bytes) → Has bytes w)
        (fun _ _ h => h) (fun hst htu b h => htu b (hst b h)) (fun hq hst r mode bytes h => hst _ (hq r mode bytes h))
        ?_ tree hw)
      intro tree n w hn hw
      obtain ⟨node, hnode⟩ := Option.ne_none_iff_exists'.mp (FileTree.mem_names.mp hn)
      have hstat : (w.tree .canon).lstat (n :: dir) = .ok node := by rw [hsee hw, hs.lstat hnode]
      have hkey : Path.toText (n :: dir) = .ok (Path.key (n :: dir)) := by
        apply Path.toText_of_textual
        apply ht.names
        rw [hnode]
        exact Option.some_ne_none _
      -- nothing stands below an entry that is not a directory
      have halone : (∀ mode, node ≠ .dir mode) → ∀ r : Path, t.get (r ++ n :: dir) ≠ none → r = [] := by
        intro hnot r hr
        by_contra hne
        obtain ⟨mode, hmode⟩ := hs.dir_above hr hne
        exact hnot mode (Option.some.inj (hnode.symm.trans hmode))
      have hlstat : (fs (.lstat ⟨.canon, n :: dir⟩)).exec (host cfg) w = (.ok node, w) :=
        fs_exec (by rw [FsOp.perform, hstat])
      rw [Loc.child, Io.exec_bind_ok _ hlstat, hkey, Io.exec_bind_ok _ (Io.exec_ofExcept _)]
      cases node with
      | symlink target =>
          have hlink : (w.tree .canon).readLink (n :: dir) = .ok target := by rw [hsee hw, hs.readLink hnode]
          refine ⟨w, ?_, hw, fun _ h => h, ?_⟩
          · rw [Io.exec_bind_ok _ (fs_exec (by rw [FsOp.perform, hlink])), pathToString_of_textual ht hnode,
              Io.exec_bind_ok _ (Io.exec_ofExcept _), visit, hnode]
            rfl
          · intro r mode bytes hr
            have hnil := halone (by simp) r (by rw [hr]; exact Option.some_ne_none _)
            rw [hnil, List.nil_append, hnode] at hr
            cases hr
      | dir mode =>
          obtain ⟨w', hrun, hw', hkept, hfound⟩ := ih hnode (hwithin.child n)
            (tree.insert (Path.key (n :: dir)) (recordOf cfg (.dir mode))) hw
          refine ⟨w', ?_, hw', hkept, ?_⟩
          · rw [entryMode, Io.exec_bind_ok _ (Io.exec_bind_ok _ hlstat), visit, hnode]
            exact hrun
          · intro r mode' bytes hr
            cases r using List.reverseRecOn with
            | nil =>
                rw [List.nil_append, hnode] at hr
                cases hr
            | append_singleton r k =>
                have hr' : t.get (r ++ k :: n :: dir) = some (.file mode' bytes) := by simpa using hr
                apply hfound k _ r mode' bytes hr'
                rw [FileTree.mem_names]
                by_contra hnone
                rw [hs.none_below hnone r] at hr'
                cases hr'
      | file mode bytes =>
          obtain ⟨w', hrun, hw', hkept, hhas⟩ := hfile hw hnode
          have hlstat' : (fs (.lstat ⟨.canon, n :: dir⟩)).exec (host cfg) w' = (.ok (.file mode bytes), w') :=
            fs_exec (by rw [FsOp.perform, hsee hw', hs.lstat hnode])
          refine ⟨w', ?_, hw', hkept, ?_⟩
          · rw [Io.exec_bind_ok _ hrun, entryMode, Io.exec_bind_ok _ (Io.exec_bind_ok _ hlstat'), visit, hnode]
            rfl
          · intro r mode' bytes' hr
            have hnil := halone (by simp) r (by rw [hr]; exact Option.some_ne_none _)
            rw [hnil, List.nil_append, hnode] at hr
            cases hr
            exact hhas

/-- What the code relies on from the hash: no two contents collide, and no digest is the
name of the temporary file. -/
structure Collisionless (cfg : Config) : Prop where
  injective : ∀ b b', cfg.sha256 b = cfg.sha256 b' → b = b'
  apart : ∀ b, (cfg.sha256 b).1 ≠ ".incoming"

theorem blobName_injective (hc : Collisionless cfg) {b b' : Bytes} (h : blobName cfg b = blobName cfg b') : b = b' := by
  apply hc.injective
  have htext := congrArg Subtype.val h
  simp only [blobName, OsStr.text.injEq] at htext
  exact Subtype.ext htext

theorem blobName_ne_incoming (hc : Collisionless cfg) (b : Bytes) : blobName cfg b ≠ incoming := by
  intro h
  have htext := congrArg Subtype.val h
  simp only [blobName, incoming, OsStr.text.injEq] at htext
  exact hc.apart b htext

/-- A blob directory: its entries are complete blobs, and perhaps a temporary file that an
earlier snapshot left. -/
structure Store (cfg : Config) (blobs : FileTree) : Prop where
  root : ∃ m : Mode, blobs.get [] = some (.dir m) ∧ m.canWrite = true ∧ m.canSearch = true
  leftover : ∀ i, blobs.get [incoming] = some i → ∃ m bytes, i = .file m bytes ∧ m.canWrite = true
  complete : ∀ n i, n ≠ incoming → blobs.get [n] = some i → ∃ m bytes, i = .file m bytes ∧ n = blobName cfg bytes

namespace Store

variable {blobs blobs' : FileTree}

theorem mayChange (h : Store cfg blobs) (n : Name) : blobs.mayChange [n] = .ok () := by
  obtain ⟨m, hroot, hw, hsearch⟩ := h.root
  exact FileTree.mayChange_cons rfl hroot hw hsearch n

theorem reach (h : Store cfg blobs) (n : Name) : blobs.reach [n] = .ok () := by
  obtain ⟨m, hroot, -, hsearch⟩ := h.root
  exact FileTree.reach_cons rfl hroot hsearch n

/-- Only the name of the temporary file counts besides the blobs and the root. -/
theorem congr (h : Store cfg blobs) (hroot : blobs'.get [] = blobs.get [])
    (hblobs : ∀ n, n ≠ incoming → blobs'.get [n] = blobs.get [n])
    (hleft : ∀ i, blobs'.get [incoming] = some i → ∃ m bytes, i = .file m bytes ∧ m.canWrite = true) :
    Store cfg blobs' := by
  refine ⟨hroot ▸ h.root, hleft, ?_⟩
  intro n i hn hi
  exact h.complete n i hn (hblobs n hn ▸ hi)

theorem create (h : Store cfg blobs) :
    ∃ m : Mode, m.canWrite = true ∧
      blobs.create [incoming] (0o666#12 &&& ~~~cfg.umask) = .ok (blobs.insert [incoming] (.file m [])) := by
  cases hi : blobs.get [incoming] with
  | none =>
      refine ⟨0o666#12 &&& ~~~cfg.umask, ?_, ?_⟩
      · have howner := congrArg (fun m : Mode => m.getLsbD 7) cfg.umask_owner
        simpa [Mode.canWrite] using howner
      · have hstat : blobs.lstat [incoming] = .error .notFound := by
          rw [FileTree.lstat, h.reach, hi]
        rw [FileTree.create, hstat]
        exact FileTree.add_of_none hi (h.mayChange incoming)
  | some i =>
      obtain ⟨m, bytes, rfl, hm⟩ := h.leftover i hi
      refine ⟨m, hm, ?_⟩
      rw [FileTree.create, FileTree.lstat_of_reach (h.reach incoming) hi]
      simp [hm]

theorem insert (h : Store cfg blobs) {m : Mode} (hm : m.canWrite = true) (bytes : Bytes) :
    Store cfg (blobs.insert [incoming] (.file m bytes)) := by
  apply h.congr
  · exact FileTree.get_insert_of_ne (by simp)
  · exact fun n hn => FileTree.get_insert_of_ne (by simpa using hn.symm)
  · intro i hi
    rw [FileTree.get_insert_self] at hi
    cases hi
    exact ⟨m, bytes, rfl, hm⟩

theorem unlink (h : Store cfg blobs) {i : Inode} (hi : blobs.get [incoming] = some i) :
    blobs.unlink [incoming] = .ok (blobs.prune [incoming]) := by
  obtain ⟨m, bytes, rfl, -⟩ := h.leftover i hi
  rw [FileTree.unlink, FileTree.lstat_of_reach (h.reach incoming) hi, h.mayChange incoming]

theorem get_prune {p : Path} (hp : p ≠ [incoming]) (hlen : p.length ≤ 1) :
    (blobs.prune [incoming]).get p = blobs.get p := by
  apply FileTree.get_prune_of_not
  intro hsuffix
  have hl := hsuffix.length_le
  simp only [List.length_singleton] at hl
  exact hp (hsuffix.eq_of_length (by simp; omega)).symm

theorem prune (h : Store cfg blobs) : Store cfg (blobs.prune [incoming]) := by
  apply h.congr
  · exact get_prune (by simp) (by simp)
  · exact fun n hn => get_prune (by simpa using hn) (by simp)
  · intro i hi
    rw [FileTree.get_prune, if_pos (List.suffix_refl _)] at hi
    cases hi

def renamed (blobs : FileTree) (n : Name) : FileTree :=
  blobs.moved [incoming] [n] ++ (blobs.prune [incoming]).prune [n]

theorem get_renamed_self (n : Name) {i : Inode} (hi : blobs.get [incoming] = some i) :
    (renamed blobs n).get [n] = some i := by
  have hmoved : (blobs.moved [incoming] [n]).get [n] = blobs.get [incoming] :=
    FileTree.get_moved_below (r := [])
  rw [renamed, FileTree.get_append, hmoved, hi]
  rfl

theorem get_renamed_of_ne {n : Name} {p : Path} (hp : p ≠ [n]) (hlen : p.length ≤ 1) :
    (renamed blobs n).get p = (blobs.prune [incoming]).get p := by
  have hnot : ¬ [n] <:+ p := by
    intro hsuffix
    have hl := hsuffix.length_le
    simp only [List.length_singleton] at hl
    exact hp (hsuffix.eq_of_length (by simp; omega)).symm
  rw [renamed, FileTree.get_append, FileTree.get_moved_of_not hnot, FileTree.get_prune_of_not hnot]
  rfl

theorem rename (h : Store cfg blobs) {n : Name} (hn : blobs.get [n] = none) {m : Mode} {bytes : Bytes}
    (hi : blobs.get [incoming] = some (.file m bytes)) :
    blobs.rename [incoming] blobs [n] =
      .ok (blobs.prune [incoming], blobs.moved [incoming] [n] ++ blobs.prune [n]) := by
  rw [FileTree.rename, FileTree.lstat_of_reach (h.reach incoming) hi, h.mayChange incoming, h.mayChange n]
  simp [Inode.movable, FileTree.replaceable, hn]

theorem store_renamed (hc : Collisionless cfg) (h : Store cfg blobs) {m : Mode} {bytes : Bytes}
    (hi : blobs.get [incoming] = some (.file m bytes)) : Store cfg (renamed blobs (blobName cfg bytes)) := by
  have hne : ([incoming] : Path) ≠ [blobName cfg bytes] := by
    simpa using (blobName_ne_incoming hc bytes).symm
  constructor
  · rw [get_renamed_of_ne (by simp) (by simp)]
    exact h.prune.root
  · intro i hget
    rw [get_renamed_of_ne hne (by simp)] at hget
    exact h.prune.leftover i hget
  · intro k i hk hget
    by_cases hkn : k = blobName cfg bytes
    · rw [hkn, get_renamed_self _ hi] at hget
      cases hget
      exact ⟨m, bytes, rfl, hkn⟩
    · rw [get_renamed_of_ne (by simpa using hkn) (by simp)] at hget
      exact h.prune.complete k i hk hget

end Store

/-- The content is in the blob store, under its hash. -/
def Has (cfg : Config) (id : String) (bytes : Bytes) (w : World) : Prop :=
  ∃ m, (w.tree (.blobs id)).get [blobName cfg bytes] = some (.file m bytes)

theorem storeFileBlob_exec (hc : Collisionless cfg) {id : String} (hs : t.Sound) (hcanon : w.tree .canon = t)
    (hstore : Store cfg (w.tree (.blobs id))) {p : Path} {mode : Mode} {bytes : Bytes}
    (hget : t.get p = some (.file mode bytes)) :
    ∃ w', (storeFileBlob cfg (Strategy.blobsDir id) ⟨.canon, p⟩).exec (host cfg) w =
        (.ok ((cfg.sha256 bytes).1, bytes.length), w') ∧
      (w'.tree .canon = t ∧ Store cfg (w'.tree (.blobs id))) ∧ (∀ b, Has cfg id b w → Has cfg id b w') ∧
      Has cfg id bytes w' := by
  obtain ⟨m, hm, hcreate⟩ := hstore.create
  let blobs := w.tree (.blobs id)
  let full := (blobs.insert [incoming] (.file m [])).insert [incoming] (.file m bytes)
  have htreeOf : ∀ u, (w.setTree u (.blobs id)).tree (.blobs id) = u := fun u => World.tree_setTree trivial
  have hread : (fs (.openRead ⟨.canon, p⟩)).exec (host cfg) w = (.ok (mode, bytes), w) :=
    fs_exec (by rw [FsOp.perform, hcanon, hs.openRead hget])
  have hmake : (fs (.create ((Strategy.blobsDir id).child incoming) 0o666#12)).exec (host cfg) w =
      (.ok (), w.setTree (blobs.insert [incoming] (.file m [])) (.blobs id)) := by
    apply fs_exec
    rw [FsOp.perform, World.update]
    simp only [Strategy.blobsDir, Loc.child, hcreate]
    rfl
  have hwrite : (fs (.write ((Strategy.blobsDir id).child incoming) bytes)).exec (host cfg)
      (w.setTree (blobs.insert [incoming] (.file m [])) (.blobs id)) =
      (.ok (), w.setTree full (.blobs id)) := by
    apply fs_exec
    rw [FsOp.perform, World.update]
    simp only [Strategy.blobsDir, Loc.child]
    rw [htreeOf, FileTree.write, FileTree.get_insert_self]
    simp only [World.setTree_setTree]
    rfl
  have hfull : Store cfg full := (hstore.insert hm []).insert hm bytes
  have hincoming : full.get [incoming] = some (.file m bytes) := FileTree.get_insert_self
  have hne : blobName cfg bytes ≠ incoming := blobName_ne_incoming hc bytes
  have hfullOf : ∀ n, n ≠ incoming → full.get [n] = blobs.get [n] := by
    intro n hn
    rw [FileTree.get_insert_of_ne (by simpa using hn.symm), FileTree.get_insert_of_ne (by simpa using hn.symm)]
  have hcanon' : ∀ u, (w.setTree u (.blobs id)).tree .canon = t := by
    intro u
    rw [World.tree_setTree_of_ne (by simp), hcanon]
  have hask (there : Bool) (hthere : (full.lstat [blobName cfg bytes]).toBool = there) :
      (Io.ask (.present ((Strategy.blobsDir id).child ⟨.text (cfg.sha256 bytes).1, (cfg.sha256 bytes).2⟩)) :
        Host Bool).exec (host cfg) (w.setTree full (.blobs id)) = (.ok there, w.setTree full (.blobs id)) := by
    rw [← hthere, Io.exec_ask, host_run]
    simp only [Bool.false_and, Bool.false_eq_true, if_false, FsOp.perform, Strategy.blobsDir, Loc.child, htreeOf]
    rw [blobName]
    cases full.lstat [⟨.text (cfg.sha256 bytes).1, (cfg.sha256 bytes).2⟩] <;> rfl
  rw [storeFileBlob, Io.exec_bind_ok _ hread, Io.exec_bind_ok _ hmake, Io.exec_bind_ok _ hwrite]
  cases hblob : full.get [blobName cfg bytes] with
  | some i =>
      -- the blob is there: the copy goes
      obtain ⟨m', bytes', rfl, hname⟩ := hfull.complete _ i hne hblob
      have hsame := blobName_injective hc hname
      subst hsame
      refine ⟨w.setTree (full.prune [incoming]) (.blobs id), ?_, ⟨hcanon' _, ?_⟩, ?_, ?_⟩
      · have hpresent : full.lstat [blobName cfg bytes] = .ok (.file m' bytes) :=
          FileTree.lstat_of_reach (hfull.reach _) hblob
        have hunlink : (fs (.unlink ((Strategy.blobsDir id).child incoming))).exec (host cfg)
            (w.setTree full (.blobs id)) = (.ok (), w.setTree (full.prune [incoming]) (.blobs id)) := by
          apply fs_exec
          rw [FsOp.perform, World.update]
          simp only [Strategy.blobsDir, Loc.child, htreeOf, hfull.unlink hincoming, World.setTree_setTree]
        rw [Io.exec_bind_ok _ (hask true (by rw [hpresent]; rfl)), if_pos rfl, Io.exec_bind_ok _ hunlink]
        rfl
      · rw [htreeOf]
        exact hfull.prune
      · rintro b ⟨mb, hb⟩
        refine ⟨mb, ?_⟩
        have hbn := blobName_ne_incoming hc b
        rw [htreeOf, Store.get_prune (by simpa using hbn) (by simp), hfullOf _ hbn]
        exact hb
      · refine ⟨m', ?_⟩
        rw [htreeOf, Store.get_prune (by simpa using hne) (by simp)]
        exact hblob
  | none =>
      refine ⟨w.setTree (Store.renamed full (blobName cfg bytes)) (.blobs id), ?_, ⟨hcanon' _, ?_⟩, ?_, ?_⟩
      · have habsent : full.lstat [blobName cfg bytes] = .error .notFound := by
          rw [FileTree.lstat, hfull.reach, hblob]
        have hrename : (fs (.rename ((Strategy.blobsDir id).child incoming)
            ((Strategy.blobsDir id).child ⟨.text (cfg.sha256 bytes).1, (cfg.sha256 bytes).2⟩))).exec (host cfg)
            (w.setTree full (.blobs id)) =
            (.ok (), w.setTree (Store.renamed full (blobName cfg bytes)) (.blobs id)) := by
          apply fs_exec
          rw [FsOp.perform, World.rename]
          have hrename' := hfull.rename hblob hincoming
          rw [blobName] at hrename'
          simp only [Strategy.blobsDir, Loc.child, World.sameDevice, htreeOf, hrename', World.setTree_setTree]
          simp [Store.renamed, blobName]
        rw [Io.exec_bind_ok _ (hask false (by rw [habsent]; rfl)), if_neg Bool.false_ne_true,
          Io.exec_bind_ok _ hrename]
        rfl
      · rw [htreeOf]
        exact Store.store_renamed hc hfull hincoming
      · rintro b ⟨mb, hb⟩
        refine ⟨mb, ?_⟩
        have hbn := blobName_ne_incoming hc b
        have hbb : blobName cfg b ≠ blobName cfg bytes := by
          intro heq
          have hold := (hfullOf _ hbn).trans hb
          rw [heq, hblob] at hold
          cases hold
        rw [htreeOf, Store.get_renamed_of_ne (by simpa using hbb) (by simp),
          Store.get_prune (by simpa using hbn) (by simp), hfullOf _ hbn]
        exact hb
      · refine ⟨m, ?_⟩
        rw [htreeOf]
        exact Store.get_renamed_self _ hincoming

/-- The tree has one record for each path below the root. -/
structure Records (cfg : Config) (t : FileTree) (tree : Tree) : Prop where
  sorted : tree.Sorted
  recorded : ∀ path entry, tree.get path = some entry ↔
    ∃ (p : Path) (node : Inode), p ≠ [] ∧ t.get p = some node ∧ p.key = path ∧ entry = recordOf cfg node

theorem records_listing (ht : t.Textual) (hs : t.Sound) {depth : Nat} (hwithin : t.Within [] depth) :
    Records cfg t (listing cfg t depth [] []) := by
  refine ⟨sorted_listing .nil depth [], ?_⟩
  intro path entry
  have hget : ∀ {p : Path} {node : Inode}, p ≠ [] → t.get p = some node →
      (listing cfg t depth [] []).get p.key = some (recordOf cfg node) := by
    intro p node hp hnode
    have hlist : (listing cfg t depth [] []).get (Path.key (p ++ [])) = _ :=
      get_listing ht hs hwithin hp (by simpa using hnode)
    simpa using hlist
  constructor
  · intro hentry
    by_contra hnone
    have hkept : (listing cfg t depth [] []).get path = Tree.get [] path := by
      apply get_listing_of_ne
      intro r hr hnode hkey
      rw [List.append_nil] at hnode hkey
      obtain ⟨node, hnode⟩ := Option.ne_none_iff_exists'.mp hnode
      have hrec := hget hr hnode
      rw [hkey, hentry] at hrec
      exact hnone ⟨r, node, hr, hnode, hkey, Option.some.inj hrec⟩
    rw [hkept] at hentry
    cases hentry
  · rintro ⟨p, node, hp, hnode, rfl, rfl⟩
    exact hget hp hnode

theorem collect_fromTree {tree : Tree} (h : tree.Sorted) :
    collect (tree.map fun (path, entry) => ManifestEntry.fromTree path entry) = .ok tree := by
  induction tree with
  | nil => rfl
  | cons e tree ih =>
      obtain ⟨path, entry⟩ := e
      obtain ⟨hpath, htree⟩ := List.pairwise_cons.mp h
      have hinto : (ManifestEntry.fromTree path entry).intoTree = .ok (path, entry) := by cases entry <;> rfl
      have hnone : Tree.get tree path = none := by
        by_contra hsome
        obtain ⟨entry', hentry⟩ := Option.ne_none_iff_exists'.mp hsome
        obtain ⟨e, he, heq⟩ := List.mem_map.mp (Tree.mem_keys_iff.mpr ⟨entry', hentry⟩)
        have hlt := hpath e he
        rw [heq] at hlt
        exact String.lt_irrefl path hlt
      have hinsert : Tree.insert tree path entry = (path, entry) :: tree := by
        cases tree with
        | nil => rfl
        | cons e tree =>
            obtain ⟨k, v⟩ := e
            have hlt : path < k := hpath (k, v) List.mem_cons_self
            have hne : k ≠ path := by
              rintro rfl
              exact String.lt_irrefl k hlt
            rw [Tree.insert, if_neg hne, if_pos hlt]
      rw [List.map_cons, collect, hinto, ih htree]
      simp [hnone, hinsert]

/-- A record with all that its kind needs. -/
def Complete (m : ManifestEntry) : Prop :=
  match m.kind with
  | .file => m.sha256.isSome = true ∧ m.size.isSome = true
  | .symlink => m.symlinkTarget.isSome = true
  | .dir => True

theorem complete_of_intoTree {m : ManifestEntry} {record : String × TreeEntry} (h : m.intoTree = .ok record) :
    Complete m := by
  rw [ManifestEntry.intoTree] at h
  rw [Complete]
  cases hkind : m.kind with
  | file =>
      simp only [hkind] at h
      cases hsha : m.sha256 <;> cases hsize : m.size <;> simp [hsha, hsize] at h ⊢
  | symlink =>
      simp only [hkind] at h
      cases htarget : m.symlinkTarget <;> simp [htarget] at h ⊢
  | dir => trivial

theorem complete_of_collect {entries : List ManifestEntry} {tree : Tree} (h : collect entries = .ok tree) :
    ∀ m ∈ entries, Complete m := by
  induction entries generalizing tree with
  | nil => simp
  | cons m entries ih =>
      rw [collect] at h
      split at h
      · cases h
      · cases h
      · next path entry rest hm hrest =>
          intro m' hm'
          rcases List.mem_cons.mp hm' with rfl | hm'
          · exact complete_of_intoTree hm
          · exact ih hrest m' hm'

/-- Whatever fails on the way, a manifest that loads is one of complete records. -/
theorem loadManifest_run (id : String) (failures : List Bool) (w : World) {tree : Tree}
    (h : (Prog.run (host cfg) (loadManifest id) failures w).1 = .ok tree) :
    ∃ entries, (w.containers id).manifest = some entries ∧ ∀ m ∈ entries, Complete m := by
  have hwp : ∀ F : Prog.Faults FsOp World, (loadManifest id).wp (host cfg) F (fun r _ => ∀ tree, r = .ok tree →
      ∃ entries, (w.containers id).manifest = some entries ∧ ∀ m ∈ entries, Complete m) w := by
    intro F
    rw [loadManifest, Io.wp_bind, fs, Io.wp_call]
    intro b _
    rcases host_cases cfg (.readManifest id) b w with hrun | hrun
    · rw [hrun]
      simp [FsOp.failure]
    · rw [hrun, FsOp.perform]
      cases hentries : (w.containers id).manifest with
      | none => simp
      | some entries =>
          simp only [Option.elim_some]
          cases hcollect : collect entries with
          | error e => exact fun tree htree => by cases htree
          | ok tree' => exact fun tree _ => ⟨entries, rfl, complete_of_collect hcollect⟩
  exact Prog.run_of_wp (hwp fun _ _ _ _ => True) (Prog.admits_of_forall (fun _ _ _ _ => trivial) _ _ _) tree h

/-- A tree that can be walked: readable, with text for names, and not too deep. -/
structure Walkable (cfg : Config) (t : FileTree) : Prop where
  sound : t.Sound
  textual : t.Textual
  shallow : ∀ p, t.get p ≠ none → p.length < cfg.depth

theorem Walkable.within {t : FileTree} (h : Walkable cfg t) : ∃ depth, cfg.depth = depth + 1 ∧ t.Within [] depth := by
  obtain ⟨m, hroot⟩ := h.sound.root
  have hpos := h.shallow [] (by rw [hroot]; exact Option.some_ne_none _)
  refine ⟨cfg.depth - 1, by simp only [List.length_nil] at hpos; omega, ?_⟩
  intro r hr
  have hlen := h.shallow r (by simpa using hr)
  omega

theorem scanTree_exec (fileEntry : Loc → Host (String × Nat)) (I : World → Prop) (Has : Bytes → World → Prop)
    (h : Walkable cfg t) (hsee : ∀ {w}, I w → w.tree .canon = t)
    (hfile : ∀ {w p mode bytes}, I w → t.get p = some (.file mode bytes) →
      ∃ w', (fileEntry ⟨.canon, p⟩).exec (host cfg) w = (.ok ((cfg.sha256 bytes).1, bytes.length), w') ∧ I w' ∧
        (∀ b, Has b w → Has b w') ∧ Has bytes w') (hw : I w) :
    ∃ w', (scanTree cfg fileEntry Strategy.canonDir).exec (host cfg) w =
        (.ok (listing cfg t cfg.depth [] []), w') ∧ I w' ∧
      ∀ p mode bytes, t.get p = some (.file mode bytes) → Has bytes w' := by
  obtain ⟨depth, hdepth, hwithin⟩ := h.within
  obtain ⟨m, hroot⟩ := h.sound.root
  obtain ⟨w', hrun, hw', -, hhas⟩ := scanDir_exec fileEntry I Has h.textual h.sound hsee hfile hroot hwithin [] hw
  refine ⟨w', ?_, hw', ?_⟩
  · rw [scanTree, hdepth]
    exact hrun
  · intro p mode bytes hp
    cases p using List.reverseRecOn with
    | nil =>
        rw [hroot] at hp
        cases hp
    | append_singleton r n =>
        apply hhas n _ r mode bytes (by simpa using hp)
        rw [FileTree.mem_names]
        by_contra hnone
        rw [h.sound.none_below hnone r] at hp
        cases hp

/-- A walk of the tree reads what its listing says and changes nothing. -/
theorem walkTree_exec (h : Walkable cfg (w.tree .canon)) :
    (walkTree cfg Strategy.canonDir).exec (host cfg) w = (.ok (listing cfg (w.tree .canon) cfg.depth [] []), w) := by
  have hscan := scanTree_exec (hashFile cfg) (fun w' => w' = w) (fun _ _ => True) h
    (fun h => by rw [h]) (fun {w'} {p} {mode} {bytes} hw hget => by
      subst hw
      refine ⟨w', ?_, rfl, fun _ h => h, trivial⟩
      rw [hashFile, Io.exec_bind_ok _ (fs_exec (by rw [FsOp.perform, h.sound.openRead hget]))]
      rfl) rfl
  obtain ⟨w', hrun, rfl, -⟩ := hscan
  exact hrun

theorem createBlobsDir_exec {id : String} (h : w.tree (.blobs id) = [] ∨ Store cfg (w.tree (.blobs id))) :
    ∃ w', (fs (.createDirAll (Strategy.blobsDir id))).exec (host cfg) w = (.ok (), w') ∧
      w'.tree .canon = w.tree .canon ∧ Store cfg (w'.tree (.blobs id)) := by
  rcases h with hnew | hstore
  · refine ⟨w.setTree [([], .dir (World.dirMode cfg))] (.blobs id), ?_, World.tree_setTree_of_ne (by simp), ?_⟩
    · apply fs_exec
      rw [FsOp.perform, World.update]
      simp only [Strategy.blobsDir, hnew]
      rfl
    · have htree : (w.setTree [([], .dir (World.dirMode cfg))] (.blobs id)).tree (.blobs id) =
          [([], .dir (World.dirMode cfg))] := World.tree_setTree trivial
      have hwrite := congrArg (fun m : Mode => m.getLsbD 7) cfg.umask_owner
      have hsearch := congrArg (fun m : Mode => m.getLsbD 6) cfg.umask_owner
      rw [htree]
      refine ⟨⟨World.dirMode cfg, rfl, ?_, ?_⟩, ?_, ?_⟩
      · simpa [Mode.canWrite, World.dirMode] using hwrite
      · simpa [Mode.canSearch, World.dirMode] using hsearch
      · intro i hi
        simp [FileTree.get] at hi
      · intro n i _ hi
        simp [FileTree.get] at hi
  · obtain ⟨m, hroot, -, -⟩ := hstore.root
    refine ⟨w.setTree (w.tree (.blobs id)) (.blobs id), ?_, World.tree_setTree_of_ne (by simp), ?_⟩
    · apply fs_exec
      rw [FsOp.perform, World.update]
      simp only [Strategy.blobsDir, FileTree.mkdir, FileTree.lstat_of_reach rfl hroot]
    · have htree : (w.setTree (w.tree (.blobs id)) (.blobs id)).tree (.blobs id) = w.tree (.blobs id) :=
        World.tree_setTree trivial
      rw [htree]
      exact hstore

theorem manifest_exec {id : String} {tree : Tree} (h : tree.Sorted) :
    ((writeManifest id tree >>= fun _ => loadManifest id).exec (host cfg) w).1 = .ok tree := by
  have hwrite : (writeManifest id tree).exec (host cfg) w = (.ok (), w.setContainer id
      { w.containers id with
        manifest := some (tree.map fun (path, entry) => ManifestEntry.fromTree path entry) }) :=
    fs_exec rfl
  have hread : (fs (.readManifest id)).exec (host cfg) (w.setContainer id
      { w.containers id with
        manifest := some (tree.map fun (path, entry) => ManifestEntry.fromTree path entry) }) =
      (.ok (tree.map fun (path, entry) => ManifestEntry.fromTree path entry), _) :=
    fs_exec (by rw [FsOp.perform, World.setContainer_self]; rfl)
  rw [Io.exec_bind_ok _ hwrite, loadManifest, Io.exec_bind_ok _ hread, collect_fromTree h]
  rfl

/-- Snapshots of trees of readable text-named files, directories and links record every path
once, keep every content under its hash, and are what a walk and a reload give again; and
only complete manifests load. -/
theorem snapshot_faithful (hc : Collisionless cfg) {id : String} (h : Walkable cfg (w.tree .canon))
    (hblobs : w.tree (.blobs id) = [] ∨ Store cfg (w.tree (.blobs id))) :
    (∃ tree w', (snapshot cfg Strategy.canonDir (Strategy.blobsDir id)).exec (host cfg) w = (.ok tree, w') ∧
      w'.tree .canon = w.tree .canon ∧ Records cfg (w.tree .canon) tree ∧
      (∀ p mode bytes, (w.tree .canon).get p = some (.file mode bytes) → Has cfg id bytes w') ∧
      (walkTree cfg Strategy.canonDir).exec (host cfg) w' = (.ok tree, w') ∧
      ((writeManifest id tree >>= fun _ => loadManifest id).exec (host cfg) w').1 = .ok tree) ∧
    ∀ failures w tree, (Prog.run (host cfg) (loadManifest id) failures w).1 = .ok tree →
      ∃ entries, (w.containers id).manifest = some entries ∧ ∀ m ∈ entries, Complete m := by
  refine ⟨?_, fun failures w tree => loadManifest_run id failures w⟩
  obtain ⟨w₁, hmake, hcanon, hstore⟩ := createBlobsDir_exec hblobs
  have hscan := scanTree_exec (storeFileBlob cfg (Strategy.blobsDir id))
    (fun w' => w'.tree .canon = w.tree .canon ∧ Store cfg (w'.tree (.blobs id))) (Has cfg id) h (fun h => h.1)
    (fun hw hget => storeFileBlob_exec hc h.sound hw.1 hw.2 hget) ⟨hcanon, hstore⟩
  obtain ⟨w₂, hrun, ⟨hcanon₂, -⟩, hhas⟩ := hscan
  obtain ⟨depth, hdepth, hwithin⟩ := h.within
  have hrecords : Records cfg (w.tree .canon) (listing cfg (w.tree .canon) cfg.depth [] []) := by
    apply records_listing h.textual h.sound
    intro r hr
    have := hwithin r hr
    omega
  refine ⟨_, w₂, ?_, hcanon₂, hrecords, hhas, ?_, manifest_exec hrecords.sorted⟩
  · rw [snapshot, Io.exec_bind_ok _ hmake]
    exact hrun
  · have hwalk := walkTree_exec (w := w₂) (hcanon₂ ▸ h)
    rw [hcanon₂] at hwalk
    exact hwalk

def byteChar (b : UInt8) : Char := Char.ofNat (b.toNat + 0x100)

theorem byteChar_toNat (b : UInt8) : (byteChar b).toNat = b.toNat + 0x100 := by
  have hlt := b.toNat_lt
  have hvalid : (b.toNat + 0x100).isValidChar := Or.inl (by omega)
  rw [byteChar, Char.ofNat, dif_pos hvalid]
  rfl

theorem byteChar_injective {b b' : UInt8} (h : byteChar b = byteChar b') : b = b' := by
  have hcode := congrArg Char.toNat h
  rw [byteChar_toNat, byteChar_toNat] at hcode
  exact UInt8.toNat_inj.mp (by omega)

/-- A hash without collisions that is SHA-256 on the contents below. -/
def digest (bytes : Bytes) : Digest :=
  if bytes = [] then ⟨"e3b0c44298fc1c149afbf4c8996fb92427ae41e4649b934ca495991b7852b855", digest_empty⟩
  else if bytes = [104, 105, 10] then
    ⟨"98ea6e4f216f2fb4b69fff9b3a44842c38686ca685f3f55dc48c5d3fb1107be4", by decide⟩
  else ⟨.ofList ('h' :: bytes.map byteChar), by
    refine ⟨by simp, ?_⟩
    simp only [String.toList_ofList, List.mem_cons, List.mem_map, not_or, not_exists, not_and]
    refine ⟨by decide, fun b _ h => ?_⟩
    have hcode := congrArg Char.toNat h
    rw [byteChar_toNat] at hcode
    have hslash : ('/' : Char).toNat = 47 := rfl
    omega⟩

def desktop : Config where
  path := .text "/home/user/project"
  nested := false
  strategy := .plainDir
  strategyHint := none
  linux := true
  sameFs := true
  depth := 64
  umask := 0o022#12
  umask_owner := umask_usual
  volumes := ⟨fun _ => [([], .dir 0o755#12)], fun _ t => t⟩
  ids _ := "9f86d081884c"
  sha256 := digest
  lossy bytes := (String.fromUTF8? ⟨bytes.toArray⟩).getD ""
  unified _ _ := "--- locked\n+++ current\n@@ -1 +0,0 @@\n-hi\n"

theorem collisionless_desktop : Collisionless desktop := by
  have hlast : ∀ (bytes : Bytes) (s : String), s.toList.head? ≠ some 'h' →
      String.ofList ('h' :: bytes.map byteChar) ≠ s := by
    rintro bytes s hs rfl
    simp at hs
  constructor
  · intro b b' h
    have htext : (digest b).1 = (digest b').1 := congrArg Subtype.val h
    by_cases h₁ : b = [] <;> by_cases h₂ : b' = [] <;> by_cases h₃ : b = [104, 105, 10] <;>
      by_cases h₄ : b' = [104, 105, 10]
    all_goals simp only [digest, h₁, h₂, h₃, h₄, if_true, if_false] at htext
    all_goals first
      | rw [h₁, h₂]
      | rw [h₃, h₄]
      | exact absurd htext (by decide)
      | exact absurd htext (hlast _ _ (by decide))
      | exact absurd htext.symm (hlast _ _ (by decide))
      | skip
    have hlist := congrArg String.toList htext
    simp only [String.toList_ofList, List.cons.injEq, true_and] at hlist
    exact List.map_injective_iff.mpr (fun _ _ => byteChar_injective) hlist
  · intro b h
    change (digest b).1 = _ at h
    simp only [digest] at h
    split at h
    · exact absurd h (by decide)
    · split at h
      · exact absurd h (by decide)
      · exact absurd h (hlast _ _ (by decide))

/-- Two files of one content and a link, with a temporary file left in the blob store. -/
def twins : World where
  canon :=
    [([], .dir 0o755#12), ([⟨.text "a", by decide⟩], .file 0o644#12 [104, 105, 10]),
      ([⟨.text "b", by decide⟩], .file 0o600#12 [104, 105, 10]),
      ([⟨.text "l", by decide⟩], .symlink (.text "a"))]
  containers _ := { blobs := [([], .dir 0o755#12), ([incoming], .file 0o644#12 [104])] }
  registry := none
  alive _ := false
  drawn := 0

theorem walkable_twins : Walkable desktop twins.canon := by
  have hcases : ∀ {p : Path} {i : Inode}, twins.canon.get p = some i →
      (p = [] ∧ i = .dir 0o755#12) ∨ ∃ n : Name, p = [n] ∧ n.1 ∈ [OsStr.text "a", .text "b", .text "l"] ∧
        i ∈ [.file 0o644#12 [104, 105, 10], .file 0o600#12 [104, 105, 10], .symlink (.text "a")] := by
    intro p i h
    have hmem := FileTree.mem_of_get h
    simp only [twins, List.mem_cons, List.not_mem_nil, or_false, Prod.mk.injEq] at hmem
    rcases hmem with ⟨rfl, rfl⟩ | ⟨rfl, rfl⟩ | ⟨rfl, rfl⟩ | ⟨rfl, rfl⟩
    · exact .inl ⟨rfl, rfl⟩
    all_goals exact .inr ⟨_, rfl, by decide, by decide⟩
  refine ⟨⟨⟨_, rfl⟩, ?_, ?_, ?_⟩, ⟨?_, ?_⟩, ?_⟩
  · intro n p hne
    obtain ⟨i, hi⟩ := Option.ne_none_iff_exists'.mp hne
    rcases hcases hi with ⟨hp, -⟩ | ⟨k, hk, -⟩
    · cases hp
    · cases hk
      exact ⟨_, rfl⟩
  · intro p m bytes hget
    rcases hcases hget with ⟨-, hi⟩ | ⟨k, -, -, hi⟩
    · cases hi
    · simp only [List.mem_cons, List.not_mem_nil, or_false, Inode.file.injEq, reduceCtorEq] at hi
      rcases hi with ⟨rfl, -⟩ | ⟨rfl, -⟩ <;> decide
  · intro p m hget
    rcases hcases hget with ⟨-, hi⟩ | ⟨k, -, -, hi⟩
    · cases hi
      decide
    · simp at hi
  · intro p hne
    obtain ⟨i, hi⟩ := Option.ne_none_iff_exists'.mp hne
    rcases hcases hi with ⟨rfl, -⟩ | ⟨k, rfl, hk, -⟩
    · simp [Path.Textual, Path.texts]
    · simp only [List.mem_cons, List.not_mem_nil, or_false] at hk
      rcases hk with hk | hk | hk <;> simp [Path.Textual, Path.texts, hk]
  · intro p target hget
    rcases hcases hget with ⟨-, hi⟩ | ⟨k, -, -, hi⟩
    · cases hi
    · simp only [List.mem_cons, List.not_mem_nil, or_false, reduceCtorEq, Inode.symlink.injEq, false_or] at hi
      exact ⟨"a", hi⟩
  · intro p hne
    obtain ⟨i, hi⟩ := Option.ne_none_iff_exists'.mp hne
    rcases hcases hi with ⟨rfl, -⟩ | ⟨k, rfl, -⟩ <;> simp [desktop]

theorem store_twins (id : String) : Store desktop (twins.tree (.blobs id)) := by
  refine ⟨⟨0o755#12, rfl, by decide, by decide⟩, ?_, ?_⟩
  · intro i hi
    cases hi
    exact ⟨_, _, rfl, by decide⟩
  · intro n i hn hi
    simp only [World.tree, twins, FileTree.get] at hi
    rw [if_neg (by simp), if_neg (by simpa using hn.symm)] at hi
    cases hi

theorem snapshot_faithful_twins :
    ∃ tree w', (snapshot desktop Strategy.canonDir (Strategy.blobsDir "w")).exec (host desktop) twins = (.ok tree, w') ∧
      Records desktop twins.canon tree ∧ Has desktop "w" [104, 105, 10] w' := by
  obtain ⟨⟨tree, w', hrun, -, hrecords, hhas, -, -⟩, -⟩ :=
    snapshot_faithful collisionless_desktop walkable_twins (.inr (store_twins "w"))
  exact ⟨tree, w', hrun, hrecords, hhas [⟨.text "a", by decide⟩] 0o644#12 _ rfl⟩

/-- A link whose name is text and whose target is not. -/
def rawLink : World where
  canon := [([], .dir 0o755#12), ([⟨.text "l", by decide⟩], .symlink (.raw [255]))]
  containers _ := {}
  registry := none
  alive _ := false
  drawn := 0

theorem raw_target_not_recorded :
    rawLink.canon.Sound ∧ (∀ p, rawLink.canon.get p ≠ none → Path.Textual p ∧ p.length < desktop.depth) ∧
      ∃ e w', (snapshot desktop Strategy.canonDir (Strategy.blobsDir "w")).exec (host desktop) rawLink =
        (.error e, w') := by
  have hcases : ∀ {p : Path} {i : Inode}, rawLink.canon.get p = some i →
      (p = [] ∧ i = .dir 0o755#12) ∨ (p = [⟨.text "l", by decide⟩] ∧ i = .symlink (.raw [255])) := by
    intro p i h
    simpa [rawLink] using FileTree.mem_of_get h
  refine ⟨⟨⟨_, rfl⟩, ?_, ?_, ?_⟩, ?_, _, _, rfl⟩
  · intro n p hne
    obtain ⟨i, hi⟩ := Option.ne_none_iff_exists'.mp hne
    rcases hcases hi with ⟨hp, -⟩ | ⟨hp, -⟩ <;> cases hp
    exact ⟨_, rfl⟩
  · intro p m bytes hget
    rcases hcases hget with ⟨-, hi⟩ | ⟨-, hi⟩ <;> cases hi
  · intro p m hget
    rcases hcases hget with ⟨-, hi⟩ | ⟨-, hi⟩ <;> cases hi
    decide
  · intro p hne
    obtain ⟨i, hi⟩ := Option.ne_none_iff_exists'.mp hne
    rcases hcases hi with ⟨rfl, -⟩ | ⟨rfl, -⟩
    · exact ⟨by simp [Path.Textual, Path.texts], by decide⟩
    · exact ⟨by simp [Path.Textual, Path.texts], by decide⟩

end Snapshot

end Silo.Workspace
