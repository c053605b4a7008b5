import Silo.Workspace.Manager
import Silo.Workspace.Moves

namespace Silo.Workspace

open Silo.Lib

variable {cfg : Config} {F : Prog.Faults FsOp World} {w w' w'' : World} {α : Type} {I : World → Prop} {id : String}

/-- An operation that changes nothing but the tree at `pl`, in any world. -/
def Within (cfg : Config) (pl : Place) (β : Type) (o : FsOp β) : Prop := ∀ w, SameBut pl w (o.perform cfg w).2

section

variable {pl : Place} {l : Loc}

theorem within_read {o : FsOp α} (h : ∀ w, (o.perform cfg w).2 = w) : Within cfg pl α o := by
  intro w
  rw [h w]
  exact .refl pl w

theorem within_update {o : FsOp (Except Errno Unit)} {f : World → FileTree → Except Errno FileTree}
    (hl : l.place = pl) (ho : ∀ w, o.perform cfg w = w.update l (f w)) : Within cfg pl _ o := by
  intro w
  rw [ho w]
  rcases w.update_cases l (f w) with ⟨e, -, hu⟩ | ⟨t, -, hu⟩
  · rw [hu]
    exact .refl pl w
  · rw [hu, ← hl]
    exact .setTree w t l.place

/-- What `f` changes in a workspace's directory shows under its `mnt` at most. -/
theorem within_modify {o : FsOp (Except Errno Unit)} {f : Container → Except Errno Container}
    (ho : ∀ w, o.perform cfg w = w.modify id f)
    (hf : ∀ c c', f c = .ok c' → c'.data = c.data ∧ c'.blobs = c.blobs ∧ c'.mounted = c.mounted) :
    Within cfg (.mnt id) _ o := by
  intro w
  rw [ho w]
  rcases w.modify_cases id f with ⟨e, -, hu⟩ | ⟨c, hc, hu⟩
  · rw [hu]
    exact .refl _ w
  · rw [hu]
    obtain ⟨hdata, hblobs, hmounted⟩ := hf _ c hc
    have hother : ∀ j, Place.mnt j ≠ .mnt id → (w.setContainer id c).containers j = w.containers j := by
      intro j hj
      apply World.setContainer_of_ne c
      rintro rfl
      exact hj rfl
    refine ⟨fun pl hpl => ?_, rfl, fun j => World.containers_setContainer (·.mounted) hmounted,
      fun j s hj => congrArg (Container.volume · s) (hother j hj.symm)⟩
    cases pl with
    | canon => rfl
    | blobs j => exact World.containers_setContainer (·.blobs) hblobs
    | data j => exact World.containers_setContainer (·.data) hdata
    | mnt j => exact congrArg Container.mntTree (hother j hpl)

theorem removePart_within (id : String) (part : Part) : Within cfg (.mnt id) _ (.removePart id part) := by
  refine within_modify (f := fun c => c.removePart part) (fun w => by rw [FsOp.perform]) fun c c' h => ?_
  cases part <;> simp only [Container.removePart] at h <;> first
    | cases h
    | (split at h
       · cases h
       · cases h
         exact ⟨rfl, rfl, rfl⟩)

theorem within_during {x : Host α} (h : x.Only (Within cfg pl)) (w : World) :
    x.during (host cfg) F (SameBut pl w) (fun _ => SameBut pl w) w := by
  refine Prog.Only.during (fun {β o v} b ho hv => ?_) h (.refl pl w)
  rcases host_cases cfg o b v with hr | hr
  · rw [hr]
    exact hv
  · rw [hr]
    exact hv.trans (ho v)

namespace Strategy

theorem removeDirAll_within (depth : Nat) (l : Loc) : (removeDirAll depth l).Only (Within cfg l.place) := by
  induction depth generalizing l with
  | zero => trivial
  | succ depth ih =>
      rw [removeDirAll]
      refine (Io.only_call (within_read fun _ => rfl)).bind fun names => ?_
      refine (Io.only_forEach fun n _ => ?_).bind fun _ => Io.only_call (within_update rfl fun w => by rw [FsOp.perform])
      refine (Io.only_call (within_read fun _ => rfl)).bind fun i => ?_
      have hunlink : (fs (.unlink (l.child n))).Only (Within cfg l.place) := by
        have hplace : (l.child n).place = l.place := rfl
        exact Io.only_call (within_update hplace fun w => by rw [FsOp.perform])
      cases i with
      | dir m => exact ih (l.child n)
      | file m bytes => exact hunlink
      | symlink target => exact hunlink

end Strategy

namespace Snapshot

theorem entryMode_within (l : Loc) : (entryMode l).Only (Within cfg pl) := by
  refine (Io.only_call (within_read fun _ => rfl)).bind fun i => ?_
  cases i <;> trivial

theorem scanDir_within {fileEntry : Loc → Host (String × Nat)} (hfile : ∀ l, (fileEntry l).Only (Within cfg pl))
    (depth : Nat) (tree : Tree) (dir : Loc) : (scanDir fileEntry depth tree dir).Only (Within cfg pl) := by
  induction depth generalizing tree dir with
  | zero => trivial
  | succ depth ih =>
      rw [scanDir]
      refine (Io.only_call (within_read fun _ => rfl)).bind fun names => Io.only_fold (fun tree n _ => ?_) tree
      refine (Io.only_call (within_read fun _ => rfl)).bind fun i => Io.only_ofExcept.bind fun rel => ?_
      cases i with
      | symlink target =>
          refine (Io.only_call (within_read fun _ => rfl)).bind fun target => Io.only_ofExcept.bind fun _ => ?_
          trivial
      | dir m => exact (entryMode_within (dir.child n)).bind fun mode => ih _ (dir.child n)
      | file m bytes =>
          refine (hfile (dir.child n)).bind fun hashed => (entryMode_within (dir.child n)).bind fun _ => ?_
          trivial

theorem hashFile_within (l : Loc) : (hashFile cfg l).Only (Within cfg pl) :=
  (Io.only_call (within_read fun _ => rfl)).bind fun _ => trivial

end Snapshot

namespace Diff

theorem readCurrentText_within (root : Loc) (rel : String) : (readCurrentText cfg root rel).Only (Within cfg pl) := by
  refine (Io.only_call (within_read fun _ => rfl)).bind fun i => ?_
  cases i with
  | file m bytes =>
      show (if maxDiffBytes < bytes.length then _ else _ : Host (Option String)).Only _
      split
      · trivial
      · exact (Io.only_call (within_read fun _ => rfl)).bind fun _ => trivial
  | dir m => trivial
  | symlink target => trivial

theorem readBlobText_within (blobsDir : Loc) (sha256 : String) (size : Nat) :
    (readBlobText cfg blobsDir sha256 size).Only (Within cfg pl) := by
  rw [readBlobText]
  split
  · trivial
  · exact (Io.only_call (within_read fun _ => rfl)).mapErr.bind fun _ => trivial

theorem diffPath_within (blobsDir root : Loc) (path : String) (old new : Option TreeEntry) :
    (diffPath cfg blobsDir root path old new).Only (Within cfg pl) := by
  unfold diffPath
  split
  · trivial
  · exact (readCurrentText_within root path).bind fun _ => trivial
  · trivial
  · exact (readBlobText_within blobsDir _ _).bind fun _ => trivial
  · trivial
  · split
    · trivial
    · split
      · exact (readBlobText_within blobsDir _ _).bind fun _ => (readCurrentText_within root path).bind fun _ => trivial
      · trivial

theorem diffTrees_within (locked current : Tree) (blobsDir root : Loc) :
    (diffTrees cfg locked current blobsDir root).Only (Within cfg pl) := by
  refine Io.only_fold (fun changes path _ => ?_) []
  exact (diffPath_within blobsDir root path _ _).bind fun _ => trivial

end Diff

namespace Manager

theorem report_within (id : String) : (report cfg id).Only (Within cfg pl) := by
  have hmanifest : (Snapshot.loadManifest id).Only (Within cfg pl) :=
    (Io.only_call (within_read fun _ => rfl)).bind fun _ => Io.only_ofExcept
  refine hmanifest.bind fun lockedTree => ?_
  refine (Snapshot.scanDir_within Snapshot.hashFile_within cfg.depth [] Strategy.canonDir).bind fun currentTree => ?_
  exact (Diff.diffTrees_within lockedTree currentTree _ _).bind fun _ => trivial

end Manager

end

theorem tree_registry (w : World) (entry : Option RegistryEntry) (pl : Place) :
    World.tree { w with registry := entry } pl = w.tree pl := by
  cases pl <;> rfl

/-- What unlocks of the plain-directory workspace `id`, begun in `w`, may have done by `w'`. Every
entry of the data directory stands there or in the workspace, the entry with the marker's name apart. -/
structure Restoring (id : String) (w w' : World) : Prop where
  entry : ∀ e, w'.registry = some e → e.id = id ∧ e.strategy = .plainDir
  closedData : (w'.tree (.data id)).Closed
  closedCanon : (w'.tree .canon).Closed
  shrinks : ∀ x, (w'.tree (.data id)).get x = (w.tree (.data id)).get x ∨ (w'.tree (.data id)).get x = none
  kept : ∀ r n i, n ≠ Strategy.markerFileName → (w.tree (.data id)).get (r ++ [n]) = some i →
    (w'.tree (.data id)).get (r ++ [n]) = some i ∨ (w'.tree .canon).get (r ++ [n]) = some i
  unlinked : Unlinked (Strategy.dataDir id) Strategy.canonDir w'

/-- Every entry of the data directory of `w` is back in the workspace. -/
def Restored (id : String) (w w' : World) : Prop :=
  ∀ r n i, n ≠ Strategy.markerFileName → (w.tree (.data id)).get (r ++ [n]) = some i →
    (w'.tree .canon).get (r ++ [n]) = some i

namespace Restoring

/-- A step that leaves the data directory and all of the workspace but its marker alone. -/
theorem canon (h : Restoring id w w') (hs : SameBut .canon w' w'') (hclosed : (w''.tree .canon).Closed)
    (hget : ∀ r n, n ≠ Strategy.markerFileName → (w''.tree .canon).get (r ++ [n]) = (w'.tree .canon).get (r ++ [n]))
    (hlinks : ∀ x target, (w''.tree .canon).get x = some (.symlink target) →
      (w'.tree .canon).get x = some (.symlink target)) :
    Restoring id w w'' := by
  have hdata : w''.tree (.data id) = w'.tree (.data id) := hs.others _ (by simp)
  refine ⟨?_, ?_, hclosed, ?_, ?_, ?_⟩
  · rw [hs.registry]
    exact h.entry
  · rw [hdata]
    exact h.closedData
  · rw [hdata]
    exact h.shrinks
  · intro r n i hn hi
    rw [hdata, hget r n hn]
    exact h.kept r n i hn hi
  · refine h.unlinked.of_linksFrom (fun x target hx => .inl (hlinks x target hx)) fun x => .inl ?_
    simp only [Strategy.dataDir, hdata]

theorem putRoot {t : FileTree} {i : Inode} (h : Restoring id w w') (hput : (w'.tree .canon).Put [] i t)
    (hlink : ∀ target, i = .symlink target → (w'.tree .canon).get [] = some (.symlink target)) :
    Restoring id w (w'.setTree t .canon) := by
  refine h.canon (.setTree ..) (hput.closed h.closedCanon) (fun r n _ => (hput.get _).trans (if_neg ?_))
    fun x target hx => ?_
  · exact (List.append_ne_nil_of_right_ne_nil r (List.cons_ne_nil n [])).symm
  · change t.get x = _ at hx
    rw [hput.get] at hx
    split at hx
    · next heq =>
        cases hx
        rw [← heq]
        exact hlink target rfl
    · exact hx

theorem same (h : Restoring id w w') (hcanon : w''.tree .canon = w'.tree .canon)
    (hdata : w''.tree (.data id) = w'.tree (.data id))
    (hentry : ∀ e, w''.registry = some e → e.id = id ∧ e.strategy = .plainDir) : Restoring id w w'' := by
  refine ⟨hentry, ?_, ?_, ?_, ?_, ?_⟩
  · rw [hdata]
    exact h.closedData
  · rw [hcanon]
    exact h.closedCanon
  · rw [hdata]
    exact h.shrinks
  · rw [hdata, hcanon]
    exact h.kept
  · refine h.unlinked.of_linksFrom (fun x target hx => .inl ?_) fun x => .inl ?_
    · simpa only [Strategy.canonDir, hcanon] using hx
    · simp only [Strategy.dataDir, hdata]

theorem sameBut {pl : Place} (h : Restoring id w w') (hs : SameBut pl w' w'') (hcanon : .canon ≠ pl)
    (hdata : .data id ≠ pl) : Restoring id w w'' :=
  h.same (hs.others _ hcanon) (hs.others _ hdata) (by rw [hs.registry]; exact h.entry)

theorem moving (h : Restoring id w w') (hm : Moving (Strategy.dataDir id) Strategy.canonDir w' w'') :
    Restoring id w w'' := by
  refine ⟨?_, hm.closedSrc, hm.closedDst, fun x => ?_, fun r n i hn hi => ?_, hm.unlinked h.unlinked⟩
  · rw [hm.registry]
    exact h.entry
  · rcases hm.shrinks x with hx | ⟨hx, -⟩
    · exact (h.shrinks x).imp (hx.trans ·) (hx.trans ·)
    · exact .inr hx
  · have hkept := hm.kept (r ++ [n])
    simp only [Strategy.dataDir, Strategy.canonDir, List.append_nil] at hkept
    rcases h.shrinks (r ++ [n]) with hx | hx
    · exact hkept i (hx.trans hi)
    · have hback := (h.kept r n i hn hi).resolve_left (by rw [hx]; rintro ⟨⟩)
      refine .inr ((hm.fresh _ fun r' hr' => ?_).trans hback)
      simp only [Strategy.canonDir, Strategy.dataDir, List.append_nil] at hr' ⊢
      rw [← hr']
      exact hx

theorem restored (h : Restoring id w w') (hempty : ∀ r n, (w'.tree (.data id)).get (r ++ [n]) = none) :
    Restored id w w' := by
  intro r n i hn hi
  exact (h.kept r n i hn hi).resolve_left (by rw [hempty r n]; rintro ⟨⟩)

theorem register {entry : Option RegistryEntry} (h : Restoring id w w')
    (hentry : ∀ e, entry = some e → e.id = id ∧ e.strategy = .plainDir) :
    Restoring id w { w' with registry := entry } :=
  h.same (tree_registry ..) (tree_registry ..) hentry

end Restoring

namespace Manager

open Strategy

theorem removeMarker_during (h : Restoring id w w') :
    (removeMarker canonDir).during (host cfg) F (Restoring id w) (fun _ => Restoring id w) w' := by
  refine (Io.during_ignore ..).mpr (during_update (by rw [FsOp.perform]) ⟨_, rfl⟩ h (fun _ => h) fun t ht => ?_)
  have heq := FileTree.unlink_eq ht
  subst heq
  have hnext : Restoring id w (w'.setTree ((w'.tree .canon).prune (canonDir.child markerFileName).path) .canon) := by
    refine h.canon (.setTree ..) (h.closedCanon.prune _) (fun r n hn => FileTree.get_prune_of_not ?_)
      fun x target hx => ?_
    · rintro ⟨r', hr'⟩
      exact hn (List.append_singleton_inj.mp hr').2.symm
    · change ((w'.tree .canon).prune _).get x = _ at hx
      rw [FileTree.get_prune] at hx
      split at hx
      · cases hx
      · exact hx
  exact ⟨hnext, hnext⟩

theorem chmodCanon_during {f : Mode → Mode} (h : Restoring id w w') :
    (changeDirMode canonDir f).during (host cfg) F (Restoring id w) (fun _ => Restoring id w) w' := by
  have hchmod : ∀ m : Mode, (fs (.chmod canonDir m)).during (host cfg) F (Restoring id w)
      (fun _ => Restoring id w) w' := by
    intro m
    refine during_update (by rw [FsOp.perform]) ⟨_, rfl⟩ h (fun _ => h) fun t ht => ?_
    obtain ⟨i, hi, hput⟩ := FileTree.chmod_put ht
    have hlink : ∀ target, FileTree.withMode m i = .symlink target → i = .symlink target := by
      intro target heq
      cases i with
      | symlink target' => exact heq
      | file m' bytes => cases heq
      | dir m' => cases heq
    have hnext : Restoring id w (w'.setTree t .canon) := by
      refine h.putRoot hput fun target heq => ?_
      rw [hlink target heq] at hi
      exact hi
    exact ⟨hnext, hnext⟩
  refine (Io.during_bind ..).mpr (during_read rfl ⟨_, rfl⟩ h (fun _ => h) fun i _ => ?_)
  cases i with
  | dir m => exact hchmod _
  | file m bytes => exact hchmod _
  | symlink target => exact ⟨h, h⟩

theorem createCanon_during (h : Restoring id w w') :
    (fs (.createDirAll canonDir)).during (host cfg) F (Restoring id w) (fun _ => Restoring id w) w' := by
  refine during_update (by rw [FsOp.perform]) ⟨_, rfl⟩ h (fun _ => h) fun t ht => ?_
  obtain ⟨m, hput⟩ := FileTree.mkdir_put ht
  have hnext : Restoring id w (w'.setTree t .canon) := h.putRoot hput fun _ heq => by cases heq
  exact ⟨hnext, hnext⟩

/-- Any operation may fail, but for looking whether a directory is there. -/
def StatsWork : Prog.Faults FsOp World
  | _, .isDir _, _, b => b = false
  | _, _, _, _ => True

theorem during_isDir {Q : Except WorkspaceError Bool → World → Prop} {l : Loc} (hnow : I w)
    (hno : (∀ m, (w.tree l.place).lstat l.path ≠ .ok (.dir m)) → Q (.ok false) w)
    (hyes : ∀ m, (w.tree l.place).lstat l.path = .ok (.dir m) → Q (.ok true) w) :
    (Io.ask (.isDir l)).during (host cfg) StatsWork I Q w := by
  refine Io.during_ask _ hnow fun b hb => ?_
  have hrun : (host cfg).run (.isDir l) b w = FsOp.perform cfg (.isDir l) w := by
    rw [host_run, show b = false from hb]
    rfl
  rw [hrun, FsOp.perform]
  refine ⟨hnow, ?_⟩
  split
  · exact hyes _ ‹_›
  · rename_i hdir
    exact hno hdir

theorem moveBack_during (h : Restoring id w w') (hroot : (w'.tree (.data id)).get [] ≠ none) :
    (moveContents cfg (dataDir id) canonDir).during (host cfg) F (Restoring id w)
      (fun r v => Restoring id w v ∧ (r = .ok () → Restored id w v)) w' := by
  have hne : (dataDir id).place ≠ canonDir.place := by simp [dataDir, canonDir]
  have hmove : (moveContents cfg (dataDir id) canonDir).during (host cfg) F
      (fun v => Moving (dataDir id) canonDir w' v ∧ (v.tree (dataDir id).place).get (dataDir id).path ≠ none)
      (MoveEnds (dataDir id)) w' :=
    moveContents_during hne trivial trivial ⟨.refl h.closedData h.closedCanon, hroot⟩
  refine Io.during_mono (fun v hv => h.moving hv.1) (fun r v hv hends => ⟨h.moving hv.1, fun hr => ?_⟩) hmove
  exact (h.moving hv.1).restored fun r' n => hends hr n r'

theorem restore_during {entry : RegistryEntry} (hid : entry.id = id) (hplain : entry.strategy = .plainDir)
    (h : Restoring id w w') : (restore cfg entry).during (host cfg) StatsWork (Restoring id w)
      (fun r v => Restoring id w v ∧ (r = .ok () → Restored id w v)) w' := by
  have hfail : ∀ {v : World} (e : WorkspaceError), Restoring id w v →
      Restoring id w v ∧ ((.error e : Except WorkspaceError Unit) = .ok () → Restored id w v) :=
    fun _ hv => ⟨hv, fun h => by cases h⟩
  rw [restore]
  refine (Io.during_bind ..).mpr (Io.during_mono (fun _ h => h) ?_ (createCanon_during h))
  rintro (e | _) v - hv
  · exact hfail e hv
  refine (Io.during_bind ..).mpr (Io.during_mapErr _ _ (Io.during_mono (fun _ h => h) ?_ (chmodCanon_during hv)))
  rintro (e | _) v - hv
  · exact hfail _ hv
  refine (Io.during_bind ..).mpr (Io.during_mono (fun _ h => h) ?_ (removeMarker_during hv))
  rintro (e | _) v - hv
  · exact hfail e hv
  subst hid
  simp only [hplain]
  refine (Io.during_bind ..).mpr (during_isDir hv (fun hno => ?_) fun m hdir => ?_)
  · -- no directory, so nothing below it either
    refine ⟨hv, hv, fun _ => hv.restored fun r n => ?_⟩
    have hbelow := hv.closedData.none_below (p := []) (fun m hm => hno m (FileTree.lstat_of_reach rfl hm))
      (List.append_ne_nil_of_right_ne_nil r (List.cons_ne_nil n []))
    rwa [List.append_nil] at hbelow
  · refine Io.during_mapErr _ _ (Io.during_mono (fun _ h => h) ?_ (moveBack_during hv ?_))
    · rintro (e | _) v' - hv'
      · exact hfail _ hv'.1
      · exact hv'
    · have hroot := FileTree.lstat_get hdir
      simp only [dataDir] at hroot
      rw [hroot]
      exact Option.some_ne_none _

theorem acquireLock_during {Q : Except WorkspaceError Unit → World → Prop} (hnow : I w)
    (hfail : ∀ e, Q (.error e) w) (hok : Q (.ok ()) w) : acquireLock.during (host cfg) F I Q w := by
  refine ⟨hnow, fun b _ => ?_⟩
  rcases host_cases cfg .acquireLock b w with hr | hr
  · rw [hr]
    exact ⟨hnow, hfail _⟩
  · rw [hr]
    exact ⟨hnow, hok⟩

theorem load_during {Q : Except WorkspaceError (Option RegistryEntry) → World → Prop} (hnow : I w)
    (hfail : ∀ e, Q (.error e) w) (hok : Q (.ok w.registry) w) : load.during (host cfg) F I Q w := by
  refine ⟨hnow, fun b _ => ?_⟩
  rcases host_cases cfg .load b w with hr | hr
  · rw [hr]
    exact ⟨hnow, hfail _⟩
  · rw [hr]
    exact ⟨hnow, hok⟩

theorem save_during {Q : Except WorkspaceError Unit → World → Prop} {entry : Option RegistryEntry} (hnow : I w)
    (hfail : ∀ e, Q (.error e) w) (hsaved : I { w with registry := entry })
    (hok : Q (.ok ()) { w with registry := entry }) : (save entry).during (host cfg) F I Q w := by
  refine ⟨hnow, fun b _ => ?_⟩
  rcases host_cases cfg (.save entry) b w with hr | hr
  · rw [hr]
    exact ⟨hnow, hfail _⟩
  · rw [hr]
    exact ⟨hsaved, hok⟩

theorem beginUnlock_during {key : String} (h : Restoring id w w') :
    (beginUnlock key).during (host cfg) F (Restoring id w) (fun r v => Restoring id w v ∧
      ∀ entry, r = .ok entry → entry.id = id ∧ entry.strategy = .plainDir) w' := by
  have hfail : ∀ {v : World} (e : WorkspaceError), Restoring id w v → Restoring id w v ∧
      ∀ entry, (.error e : Except WorkspaceError RegistryEntry) = .ok entry → entry.id = id ∧ entry.strategy = .plainDir :=
    fun _ hv => ⟨hv, fun _ h => by cases h⟩
  refine Io.during_locked ((Io.during_bind ..).mpr (acquireLock_during h (fun e => hfail e h) ?_))
  refine (Io.during_bind ..).mpr (load_during h (fun e => hfail e h) ?_)
  cases hreg : w'.registry with
  | none => exact ⟨h, hfail _ h⟩
  | some entry =>
      have hentry := h.entry entry hreg
      have hnext : Restoring id w { w' with registry := some { entry with unlocking := true } } := by
        refine h.register fun e he => ?_
        cases he
        exact hentry
      refine (Io.during_bind ..).mpr (save_during h (fun e => hfail e h) hnext ⟨hnext, hnext, fun e he => ?_⟩)
      cases he
      exact hentry

theorem terminateAttachments_during {self : Process} {entry : RegistryEntry} (h : Restoring id w w') :
    (terminateAttachments self entry).during (host cfg) F (Restoring id w) (fun _ => Restoring id w) w' := by
  have hbeside : ∀ {v v' : World}, SameBut (.mnt id) v v' → Restoring id w v → Restoring id w v' :=
    fun hs hv => hv.sameBut hs (by simp) (by simp)
  have honly : (terminateAttachments self entry).Only (Within cfg (.mnt id)) := by
    refine (Io.only_forEach fun p _ => ?_).bind fun _ => (Io.only_ask (within_read fun _ => rfl)).bind fun alive => ?_
    · rw [Io.when]
      split
      · exact Io.only_ask fun _ => ⟨fun _ _ => rfl, rfl, fun _ => rfl, fun _ _ _ => rfl⟩
      · trivial
    · rw [Io.when]
      split <;> trivial
  exact Io.during_mono (fun v hv => hbeside hv h) (fun _ v _ hv => hbeside hv h) (within_during honly w')

/-- Both directories are as good as before: only entries of the data directory may be gone, and all of
them are back. -/
def Back (id : String) (w w' : World) : Prop := Restoring id w w' ∧ Restored id w w'

theorem Back.sameBut {pl : Place} (h : Back id w w') (hs : SameBut pl w' w'') (hcanon : .canon ≠ pl)
    (hdata : .data id ≠ pl) : Back id w w'' := by
  refine ⟨h.1.sameBut hs hcanon hdata, ?_⟩
  intro r n i hn hi
  rw [hs.others _ hcanon]
  exact h.2 r n i hn hi

theorem Back.removing (h : Back id w w') (hr : Removing (dataDir id) w' w'') : Back id w w'' := by
  have hcanon : w''.tree .canon = w'.tree .canon := hr.others _ (by simp [dataDir])
  have hrestored : Restored id w w'' := by
    intro r n i hn hi
    rw [hcanon]
    exact h.2 r n i hn hi
  have hunlinked : Unlinked (dataDir id) canonDir w'' := by
    refine h.1.unlinked.of_linksFrom (fun x target hx => .inl ?_) fun x => ?_
    · simpa only [canonDir, hcanon] using hx
    · rcases hr.gone x with hsame | ⟨hnone, -⟩
      · exact .inl hsame
      · exact .inr hnone
  refine ⟨⟨?_, hr.closed, ?_, fun x => ?_, fun r n i hn hi => .inr (hrestored r n i hn hi), hunlinked⟩, hrestored⟩
  · rw [hr.registry]
    exact h.1.entry
  · rw [hcanon]
    exact h.1.closedCanon
  · rcases hr.gone x with hx | ⟨hx, -⟩
    · exact (h.1.shrinks x).imp (hx.trans ·) (hx.trans ·)
    · exact .inr hx

theorem within_back {x : Host α} {pl : Place} (h : Back id w w') (hx : x.Only (Within cfg pl)) (hcanon : .canon ≠ pl)
    (hdata : .data id ≠ pl) : x.during (host cfg) F (Back id w) (fun _ => Back id w) w' :=
  Io.during_mono (fun _ hv => h.sameBut hv hcanon hdata) (fun _ _ _ hv => h.sameBut hv hcanon hdata)
    (within_during hx w')

theorem removeWorkspaceDir_during (h : Back id w w') :
    (removeWorkspaceDir cfg id).during (host cfg) F (Back id w) (fun _ => Back id w) w' := by
  refine (Io.during_bind ..).mpr (during_read rfl ⟨_, rfl⟩ h (fun _ => h) fun parts _ => ?_)
  refine Io.during_forEach_same (fun part _ v hv => ?_) h
  have hpart : ∀ part, (fs (.removePart id part)).during (host cfg) F (Back id w) (fun _ => Back id w) v :=
    fun part => within_back hv (Io.only_call (removePart_within id part)) (by simp) (by simp)
  cases part with
  | blobs => exact within_back hv (removeDirAll_within cfg.depth (blobsDir id)) (by simp [blobsDir]) (by simp [blobsDir])
  | mnt => exact within_back hv (removeDirAll_within cfg.depth (mountpoint id)) (by simp [mountpoint]) (by simp [mountpoint])
  | data =>
      have hremove : (removeDirAll cfg.depth (dataDir id)).during (host cfg) F (Removing (dataDir id) v)
          (RemoveEnds (dataDir id)) v := removeDirAll_during cfg.depth trivial hv.1.closedData
      exact Io.during_mono (fun _ h => hv.removing h) (fun _ _ h _ => hv.removing h) hremove
  | manifest => exact hpart _
  | sparsebundle => exact hpart _
  | img => exact hpart _

theorem unreserve_during (h : Back id w w') :
    (unreserve id).during (host cfg) F (Back id w) (fun _ => Back id w) w' := by
  refine Io.during_locked ((Io.during_bind ..).mpr (acquireLock_during h (fun _ => h) ?_))
  refine (Io.during_bind ..).mpr (load_during h (fun _ => h) (Io.during_when h (fun _ => h) fun _ => ?_))
  have hnext : Back id w { w' with registry := none } := by
    refine ⟨h.1.register (fun _ he => by cases he), ?_⟩
    intro r n i hn hi
    rw [tree_registry]
    exact h.2 r n i hn hi
  exact save_during h (fun _ => h) hnext hnext

theorem unlock_during {self : Process} (h : Restoring id w w') :
    (unlock cfg self).during (host cfg) StatsWork (Restoring id w)
      (fun r v => ∀ result, r = .ok result → Restored id w v) w' := by
  rw [unlock]
  have hfail : ∀ {v : World} (e : WorkspaceError),
      ∀ result, (.error e : Except WorkspaceError UnlockReport) = .ok result → Restored id w v :=
    fun _ _ h => by cases h
  refine (Io.during_bind ..).mpr (Io.during_ofExcept h ?_)
  cases pathToString cfg.path with
  | error e => exact hfail e
  | ok key =>
  refine (Io.during_bind ..).mpr (Io.during_mono (fun _ h => h) ?_ (beginUnlock_during h))
  rintro (e | entry) v - ⟨hv, hentry⟩
  · exact hfail e
  obtain ⟨hid, hplain⟩ := hentry entry rfl
  subst hid
  refine (Io.during_bind ..).mpr (Io.during_mono (fun _ h => h) ?_ (terminateAttachments_during hv))
  rintro (e | _) v - hv
  · exact hfail e
  simp only [hplain]
  refine (Io.during_bind ..).mpr ⟨hv, ?_⟩
  refine (Io.during_bind ..).mpr (Io.during_mono (fun _ h => h) ?_ (restore_during rfl hplain hv))
  rintro (e | _) v - ⟨hv, hrestored⟩
  · exact hfail e
  have hback : Back entry.id w v := ⟨hv, hrestored rfl⟩
  have hreport : (report cfg entry.id).Only (Within cfg (.mnt entry.id)) := report_within entry.id
  refine (Io.during_bind ..).mpr (Io.during_mono (fun _ h => h.1) ?_
    (within_back hback hreport (by simp) (by simp)))
  rintro (e | result) v - hv
  · exact hfail e
  refine (Io.during_bind ..).mpr ⟨hv.1, ?_⟩
  refine (Io.during_bind ..).mpr (Io.during_mono (fun _ h => h.1) ?_ (unreserve_during hv))
  rintro (e | _) v - hv
  · exact hfail e
  have hread : Within cfg (.mnt entry.id) _ (.isMountpoint entry.id) := within_read fun _ => rfl
  refine (Io.during_bind ..).mpr (Io.during_mono (fun _ h => h.1) ?_
    (within_back hv (Io.only_ask hread) (by simp) (by simp)))
  rintro (e | mounted) v - hv
  · exact hfail e
  refine (Io.during_bind ..).mpr (Io.during_when hv.1 (fun _ => ⟨hv.1, fun _ _ => hv.2⟩) fun _ => ?_)
  refine (Io.during_ignore ..).mpr (Io.during_mono (fun _ h => h.1) ?_ (removeWorkspaceDir_during hv))
  exact fun _ v' _ hv' => ⟨hv'.1, fun _ _ => hv'.2⟩

/-- Unlocks of a plain-directory workspace, by any processes, each stopped at any moment, and with any
failures but one of looking for the data directory, lose nothing and never meet a link: every entry that the data
directory had stands there or in the workspace, and when an unlock returns its report, in the workspace. -/
theorem stopped_unlocks_lose_nothing {entry : RegistryEntry} (hentry : w.registry = some entry)
    (hplain : entry.strategy = .plainDir) (hdata : (w.tree (.data entry.id)).Closed) (hcanon : (w.tree .canon).Closed)
    (hunlinked : Unlinked (dataDir entry.id) canonDir w)
    (h : Relation.ReflTransGen (fun v v' => ∃ self, Prog.Leaves (host cfg) StatsWork (unlock cfg self) v v') w w') :
    (∀ r n i, n ≠ markerFileName → (w.tree (.data entry.id)).get (r ++ [n]) = some i →
      (w'.tree (.data entry.id)).get (r ++ [n]) = some i ∨ (w'.tree .canon).get (r ++ [n]) = some i) ∧
    Unlinked (dataDir entry.id) canonDir w' ∧ ∀ self fs, Prog.Admits (host cfg) StatsWork (unlock cfg self) fs w' →
      ∀ result, (Prog.run (host cfg) (unlock cfg self) fs w').1 = .ok result →
        ∀ r n i, n ≠ markerFileName → (w.tree (.data entry.id)).get (r ++ [n]) = some i →
          ((Prog.run (host cfg) (unlock cfg self) fs w').2.2.tree .canon).get (r ++ [n]) = some i := by
  have hbegin : Restoring entry.id w w := by
    refine ⟨fun e he => ?_, hdata, hcanon, fun _ => .inl rfl, fun _ _ _ _ hi => .inl hi, hunlinked⟩
    rw [hentry] at he
    cases he
    exact ⟨rfl, hplain⟩
  have hreach : Restoring entry.id w w' := by
    refine Prog.reruns_of_during (I := Restoring entry.id w) (fun self v hv => ?_) hbegin h
    exact Prog.during_mono (fun _ h => h) (fun _ _ _ _ => trivial) (unlock_during hv)
  refine ⟨hreach.kept, hreach.unlinked, fun self fs hf result hok => ?_⟩
  exact Prog.run_of_during (unlock_during hreach) hf result hok

end Manager

/-- Locked, with the contents in the data directory. -/
def lockedAway : World :=
  ⟨emptyDir, fun _ => { data := project, manifest := some [] },
    some ⟨"0c1d2e3f", true, false, .plainDir, none, [], []⟩, fun _ => false, 1⟩

theorem stopped_unlocks_of_lockedAway :
    let unlock := Manager.unlock server ⟨4242, "1"⟩
    let after := (Prog.run (host server) unlock [] lockedAway).2.2
    (∀ r n i, n ≠ Strategy.markerFileName → (lockedAway.tree (.data "0c1d2e3f")).get (r ++ [n]) = some i →
      (after.tree (.data "0c1d2e3f")).get (r ++ [n]) = some i ∨ (after.tree .canon).get (r ++ [n]) = some i) := by
  intro unlock after
  have hadmits := Prog.admits_nil (H := host server) (F := Manager.StatsWork)
    (fun _ o _ => by cases o <;> first | rfl | trivial) unlock lockedAway
  have hentry : lockedAway.registry = some ⟨"0c1d2e3f", true, false, .plainDir, none, [], []⟩ := rfl
  have hdata : (lockedAway.tree (.data "0c1d2e3f")).Closed := project_closed
  have hcanon : (lockedAway.tree .canon).Closed := emptyDir_closed
  exact (Manager.stopped_unlocks_lose_nothing hentry rfl hdata hcanon (unlinked_of_emptyDir rfl)
    (.single ⟨⟨4242, "1"⟩, Prog.leaves_run hadmits⟩)).1

theorem rename_within {pl : Place} {src dst : Loc} (hsrc : src.place = pl) (hdst : dst.place = pl) :
    Within cfg pl _ (.rename src dst) := by
  subst hsrc
  intro w
  rw [FsOp.perform, World.rename]
  split
  · exact .refl _ w
  · split
    · exact .refl _ w
    · rw [if_pos hdst.symm]
      exact .setTree ..

namespace Snapshot

theorem storeFileBlob_within {blobs : Loc} (l : Loc) : (storeFileBlob cfg blobs l).Only (Within cfg blobs.place) := by
  have hplace : ∀ n, (blobs.child n).place = blobs.place := fun _ => rfl
  refine (Io.only_call (within_read fun _ => rfl)).bind fun content => ?_
  refine (Io.only_call (within_update (hplace incoming) fun w => by rw [FsOp.perform])).bind fun _ => ?_
  refine (Io.only_call (within_update (hplace incoming) fun w => by rw [FsOp.perform])).bind fun _ => ?_
  refine (Io.only_ask (within_read fun _ => rfl)).bind fun present => ?_
  cases present with
  | true =>
      refine (Io.only_call (within_update (hplace incoming) fun w => by rw [FsOp.perform])).bind fun _ => ?_
      trivial
  | false =>
      refine (Io.only_call (rename_within (hplace incoming) (hplace _))).bind fun _ => ?_
      trivial

theorem snapshot_within (root blobs : Loc) : (snapshot cfg root blobs).Only (Within cfg blobs.place) := by
  refine (Io.only_call (within_update rfl fun w => by rw [FsOp.perform])).bind fun _ => ?_
  exact scanDir_within storeFileBlob_within cfg.depth [] root

theorem writeManifest_within (id : String) (tree : Tree) : (writeManifest id tree).Only (Within cfg (.mnt id)) := by
  refine Io.only_call (within_modify (fun w => by rw [FsOp.perform]) fun c c' h => ?_)
  cases h
  exact ⟨rfl, rfl, rfl⟩

end Snapshot

/-- Every entry that the workspace had in `w` stands in it or in the data directory. -/
def Contained (id : String) (w w' : World) : Prop :=
  ∀ r n i, (w.tree .canon).get (r ++ [n]) = some i →
    (w'.tree .canon).get (r ++ [n]) = some i ∨ (w'.tree (.data id)).get (r ++ [n]) = some i

/-- In the data directory. -/
def Stored (id : String) (w w' : World) : Prop :=
  ∀ r n i, (w.tree .canon).get (r ++ [n]) = some i → (w'.tree (.data id)).get (r ++ [n]) = some i

theorem Stored.contained (h : Stored id w w') : Contained id w w' := fun r n i hi => .inr (h r n i hi)

theorem Stored.sameBut {v v' : World} {pl : Place} (h : Stored id w v) (hs : SameBut pl v v') (hpl : .data id ≠ pl) :
    Stored id w v' := by
  intro r n i hi
  rw [hs.others _ hpl]
  exact h r n i hi

namespace Manager

open Strategy

theorem moveIn_during (hcanon : (w.tree .canon).Closed) (hroot : (w.tree .canon).get [] ≠ none)
    (hdata : (w.tree (.data id)).Closed) :
    (moveContents cfg canonDir (dataDir id)).during (host cfg) F (Contained id w)
      (fun r v => r = .ok () → Stored id w v) w := by
  have hne : canonDir.place ≠ (dataDir id).place := by simp [dataDir, canonDir]
  have hmove : (moveContents cfg canonDir (dataDir id)).during (host cfg) F
      (fun v => Moving canonDir (dataDir id) w v ∧ (v.tree canonDir.place).get canonDir.path ≠ none)
      (MoveEnds canonDir) w :=
    moveContents_during hne trivial trivial ⟨.refl hcanon hdata, hroot⟩
  have hkept : ∀ {v}, Moving canonDir (dataDir id) w v → Contained id w v := by
    intro v hv r n i hi
    have hkept := hv.kept (r ++ [n])
    simp only [dataDir, canonDir, List.append_nil] at hkept
    exact hkept i hi
  refine Io.during_mono (fun v hv => hkept hv.1) (fun r v hv hends hr r' n i hi => ?_) hmove
  exact (hkept hv.1 r' n i hi).resolve_left (by
    have hgone : (v.tree .canon).get (r' ++ [n]) = none := hends hr n r'
    rw [hgone]
    rintro ⟨⟩)

theorem within_stored {α : Type} {x : Host α} (h : Stored id w w') (hx : x.Only (Within cfg .canon)) :
    x.during (host cfg) F (Contained id w) (fun _ => Stored id w) w' :=
  Io.during_mono (fun _ hs => (h.sameBut hs (by simp)).contained) (fun _ _ _ hs => h.sameBut hs (by simp))
    (within_during hx w')

theorem slowWork_during (hplain : cfg.strategy = .plainDir) (hcanon : (w.tree .canon).Closed)
    (hroot : (w.tree .canon).get [] ≠ none) (hdata : (w.tree (.data id)).Closed) :
    (slowWork cfg id).during (host cfg) F (Contained id w) (fun r v => ∀ result, r = .ok result → Stored id w v) w := by
  have hsame : ∀ {v}, v.tree .canon = w.tree .canon → Contained id w v := by
    intro v hv r n i hi
    rw [hv]
    exact .inl hi
  have hfail : ∀ {v : World} (e : WorkspaceError), ∀ result,
      (.error e : Except WorkspaceError (ContainerStrategy × List String)) = .ok result → Stored id w v :=
    fun _ _ h => by cases h
  rw [slowWork]
  have hsnapshot : (Snapshot.snapshot cfg canonDir (blobsDir id)).Only (Within cfg (blobsDir id).place) :=
    Snapshot.snapshot_within canonDir (blobsDir id)
  refine (Io.during_bind ..).mpr (Io.during_mono (fun v hv => hsame (hv.others _ (by simp [blobsDir]))) ?_
    (within_during hsnapshot w))
  rintro (e | tree) v - hv
  · exact hfail e
  have hmanifest : (Snapshot.writeManifest id tree).Only (Within cfg (.mnt id)) :=
    Snapshot.writeManifest_within id tree
  have hboth : ∀ {u}, SameBut (.mnt id) v u → u.tree .canon = w.tree .canon ∧ u.tree (.data id) = w.tree (.data id) := by
    intro u hu
    refine ⟨(hu.others _ (by simp)).trans (hv.others _ (by simp [blobsDir])), ?_⟩
    exact (hu.others _ (by simp)).trans (hv.others _ (by simp [blobsDir]))
  refine (Io.during_bind ..).mpr (Io.during_mono (fun u hu => hsame (hboth hu).1) ?_
    (within_during hmanifest v))
  rintro (e | _) u - hu
  · exact hfail e
  obtain ⟨hucanon, hudata⟩ := hboth hu
  have hfrom : ∀ {u'}, Contained id u u' → Contained id w u' := by
    intro u' h r n i hi
    exact h r n i (by rw [hucanon]; exact hi)
  have hmove : (moveContents cfg canonDir (dataDir id)).during (host cfg) F (Contained id u)
      (fun r v => r = .ok () → Stored id u v) u := by
    apply moveIn_during
    · rw [hucanon]
      exact hcanon
    · rw [hucanon]
      exact hroot
    · rw [hudata]
      exact hdata
  rw [containContents]
  simp only [hplain]
  refine (Io.during_bind ..).mpr ((Io.during_bind ..).mpr (Io.during_mono (fun _ h => hfrom h) ?_ hmove))
  rintro (e | _) u' - hstored
  · exact hfail e
  have hstored : Stored id w u' := fun r n i hi => hstored rfl r n i (by rw [hucanon]; exact hi)
  refine ⟨hstored.contained, ?_⟩
  have hmarker : (writeMarker canonDir).Only (Within cfg .canon) := by
    have hplace : (canonDir.child markerFileName).place = .canon := rfl
    refine (Io.only_call (within_update hplace fun w => by rw [FsOp.perform])).bind fun _ => ?_
    exact Io.only_call (within_update hplace fun w => by rw [FsOp.perform])
  have hchmod : (makeDirReadonly canonDir).Only (Within cfg .canon) := by
    have hplace : canonDir.place = .canon := rfl
    refine (Io.only_call (within_read fun _ => rfl)).bind fun i => ?_
    cases i with
    | dir m => exact Io.only_call (within_update hplace fun w => by rw [FsOp.perform])
    | file m bytes => exact Io.only_call (within_update hplace fun w => by rw [FsOp.perform])
    | symlink target => trivial
  refine (Io.during_bind ..).mpr (Io.during_mono (fun _ h => h) ?_ (within_stored hstored hmarker))
  rintro (e | _) v₁ - h₁
  · exact hfail e
  refine (Io.during_bind ..).mpr (Io.during_mono (fun _ h => h) ?_ (within_stored h₁ hchmod))
  rintro (e | _) v₂ h₂' h₂
  · exact hfail e
  · exact ⟨h₂', fun _ _ => h₂⟩

/-- Whatever fails and whenever it is stopped, the long part of a lock in a plain directory leaves every
entry in the workspace or in the data directory, and there when it goes through. -/
theorem slowWork_loses_nothing (hplain : cfg.strategy = .plainDir) (hcanon : (w.tree .canon).Closed)
    (hroot : (w.tree .canon).get [] ≠ none) (hdata : (w.tree (.data id)).Closed) (fs : List Bool) :
    (∀ w' ∈ Prog.moments (host cfg) (slowWork cfg id) fs w, Contained id w w') ∧
      ∀ result, (Prog.run (host cfg) (slowWork cfg id) fs w).1 = .ok result →
        Stored id w (Prog.run (host cfg) (slowWork cfg id) fs w).2.2 := by
  have hduring : (slowWork cfg id).during (host cfg) Prog.anyFault (Contained id w)
      (fun r v => ∀ result, r = .ok result → Stored id w v) w := slowWork_during hplain hcanon hroot hdata
  have hadmits := Prog.admits_of_forall (H := host cfg) (F := Prog.anyFault) (fun _ _ _ _ => trivial)
    (slowWork cfg id) fs w
  exact ⟨Prog.moments_of_during hduring hadmits, Prog.run_of_during hduring hadmits⟩

end Manager

theorem slowWork_of_unmoved :
    (∀ w' ∈ Prog.moments (host server) (Manager.slowWork server "0c1d2e3f") [] unmoved,
      Contained "0c1d2e3f" unmoved w') ∧
    ∀ result, (Prog.run (host server) (Manager.slowWork server "0c1d2e3f") [] unmoved).1 = .ok result →
      Stored "0c1d2e3f" unmoved (Prog.run (host server) (Manager.slowWork server "0c1d2e3f") [] unmoved).2.2 := by
  have hcanon : (unmoved.tree .canon).Closed := project_closed
  have hdata : (unmoved.tree (.data "0c1d2e3f")).Closed := emptyDir_closed
  exact Manager.slowWork_loses_nothing rfl hcanon (by decide) hdata []

end Silo.Workspace
