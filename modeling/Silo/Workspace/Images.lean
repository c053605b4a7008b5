import Silo.Workspace.PlainDir

namespace Silo.Workspace

open Silo.Lib

variable {cfg : Config} {F : Prog.Faults FsOp World} {w w' w'' : World} {α : Type} {I : World → Prop} {id : String}
variable {s : ContainerStrategy}

/-- The image of the workspace `id` holds the entry `i` at `x`. -/
def Held (s : ContainerStrategy) (id : String) (w : World) (x : Path) (i : Inode) : Prop :=
  ∃ t, (w.containers id).volume s = some t ∧ t.get x = some i

/-- Formatting and mounting make file systems, and mounting one loses nothing. -/
structure Volumes.Lawful (v : Volumes) : Prop where
  format_closed : ∀ s, (v.format s).Closed
  mount_closed : ∀ s t, t.Closed → (v.mount s t).Closed
  mount_keeps : ∀ s t x i, t.get x = some i → (v.mount s t).get x = some i

/-- `w'` differs from `w` neither in the workspace directory nor in the image. -/
structure KeepsImage (s : ContainerStrategy) (id : String) (w w' : World) : Prop where
  canon : w'.tree .canon = w.tree .canon
  volume : (w'.containers id).volume s = (w.containers id).volume s

namespace KeepsImage

theorem refl (w : World) : KeepsImage s id w w := ⟨rfl, rfl⟩

theorem trans (h : KeepsImage s id w w') (h' : KeepsImage s id w' w'') : KeepsImage s id w w'' :=
  ⟨h'.canon.trans h.canon, h'.volume.trans h.volume⟩

theorem held {x : Path} {i : Inode} (h : KeepsImage s id w w') (hx : Held s id w x i) : Held s id w' x i := by
  rw [Held]
  rw [h.volume]
  exact hx

end KeepsImage

theorem during_modify {o : FsOp (Except Errno Unit)} {f : Container → Except Errno Container} {program : String}
    {Q : Except WorkspaceError Unit → World → Prop} (ho : o.perform cfg w = w.modify id f)
    (hfailure : ∃ e, o.failure = .error e) (hnow : I w) (hfail : ∀ e, Q (.error e) w)
    (hok : ∀ c, f (w.containers id) = .ok c → I (w.setContainer id c) ∧ Q (.ok ()) (w.setContainer id c)) :
    (runTool program o).during (host cfg) F I Q w := by
  refine Io.during_call _ _ hnow fun b _ => ?_
  obtain ⟨e, he⟩ := hfailure
  rcases host_cases cfg o b w with h | h
  · rw [h, he]
    exact ⟨hnow, hfail _⟩
  · rw [h, ho]
    rcases w.modify_cases id f with ⟨e, -, hu⟩ | ⟨c, hc, hu⟩
    · rw [hu]
      exact ⟨hnow, hfail _⟩
    · rw [hu]
      exact hok c hc

namespace Strategy

theorem unmount_during {program : String} (w : World) :
    (runTool program (.unmount id)).during (host cfg) F (KeepsImage s id w) (fun _ => KeepsImage s id w) w := by
  refine during_modify (f := fun c => c.unmount) (by rw [FsOp.perform]) ⟨_, rfl⟩ (.refl w) (fun _ => .refl w)
    fun c hc => ?_
  rw [Container.unmount] at hc
  split at hc
  · cases hc
  · cases hc
    have hkeepsImage : KeepsImage s id w (w.setContainer id { w.containers id with mounted := none }) := by
      refine ⟨rfl, ?_⟩
      rw [World.setContainer_self]
      cases s <;> rfl
    exact ⟨hkeepsImage, hkeepsImage⟩

theorem retry_during {x y : Host Unit} (hx : ∀ v, x.during (host cfg) F (KeepsImage s id v) (fun _ => KeepsImage s id v) v)
    (hy : ∀ v, y.during (host cfg) F (KeepsImage s id v) (fun _ => KeepsImage s id v) v) (w : World) :
    (do
      match ← x.attempt with
      | .ok _ => pure ()
      | .error _ => y : Host Unit).during (host cfg) F (KeepsImage s id w) (fun _ => KeepsImage s id w) w := by
  refine (Io.during_bind ..).mpr ((Io.during_attempt ..).mpr (Io.during_mono (fun _ h => h) ?_ (hx w)))
  rintro (e | _) v - hv
  · exact Io.during_mono (fun _ h => hv.trans h) (fun _ _ _ h => hv.trans h) (hy v)
  · exact ⟨hv, hv⟩

theorem mapErr_during {x : Host Unit} {e : WorkspaceError} {v : World}
    (h : x.during (host cfg) F (KeepsImage s id v) (fun _ => KeepsImage s id v) v) :
    (x.mapErr fun _ => e).during (host cfg) F (KeepsImage s id v) (fun _ => KeepsImage s id v) v := by
  refine Io.during_mapErr _ _ (Io.during_mono (fun _ h => h) ?_ h)
  rintro (e | _) _ _ h <;> exact h

theorem ask_during {o : FsOp α} (ho : ∀ w, (o.perform cfg w).2 = w) {Q : Except WorkspaceError α → World → Prop}
    (hnow : I w) (hQ : ∀ a, Q (.ok a) w) : (Io.ask o).during (host cfg) F I Q w := by
  refine Io.during_ask _ hnow fun b _ => ?_
  rcases host_cases cfg o b w with h | h
  · rw [h]
    exact ⟨hnow, hQ _⟩
  · rw [h, show (o.perform cfg w).2 = w from ho w]
    exact ⟨hnow, hQ _⟩

theorem detachImage_during (w : World) :
    (detachImage id).during (host cfg) F (KeepsImage s id w) (fun _ => KeepsImage s id w) w := by
  refine (Io.during_bind ..).mpr (ask_during (fun _ => rfl) (.refl w) fun mounted => ?_)
  cases mounted with
  | false => exact ⟨.refl w, .refl w⟩
  | true => exact retry_during unmount_during (fun v => mapErr_during (unmount_during v)) w

theorem unmountFuse_during (w : World) :
    (unmountFuse cfg id).during (host cfg) F (KeepsImage s id w) (fun _ => KeepsImage s id w) w := by
  have hfuse : ∀ v, (runFusermount id).during (host cfg) F (KeepsImage s id v) (fun _ => KeepsImage s id v) v :=
    retry_during unmount_during unmount_during
  refine (Io.during_bind ..).mpr (ask_during (fun _ => rfl) (.refl w) fun mounted => ?_)
  cases mounted with
  | false => exact ⟨.refl w, .refl w⟩
  | true =>
      show (if cfg.linux then _ else _ : Host Unit).during (host cfg) F _ _ w
      split
      · exact retry_during hfuse (fun v => mapErr_during (hfuse v)) w
      · exact ⟨.refl w, .refl w⟩

end Strategy

/-- Every entry that the workspace had in `w` stands in it or in the image. -/
def Boxed (s : ContainerStrategy) (id : String) (w w' : World) : Prop :=
  ∀ r n i, (w.tree .canon).get (r ++ [n]) = some i →
    (w'.tree .canon).get (r ++ [n]) = some i ∨ Held s id w' (r ++ [n]) i

/-- In the image. -/
def AllHeld (s : ContainerStrategy) (id : String) (w w' : World) : Prop :=
  ∀ r n i, (w.tree .canon).get (r ++ [n]) = some i → Held s id w' (r ++ [n]) i

theorem AllHeld.boxed (h : AllHeld s id w w') : Boxed s id w w' := fun r n i hi => .inr (h r n i hi)

theorem boxed_of_canon (h : w'.tree .canon = w.tree .canon) : Boxed s id w w' := by
  intro r n i hi
  rw [h]
  exact .inl hi

/-- The workspace directory is as in `w`, the image of `id` is a file system, and it is mounted if
`up` says so. -/
structure Image (s : ContainerStrategy) (id : String) (up : Bool) (w w' : World) : Prop where
  canon : w'.tree .canon = w.tree .canon
  mounted : (w'.containers id).mounted = if up then some s else none
  closed : ∀ t, (w'.containers id).volume s = some t → t.Closed

theorem mnt_of_mounted (h : (w.containers id).mounted = some s) :
    w.tree (.mnt id) = ((w.containers id).volume s).getD [] := by
  simp [World.tree, Container.mntTree, h]

theorem held_of_mnt {x : Path} {i : Inode} (h : (w.containers id).mounted = some s)
    (hx : (w.tree (.mnt id)).get x = some i) : Held s id w x i := by
  rw [mnt_of_mounted h] at hx
  cases hvolume : (w.containers id).volume s with
  | none =>
      rw [hvolume] at hx
      cases hx
  | some t =>
      rw [hvolume] at hx
      exact ⟨t, hvolume, hx⟩

theorem Image.mnt_closed (h : Image s id true w w') : (w'.tree (.mnt id)).Closed := by
  rw [mnt_of_mounted h.mounted]
  cases hvolume : (w'.containers id).volume s with
  | none => exact fun _ _ hne => absurd rfl hne
  | some t => exact h.closed t hvolume

theorem Image.settable {up : Bool} (hs : s.usesImage) (h : Image s id up w w') : w'.Settable (.mnt id) := by
  change (w'.containers id).mounted ≠ _
  rw [h.mounted]
  cases up with
  | false => simp
  | true =>
      rintro ⟨⟩
      cases hs

namespace Strategy

theorem removeEntry_within (l : Loc) : (removeEntry cfg l).Only (Within cfg l.place) := by
  refine (Io.only_call (within_read fun _ => rfl)).bind fun i => ?_
  have hunlink : (fs (.unlink l)).Only (Within cfg l.place) :=
    Io.only_call (within_update rfl fun w => by rw [FsOp.perform])
  cases i with
  | dir m => exact removeDirAll_within cfg.depth l
  | file m bytes => exact hunlink
  | symlink target => exact hunlink

theorem removeContents_within (l : Loc) : (removeContents cfg l).Only (Within cfg l.place) := by
  refine (Io.only_call (within_read fun _ => rfl)).bind fun names => Io.only_forEach fun n _ => ?_
  exact removeEntry_within (l.child n)

theorem copyIn_during {v : World} (hs : s.usesImage) (hcanon : (w.tree .canon).Closed)
    (hroot : (w.tree .canon).get [] ≠ none) (hv : Image s id true w v) :
    (copyContents cfg canonDir (mountpoint id)).during (host cfg) F (Boxed s id w)
      (fun r v' => v'.tree .canon = w.tree .canon ∧ (r = .ok () → AllHeld s id w v')) v := by
  have hne : canonDir.place ≠ (mountpoint id).place := by simp [canonDir, mountpoint]
  have hsrc : v.tree canonDir.place = w.tree .canon := hv.canon
  have hcopy : (copyContents cfg canonDir (mountpoint id)).during (host cfg) F (Copying canonDir (mountpoint id) v)
      (fun r v' => r = .ok () → CopiedOf canonDir (mountpoint id)
        (((v.tree canonDir.place).names canonDir.path).filter fun n => n ∉ []) v v') v := by
    refine copyContentsExcluding_during hne (hv.settable hs) ?_ hv.mnt_closed ?_
    · rw [hsrc]
      exact hcanon
    · rw [hsrc]
      exact hroot
  have hkept : ∀ {v'}, Copying canonDir (mountpoint id) v v' → v'.tree .canon = w.tree .canon :=
    fun h => (h.others _ (by simp [mountpoint])).trans hv.canon
  refine Io.during_mono (fun v' h => boxed_of_canon (hkept h)) (fun r v' h hends => ⟨hkept h, fun hok => ?_⟩) hcopy
  intro r' n i hi
  have hmem : n ∈ (v.tree canonDir.place).names canonDir.path := by
    rw [hsrc]
    apply hcanon.mem_names (r := r')
    show (w.tree .canon).get (r' ++ [n]) ≠ none
    rw [hi]
    exact Option.some_ne_none _
  have hget := (hends hok).copied n (by simpa using hmem) r'
  change (v'.tree (.mnt id)).get (r' ++ [n]) = ((v.tree .canon).get (r' ++ [n])).or _ at hget
  rw [hv.canon, hi, Option.some_or] at hget
  exact held_of_mnt ((h.mounted id).trans hv.mounted) hget

theorem lockTail_during {x : Host Unit} {v : World} (hs : s.usesImage) (hcanon : (w.tree .canon).Closed)
    (hroot : (w.tree .canon).get [] ≠ none) (hv : Image s id true w v)
    (hx : ∀ v, x.during (host cfg) F (KeepsImage s id v) (fun _ => KeepsImage s id v) v) :
    (do
      let copyResult ← (copyContents cfg canonDir (mountpoint id)).attempt
      let unmountResult ← x.attempt
      Io.ofExcept copyResult
      Io.ofExcept unmountResult
      removeContents cfg canonDir : Host Unit).during (host cfg) F (Boxed s id w)
      (fun r v' => r = .ok () → AllHeld s id w v') v := by
  refine (Io.during_bind ..).mpr ((Io.during_attempt ..).mpr (Io.during_mono (fun _ h => h) ?_
    (copyIn_during hs hcanon hroot hv)))
  intro copyResult v₁ _ ⟨hcanon₁, hcopied⟩
  have hkeepsImage : ∀ {v₂}, KeepsImage s id v₁ v₂ → v₂.tree .canon = w.tree .canon := fun h => h.canon.trans hcanon₁
  refine (Io.during_bind ..).mpr ((Io.during_attempt ..).mpr (Io.during_mono
    (fun _ h => boxed_of_canon (hkeepsImage h)) ?_ (hx v₁)))
  intro unmountResult v₂ _ h₂
  refine (Io.during_bind ..).mpr (Io.during_ofExcept (boxed_of_canon (hkeepsImage h₂)) ?_)
  cases copyResult with
  | error e => exact fun h => by cases h
  | ok _ =>
  refine (Io.during_bind ..).mpr (Io.during_ofExcept (boxed_of_canon (hkeepsImage h₂)) ?_)
  cases unmountResult with
  | error e => exact fun h => by cases h
  | ok _ =>
  have hheld : ∀ {v₃}, SameBut .canon v₂ v₃ → AllHeld s id w v₃ := by
    intro v₃ h₃ r n i hi
    obtain ⟨t, ht, hget⟩ := h₂.held (hcopied rfl r n i hi)
    exact ⟨t, (h₃.volume id s (by simp)).trans ht, hget⟩
  exact Io.during_mono (fun _ h => (hheld h).boxed) (fun _ _ _ h _ => hheld h)
    (within_during (removeContents_within canonDir) v₂)

theorem create_during {program : String} {v : World} (hvolumes : cfg.volumes.Lawful)
    (hv : Image .sparseBundle id false w v) :
    (runTool program (.hdiutilCreate id)).during (host cfg) F (Boxed .sparseBundle id w)
      (fun r v' => r = .ok () → Image .sparseBundle id false w v') v := by
  refine during_modify (f := fun c => c.hdiutilCreate cfg.volumes) (by rw [FsOp.perform]) ⟨_, rfl⟩
    (boxed_of_canon hv.canon) (fun _ h => by cases h) fun c hc => ?_
  simp only [Container.hdiutilCreate] at hc
  split at hc
  · cases hc
  · cases hc
    refine ⟨boxed_of_canon hv.canon, fun _ => ⟨hv.canon, ?_, fun t ht => ?_⟩⟩
    · rw [World.setContainer_self]
      exact hv.mounted
    · rw [World.setContainer_self] at ht
      cases ht
      exact hvolumes.format_closed _

theorem createMountpoint_during {v : World} (hv : Image s id false w v) :
    (fs (.createDirAll (mountpoint id))).during (host cfg) F (Boxed s id w)
      (fun r v' => r = .ok () → Image s id false w v') v := by
  refine during_update (by rw [FsOp.perform]) ⟨_, rfl⟩ (boxed_of_canon hv.canon) (fun _ h => by cases h) fun t _ => ?_
  have hmounted : (v.containers id).mounted = none := hv.mounted
  have hcontainer : (v.setTree t (.mnt id)).containers id = { v.containers id with mnt := t } := by
    simp [World.setTree, Container.setMntTree, hmounted]
  refine ⟨boxed_of_canon hv.canon, fun _ => ⟨hv.canon, ?_, fun u hu => ?_⟩⟩
  · rw [show (mountpoint id).place = .mnt id from rfl, hcontainer]
    exact hmounted
  · rw [show (mountpoint id).place = .mnt id from rfl, hcontainer] at hu
    apply hv.closed u
    cases s <;> exact hu

theorem attach_during {program : String} {v : World} (hvolumes : cfg.volumes.Lawful) (hs : s.usesImage)
    (hv : Image s id false w v) :
    (runTool program (.mount s id)).during (host cfg) F (Boxed s id w)
      (fun r v' => r = .ok () → Image s id true w v') v := by
  refine during_modify (f := fun c => c.mount cfg.volumes s) (by rw [FsOp.perform]) ⟨_, rfl⟩
    (boxed_of_canon hv.canon) (fun _ h => by cases h) fun c hc => ?_
  simp only [Container.mount] at hc
  split at hc
  · cases hc
  · rename_i t ht
    split at hc
    · cases hc
    · cases hc
      refine ⟨boxed_of_canon hv.canon, fun _ => ⟨hv.canon, by rw [World.setContainer_self]; rfl, fun u hu => ?_⟩⟩
      rw [World.setContainer_self] at hu
      have hvolume := Container.volume_setVolume (c := v.containers id) hs (cfg.volumes.mount s t)
      have heq : cfg.volumes.mount s t = u := by
        cases s with
        | plainDir => cases hs
        | sparseBundle => exact Option.some.inj (hvolume.symm.trans hu)
        | ext4Fuse => exact Option.some.inj (hvolume.symm.trans hu)
      exact heq ▸ hvolumes.mount_closed s t (hv.closed t ht)

theorem lockIntoSparsebundle_during {v : World} (hvolumes : cfg.volumes.Lawful) (hcanon : (w.tree .canon).Closed)
    (hroot : (w.tree .canon).get [] ≠ none) (hv : Image .sparseBundle id false w v) :
    (lockIntoSparsebundle cfg canonDir id).during (host cfg) F (Boxed .sparseBundle id w)
      (fun r v' => r = .ok () → AllHeld .sparseBundle id w v') v := by
  rw [lockIntoSparsebundle]
  refine (Io.during_bind ..).mpr (Io.during_mono (fun _ h => h) ?_ (create_during hvolumes hv))
  rintro (e | _) v₁ - h₁
  · exact fun h => by cases h
  refine (Io.during_bind ..).mpr (Io.during_mono (fun _ h => h) ?_ (createMountpoint_during (h₁ rfl)))
  rintro (e | _) v₂ - h₂
  · exact fun h => by cases h
  refine (Io.during_bind ..).mpr (Io.during_mono (fun _ h => h) ?_ (attach_during hvolumes rfl (h₂ rfl)))
  rintro (e | _) v₃ - h₃
  · exact fun h => by cases h
  exact lockTail_during rfl hcanon hroot (h₃ rfl) unmount_during

theorem dirContentSize_within {pl : Place} (depth : Nat) (dir : Loc) :
    (dirContentSize depth dir).Only (Within cfg pl) := by
  induction depth generalizing dir with
  | zero => trivial
  | succ depth ih =>
      rw [dirContentSize]
      refine (Io.only_call (within_read fun _ => rfl)).bind fun names => Io.only_fold (fun total n _ => ?_) 0
      refine (Io.only_call (within_read fun _ => rfl)).bind fun i => ?_
      cases i with
      | dir m =>
          refine (ih (dir.child n)).bind fun below => ?_
          trivial
      | file m bytes => trivial
      | symlink target => trivial

theorem createImg_during {v : World} {size : Nat} (hv : Image .ext4Fuse id false w v) :
    (fs (.createImg id size)).during (host cfg) F (Boxed .ext4Fuse id w)
      (fun r v' => r = .ok () → Image .ext4Fuse id false w v') v := by
  refine Io.during_call _ _ (boxed_of_canon hv.canon) fun b _ => ?_
  rcases host_cases cfg (.createImg id size) b v with h | h
  · rw [h]
    exact ⟨boxed_of_canon hv.canon, fun h => by cases h⟩
  · rw [h]
    refine ⟨boxed_of_canon hv.canon, fun _ => ⟨hv.canon, ?_, fun t ht => ?_⟩⟩
    · simp only [FsOp.perform, World.modify, World.setContainer_self]
      exact hv.mounted
    · simp only [FsOp.perform, World.modify, World.setContainer_self] at ht
      cases ht

theorem mkfsExt4_during {program : String} {v : World} (hvolumes : cfg.volumes.Lawful)
    (hv : Image .ext4Fuse id false w v) :
    (runTool program (.mkfsExt4 id)).during (host cfg) F (Boxed .ext4Fuse id w)
      (fun r v' => r = .ok () → Image .ext4Fuse id false w v') v := by
  refine during_modify (f := fun c => c.mkfsExt4 cfg.volumes) (by rw [FsOp.perform]) ⟨_, rfl⟩
    (boxed_of_canon hv.canon) (fun _ h => by cases h) fun c hc => ?_
  simp only [Container.mkfsExt4] at hc
  split at hc
  · cases hc
  · cases hc
    refine ⟨boxed_of_canon hv.canon, fun _ => ⟨hv.canon, ?_, fun t ht => ?_⟩⟩
    · rw [World.setContainer_self]
      exact hv.mounted
    · rw [World.setContainer_self] at ht
      cases ht
      exact hvolumes.format_closed _

theorem mountExt4Image_during {v : World} (hvolumes : cfg.volumes.Lawful) (hv : Image .ext4Fuse id false w v) :
    (mountExt4Image cfg id).during (host cfg) F (Boxed .ext4Fuse id w)
      (fun r v' => r = .ok () → Image .ext4Fuse id true w v') v := by
  rw [mountExt4Image]
  split
  · exact attach_during hvolumes rfl hv
  · exact ⟨boxed_of_canon hv.canon, fun h => by cases h⟩

theorem removeLostAndFound_during {v : World} (hs : s.usesImage) (hv : Image s id true w v) :
    (fs (.rmdir ((mountpoint id).child lostAndFound))).ignore.during (host cfg) F (Boxed s id w)
      (fun _ v' => Image s id true w v') v := by
  have hremove : (fs (.rmdir ((mountpoint id).child lostAndFound))).during (host cfg) F
      (Removing ((mountpoint id).child lostAndFound) v) (RemoveEnds ((mountpoint id).child lostAndFound)) v :=
    rmdir_during (hv.settable hs) (.refl hv.mnt_closed)
  have hkept : ∀ {v'}, Removing ((mountpoint id).child lostAndFound) v v' → Image s id true w v' := by
    intro v' h
    have hmounted : (v'.containers id).mounted = some s := (h.mounted id).trans hv.mounted
    refine ⟨(h.others .canon (by simp [mountpoint, Loc.child])).trans hv.canon, hmounted, fun t ht => ?_⟩
    have hclosed : (v'.tree (.mnt id)).Closed := h.closed
    rw [mnt_of_mounted hmounted, ht] at hclosed
    exact hclosed
  exact (Io.during_ignore ..).mpr (Io.during_mono (fun _ h => boxed_of_canon (hkept h).canon)
    (fun _ _ h _ => hkept h) hremove)

theorem lockIntoExt4Image_during {v : World} (hvolumes : cfg.volumes.Lawful) (hcanon : (w.tree .canon).Closed)
    (hroot : (w.tree .canon).get [] ≠ none) (hv : Image .ext4Fuse id false w v) :
    (lockIntoExt4Image cfg canonDir id).during (host cfg) F (Boxed .ext4Fuse id w)
      (fun r v' => r = .ok () → AllHeld .ext4Fuse id w v') v := by
  rw [lockIntoExt4Image]
  split
  swap
  · exact ⟨boxed_of_canon hv.canon, fun h => by cases h⟩
  have hwithin : (dirContentSize cfg.depth canonDir).Only (Within cfg (.blobs id)) :=
    dirContentSize_within cfg.depth canonDir
  have hkept : ∀ {v'}, SameBut (.blobs id) v v' → Image .ext4Fuse id false w v' := by
    intro v' h
    refine ⟨(h.others .canon (by simp)).trans hv.canon, (h.mounted id).trans hv.mounted, fun t ht => ?_⟩
    exact hv.closed t ((h.volume id .ext4Fuse (by simp)).symm.trans ht)
  refine (Io.during_bind ..).mpr (Io.during_mono (fun _ h => boxed_of_canon (hkept h).canon) ?_ (within_during hwithin v))
  rintro (e | size) v₁ - h₁
  · exact fun h => by cases h
  refine (Io.during_bind ..).mpr (Io.during_mono (fun _ h => h) ?_ (createImg_during (hkept h₁)))
  rintro (e | _) v₂ - h₂
  · exact fun h => by cases h
  refine (Io.during_bind ..).mpr (Io.during_mono (fun _ h => h) ?_ (mkfsExt4_during hvolumes (h₂ rfl)))
  rintro (e | _) v₃ - h₃
  · exact fun h => by cases h
  refine (Io.during_bind ..).mpr (Io.during_mono (fun _ h => h) ?_ (createMountpoint_during (h₃ rfl)))
  rintro (e | _) v₄ - h₄
  · exact fun h => by cases h
  refine (Io.during_bind ..).mpr (Io.during_mono (fun _ h => h) ?_ (mountExt4Image_during hvolumes (h₄ rfl)))
  rintro (e | _) v₅ - h₅
  · exact fun h => by cases h
  refine (Io.during_bind ..).mpr (Io.during_mono (fun _ h => h) ?_ (removeLostAndFound_during rfl (h₅ rfl)))
  rintro (e | _) v₆ - h₆
  · exact fun h => by cases h
  exact lockTail_during rfl hcanon hroot h₆ unmountFuse_during

end Strategy

/-- The image has lost nothing since `w`. -/
def Sealed (s : ContainerStrategy) (id : String) (w w' : World) : Prop :=
  ∀ x i, Held s id w x i → Held s id w' x i

def exposed (cfg : Config) (s : ContainerStrategy) (id : String) (w : World) : FileTree :=
  let content := ((w.containers id).volume s).getD []
  if (w.containers id).mounted = some s then content else cfg.volumes.mount s content

/-- The workspace has no symbolic link where the image has a file or a directory. -/
def Ready (cfg : Config) (s : ContainerStrategy) (id : String) (w : World) : Prop :=
  ∀ r i target, (exposed cfg s id w).get r = some i → i.isLink = false → (w.tree .canon).get r ≠ some (.symlink target)

/-- The image has lost nothing, and while it is mounted nothing of it meets a link. -/
structure Intact (s : ContainerStrategy) (id : String) (w w' : World) : Prop where
  kept : Sealed s id w w'
  unlinked : (w'.containers id).mounted = some s → Unlinked (Strategy.mountpoint id) Strategy.canonDir w'

structure Opened (cfg : Config) (s : ContainerStrategy) (id : String) (w w' : World) : Prop where
  kept : Sealed s id w w'
  fits : (w'.containers id).mounted = none ∨ (w'.containers id).mounted = some s
  closed : ∀ t, (w'.containers id).volume s = some t → t.Closed ∧ t.get [] ≠ none
  there : (w'.containers id).mounted = some s → (w'.containers id).volume s ≠ none
  canon : (w'.tree .canon).Closed
  ready : Ready cfg s id w'

namespace Opened

theorem settable (hs : s.usesImage) (h : Opened cfg s id w w') : w'.Settable (.mnt id) := by
  change (w'.containers id).mounted ≠ _
  rcases h.fits with hm | hm
  · rw [hm]
    rintro ⟨⟩
  · rw [hm]
    rintro ⟨⟩
    cases hs

theorem of_volume (h : Opened cfg s id w w') (hvolume : (w''.containers id).volume s = (w'.containers id).volume s)
    (hmounted : (w''.containers id).mounted = (w'.containers id).mounted)
    (hcanon : w''.tree .canon = w'.tree .canon) : Opened cfg s id w w'' := by
  refine ⟨fun x i hx => ?_, ?_, ?_, ?_, ?_, ?_⟩
  · obtain ⟨t, ht, hget⟩ := h.kept x i hx
    exact ⟨t, hvolume.trans ht, hget⟩
  · rw [hmounted]
    exact h.fits
  · rw [hvolume]
    exact h.closed
  · rw [hmounted, hvolume]
    exact h.there
  · rw [hcanon]
    exact h.canon
  · have hexposed : exposed cfg s id w'' = exposed cfg s id w' := by
      simp only [exposed, hvolume, hmounted]
    rw [Ready, hexposed, hcanon]
    exact h.ready

theorem mnt (h : Opened cfg s id w w') (hm : (w'.containers id).mounted = some s) :
    ∃ t, (w'.containers id).volume s = some t ∧ w'.tree (.mnt id) = t ∧ t.Closed ∧ t.get [] ≠ none := by
  obtain ⟨t, ht⟩ := Option.ne_none_iff_exists'.mp (h.there hm)
  refine ⟨t, ht, ?_, h.closed t ht⟩
  rw [mnt_of_mounted hm, ht]
  rfl

theorem intact (h : Opened cfg s id w w') : Intact s id w w' := by
  refine ⟨h.kept, fun hm => ?_⟩
  obtain ⟨t, ht, htree, -, -⟩ := h.mnt hm
  have hexposed : exposed cfg s id w' = t := by
    simp only [exposed, hm, if_true, ht, Option.getD_some]
  constructor
  · intro x target hx hne
    exact absurd (List.suffix_nil.mp hx) hne
  · intro r i target hi hlink
    simp only [Strategy.mountpoint, Strategy.canonDir, List.append_nil, htree] at hi ⊢
    exact h.ready r i target (hexposed ▸ hi) hlink

end Opened

/-- Everything that the image held in `w`, but for the entries `exclude`, is back. -/
def PutBack (s : ContainerStrategy) (id : String) (exclude : List Name) (w w' : World) : Prop :=
  ∀ r n i, n ∉ exclude → Held s id w (r ++ [n]) i → (w'.tree .canon).get (r ++ [n]) = some i

namespace Strategy

theorem openMountpoint_during {v : World} (hs : s.usesImage) (hv : Opened cfg s id w v) :
    (fs (.createDirAll (mountpoint id))).during (host cfg) F (Intact s id w)
      (fun r v' => r = .ok () → Opened cfg s id w v') v := by
  refine during_update (by rw [FsOp.perform]) ⟨_, rfl⟩ hv.intact (fun _ h => by cases h) fun t ht => ?_
  have hnext : Opened cfg s id w (v.setTree t (.mnt id)) := by
    refine hv.of_volume ?_ (World.setTree_mounted ..) ?_
    · rcases hv.fits with hm | hm
      · simp only [World.setTree, World.setContainer_self, Container.setMntTree, hm]
        cases s <;> rfl
      · obtain ⟨u, hu, htree, -, hroot⟩ := hv.mnt hm
        have ht : (v.tree (.mnt id)).mkdir [] (World.dirMode cfg) = .ok t := ht
        rw [htree] at ht
        rw [FileTree.mkdir_existing hroot ht]
        simp only [World.setTree, World.setContainer_self, Container.setMntTree, hm]
        rw [Container.volume_setVolume hs, hu]
    · exact World.tree_setTree_of_ne (by simp)
  exact ⟨hnext.intact, fun _ => hnext⟩

theorem remount_during {program : String} {v : World} (hvolumes : cfg.volumes.Lawful) (hs : s.usesImage)
    (hv : Opened cfg s id w v) :
    (runTool program (.mount s id)).during (host cfg) F (Intact s id w)
      (fun r v' => r = .ok () → Opened cfg s id w v' ∧ (v'.containers id).mounted = some s) v := by
  refine during_modify (f := fun c => c.mount cfg.volumes s) (by rw [FsOp.perform]) ⟨_, rfl⟩
    hv.intact (fun _ h => by cases h) fun c hc => ?_
  simp only [Container.mount] at hc
  split at hc
  · cases hc
  rename_i t ht
  split at hc
  · cases hc
  rename_i hunmounted
  cases hc
  have hvolume : (Container.volume { (v.containers id).setVolume (cfg.volumes.mount s t) s with mounted := some s } s) =
      some (cfg.volumes.mount s t) := by
    refine Eq.trans ?_ (Container.volume_setVolume (c := v.containers id) hs (cfg.volumes.mount s t))
    cases s <;> rfl
  have hnext : Opened cfg s id w (v.setContainer id { (v.containers id).setVolume (cfg.volumes.mount s t) s with
      mounted := some s }) := by
    refine ⟨fun x i hx => ?_, .inr ?_, fun u hu => ?_, fun _ => ?_, hv.canon, ?_⟩
    · obtain ⟨u, hu, hget⟩ := hv.kept x i hx
      rw [ht] at hu
      cases hu
      exact ⟨_, by rw [World.setContainer_self]; exact hvolume, hvolumes.mount_keeps s _ x i hget⟩
    · rw [World.setContainer_self]
    · rw [World.setContainer_self, hvolume] at hu
      cases hu
      obtain ⟨hclosed, hroot⟩ := hv.closed t ht
      obtain ⟨i, hi⟩ := Option.ne_none_iff_exists'.mp hroot
      refine ⟨hvolumes.mount_closed s t hclosed, ?_⟩
      rw [hvolumes.mount_keeps s t [] i hi]
      exact Option.some_ne_none _
    · rw [World.setContainer_self, hvolume]
      exact Option.some_ne_none _
    · have hexposed : exposed cfg s id (v.setContainer id { (v.containers id).setVolume (cfg.volumes.mount s t) s with
          mounted := some s }) = exposed cfg s id v := by
        have hnone : (v.containers id).mounted ≠ some s := by
          intro hm
          exact hunmounted (by rw [hm]; rfl)
        simp only [exposed, World.setContainer_self, if_true, hvolume, if_neg hnone, ht, Option.getD_some]
      rw [Ready, hexposed]
      exact hv.ready
  exact ⟨hnext.intact, fun _ => ⟨hnext, by rw [World.setContainer_self]⟩⟩

theorem restoreTail_during {x : Host Unit} {exclude : List Name} {v : World}
    (hv : Opened cfg s id w v) (hm : (v.containers id).mounted = some s)
    (hx : ∀ v, x.during (host cfg) F (KeepsImage s id v) (fun _ => KeepsImage s id v) v) :
    (do
      let copyResult ← (copyContentsExcluding cfg (mountpoint id) canonDir exclude).attempt
      let unmountResult ← x.attempt
      Io.ofExcept copyResult
      Io.ofExcept unmountResult : Host Unit).during (host cfg) F (Intact s id w)
      (fun r v' => r = .ok () → PutBack s id exclude w v') v := by
  obtain ⟨t, ht, htree, hclosed, hroot⟩ := hv.mnt hm
  have hne : (mountpoint id).place ≠ canonDir.place := by simp [canonDir, mountpoint]
  have hsrc : v.tree (mountpoint id).place = t := htree
  have hcopy : (copyContentsExcluding cfg (mountpoint id) canonDir exclude).during (host cfg) F
      (Copying (mountpoint id) canonDir v) (fun r v' => r = .ok () → CopiedOf (mountpoint id) canonDir
        (((v.tree (mountpoint id).place).names (mountpoint id).path).filter fun n => n ∉ exclude) v v') v := by
    refine copyContentsExcluding_during hne trivial ?_ hv.canon ?_
    · rw [hsrc]
      exact hclosed
    · rw [hsrc]
      exact hroot
  have hsealed : ∀ {v'}, (v'.containers id).volume s = (v.containers id).volume s → Sealed s id w v' := by
    intro v' h x i hi
    obtain ⟨u, hu, hget⟩ := hv.kept x i hi
    exact ⟨u, h.trans hu, hget⟩
  have hcopying : ∀ {v'}, Copying (mountpoint id) canonDir v v' → Intact s id w v' := fun h =>
    ⟨hsealed (h.volume id s (by simp [canonDir])), fun _ => h.unlinked hne (hv.intact.unlinked hm)⟩
  refine (Io.during_bind ..).mpr ((Io.during_attempt ..).mpr (Io.during_mono (fun _ h => hcopying h) ?_ hcopy))
  intro copyResult v₁ h₁ hcopied
  have hvolume₁ := h₁.volume id s (by simp [canonDir])
  have hkeepsImage : ∀ {v'}, KeepsImage s id v₁ v' → Intact s id w v' := by
    intro v' h
    refine ⟨hsealed (h.volume.trans hvolume₁), fun hm' => ?_⟩
    have hunlinked := h₁.unlinked hne (hv.intact.unlinked hm)
    have hm₁ : (v₁.containers id).mounted = some s := (h₁.mounted id).trans hm
    refine hunlinked.of_linksFrom (fun x target hget => .inl ?_) fun x => .inl ?_
    · exact (congrArg (FileTree.get · x) h.canon).symm.trans hget
    · exact congrArg (FileTree.get · x) (by rw [mountpoint, mnt_of_mounted hm', mnt_of_mounted hm₁, h.volume])
  refine (Io.during_bind ..).mpr ((Io.during_attempt ..).mpr (Io.during_mono (fun _ h => hkeepsImage h) ?_ (hx v₁)))
  intro unmountResult v₂ _ h₂
  have hsealed₂ : Intact s id w v₂ := hkeepsImage h₂
  refine (Io.during_bind ..).mpr (Io.during_ofExcept hsealed₂ ?_)
  cases copyResult with
  | error e => exact fun h => by cases h
  | ok _ =>
  refine Io.during_ofExcept hsealed₂ fun _ r n i hn hi => ?_
  obtain ⟨u, hu, hget⟩ := hv.kept _ i hi
  rw [ht] at hu
  cases hu
  have hmem : n ∈ t.names (mountpoint id).path := by
    apply hclosed.mem_names (r := r)
    show t.get (r ++ [n]) ≠ none
    rw [hget]
    exact Option.some_ne_none _
  have hover := (hcopied rfl).copied n (List.mem_filter.mpr ⟨by rw [hsrc]; exact hmem, by simpa using hn⟩) r
  change (v₁.tree .canon).get (r ++ [n]) = ((v.tree (.mnt id)).get (r ++ [n])).or _ at hover
  rw [h₂.canon, hover, htree, hget]
  rfl

theorem reopen_during {x y : Host Unit} {Q : Except WorkspaceError Unit → World → Prop} {v : World}
    (hs : s.usesImage) (hv : Opened cfg s id w v)
    (hx : ∀ v, Opened cfg s id w v → x.during (host cfg) F (Intact s id w)
      (fun r v' => r = .ok () → Opened cfg s id w v' ∧ (v'.containers id).mounted = some s) v)
    (hy : ∀ v, Opened cfg s id w v → (v.containers id).mounted = some s → y.during (host cfg) F (Intact s id w) Q v)
    (hfail : ∀ e v, Q (.error e) v) :
    (do
      fs (.createDirAll (mountpoint id))
      let mounted ← Io.ask (.isMountpoint id)
      Io.when (!mounted) x
      y : Host Unit).during (host cfg) F (Intact s id w) Q v := by
  refine (Io.during_bind ..).mpr (Io.during_mono (fun _ h => h) ?_ (openMountpoint_during hs hv))
  rintro (e | _) v₁ - h₁
  · exact hfail e v₁
  have hx₁ := hx v₁ (h₁ rfl)
  have hy₁ := hy v₁ (h₁ rfl)
  refine (Io.during_bind ..).mpr (Io.during_ask _ (h₁ rfl).intact fun b _ => ?_)
  have hnot : (Io.when true x >>= fun _ => y).during (host cfg) F (Intact s id w) Q v₁ := by
    refine (Io.during_bind ..).mpr (Io.during_mono (fun _ h => h) ?_ hx₁)
    rintro (e | _) v₂ - h₂
    · exact hfail e v₂
    · exact hy v₂ (h₂ rfl).1 (h₂ rfl).2
  rcases host_cases cfg (.isMountpoint id) b v₁ with hr | hr
  · rw [hr]
    exact ⟨(h₁ rfl).intact, hnot⟩
  · rw [hr]
    refine ⟨(h₁ rfl).intact, ?_⟩
    simp only [FsOp.perform]
    cases hm : (v₁.containers id).mounted with
    | none => exact hnot
    | some s' =>
        refine (Io.during_bind ..).mpr ⟨(h₁ rfl).intact, hy₁ ?_⟩
        rcases (h₁ rfl).fits with h | h
        · rw [h] at hm
          cases hm
        · exact h

theorem restoreFromSparsebundle_during {v : World} (hvolumes : cfg.volumes.Lawful)
    (hv : Opened cfg .sparseBundle id w v) :
    (restoreFromSparsebundle cfg id canonDir).during (host cfg) F (Intact .sparseBundle id w)
      (fun r v' => r = .ok () → PutBack .sparseBundle id volumeMetadata w v') v :=
  reopen_during rfl hv (fun _ h => remount_during hvolumes rfl h)
    (fun _ h hm => restoreTail_during h hm detachImage_during) fun _ _ h => by cases h

theorem restoreFromExt4Image_during {v : World} (hvolumes : cfg.volumes.Lawful) (hv : Opened cfg .ext4Fuse id w v) :
    (restoreFromExt4Image cfg id canonDir).during (host cfg) F (Intact .ext4Fuse id w)
      (fun r v' => r = .ok () → PutBack .ext4Fuse id ext4VolumeMetadata w v') v := by
  have hmount : ∀ v, Opened cfg .ext4Fuse id w v → (mountExt4Image cfg id).during (host cfg) F (Intact .ext4Fuse id w)
      (fun r v' => r = .ok () → Opened cfg .ext4Fuse id w v' ∧ (v'.containers id).mounted = some .ext4Fuse) v := by
    intro v hv
    rw [mountExt4Image]
    split
    · exact remount_during hvolumes rfl hv
    · exact ⟨hv.intact, fun h => by cases h⟩
  rw [restoreFromExt4Image]
  split
  · exact reopen_during rfl hv hmount (fun _ h hm => restoreTail_during h hm unmountFuse_during) fun _ _ h => by cases h
  · exact ⟨hv.intact, fun h => by cases h⟩

/-- Whatever fails and whenever it is stopped, moving a workspace into an image leaves every entry in
the workspace or in the image, and there when it goes through. -/
theorem image_lock_loses_nothing (hvolumes : cfg.volumes.Lawful) (hcanon : (w.tree .canon).Closed)
    (hroot : (w.tree .canon).get [] ≠ none) (hmounted : (w.containers id).mounted = none)
    (hclosed : ∀ s t, (w.containers id).volume s = some t → t.Closed) (fs : List Bool) :
    ((∀ w' ∈ Prog.moments (host cfg) (lockIntoSparsebundle cfg canonDir id) fs w, Boxed .sparseBundle id w w') ∧
      ((Prog.run (host cfg) (lockIntoSparsebundle cfg canonDir id) fs w).1 = .ok () →
        AllHeld .sparseBundle id w (Prog.run (host cfg) (lockIntoSparsebundle cfg canonDir id) fs w).2.2)) ∧
    ((∀ w' ∈ Prog.moments (host cfg) (lockIntoExt4Image cfg canonDir id) fs w, Boxed .ext4Fuse id w w') ∧
      ((Prog.run (host cfg) (lockIntoExt4Image cfg canonDir id) fs w).1 = .ok () →
        AllHeld .ext4Fuse id w (Prog.run (host cfg) (lockIntoExt4Image cfg canonDir id) fs w).2.2)) := by
  have hbundle := lockIntoSparsebundle_during (F := Prog.anyFault) hvolumes hcanon hroot
    ⟨rfl, hmounted, hclosed .sparseBundle⟩
  have himage := lockIntoExt4Image_during (F := Prog.anyFault) hvolumes hcanon hroot ⟨rfl, hmounted, hclosed .ext4Fuse⟩
  have hadmits : ∀ x : Host Unit, Prog.Admits (host cfg) Prog.anyFault x fs w :=
    fun x => Prog.admits_of_forall (fun _ _ _ _ => trivial) x fs w
  exact ⟨⟨Prog.moments_of_during hbundle (hadmits _), Prog.run_of_during hbundle (hadmits _)⟩,
    Prog.moments_of_during himage (hadmits _), Prog.run_of_during himage (hadmits _)⟩

/-- Whatever fails and whenever it is stopped, restoring a workspace from its image takes nothing from
the image and meets no link, and all is back when it goes through. -/
theorem image_restore_loses_nothing (hvolumes : cfg.volumes.Lawful) (hcanon : (w.tree .canon).Closed)
    (hs : s.usesImage) (hfits : (w.containers id).mounted = none ∨ (w.containers id).mounted = some s)
    (hclosed : ∀ t, (w.containers id).volume s = some t → t.Closed ∧ t.get [] ≠ none)
    (hthere : (w.containers id).volume s ≠ none) (hready : Ready cfg s id w) (fs : List Bool) :
    let restore := if s = .sparseBundle then restoreFromSparsebundle cfg id canonDir
      else restoreFromExt4Image cfg id canonDir
    let metadata := if s = .sparseBundle then volumeMetadata else ext4VolumeMetadata
    (∀ w' ∈ Prog.moments (host cfg) restore fs w, Intact s id w w') ∧
      ((Prog.run (host cfg) restore fs w).1 = .ok () →
        PutBack s id metadata w (Prog.run (host cfg) restore fs w).2.2) := by
  intro restore metadata
  have hopened : Opened cfg s id w w := ⟨fun _ _ h => h, hfits, hclosed, fun _ => hthere, hcanon, hready⟩
  have hduring : restore.during (host cfg) Prog.anyFault (Intact s id w)
      (fun r v' => r = .ok () → PutBack s id metadata w v') w := by
    cases s with
    | plainDir => cases hs
    | sparseBundle => exact restoreFromSparsebundle_during hvolumes hopened
    | ext4Fuse => exact restoreFromExt4Image_during hvolumes hopened
  have hadmits := Prog.admits_of_forall (H := host cfg) (F := Prog.anyFault) (fun _ _ _ _ => trivial) restore fs w
  exact ⟨Prog.moments_of_during hduring hadmits, Prog.run_of_during hduring hadmits⟩

end Strategy

theorem server_lawful : server.volumes.Lawful :=
  ⟨fun _ => emptyDir_closed, fun _ _ h => h, fun _ _ _ _ h => h⟩

theorem image_lock_of_unmoved :
    ((∀ w' ∈ Prog.moments (host server) (Strategy.lockIntoSparsebundle server Strategy.canonDir "0c1d2e3f") [] unmoved,
        Boxed .sparseBundle "0c1d2e3f" unmoved w') ∧
      ((Prog.run (host server) (Strategy.lockIntoSparsebundle server Strategy.canonDir "0c1d2e3f") [] unmoved).1 = .ok () →
        AllHeld .sparseBundle "0c1d2e3f" unmoved
          (Prog.run (host server) (Strategy.lockIntoSparsebundle server Strategy.canonDir "0c1d2e3f") [] unmoved).2.2)) ∧
    ((∀ w' ∈ Prog.moments (host server) (Strategy.lockIntoExt4Image server Strategy.canonDir "0c1d2e3f") [] unmoved,
        Boxed .ext4Fuse "0c1d2e3f" unmoved w') ∧
      ((Prog.run (host server) (Strategy.lockIntoExt4Image server Strategy.canonDir "0c1d2e3f") [] unmoved).1 = .ok () →
        AllHeld .ext4Fuse "0c1d2e3f" unmoved
          (Prog.run (host server) (Strategy.lockIntoExt4Image server Strategy.canonDir "0c1d2e3f") [] unmoved).2.2)) := by
  have hcanon : (unmoved.tree .canon).Closed := project_closed
  refine Strategy.image_lock_loses_nothing server_lawful hcanon (by decide) rfl (fun s t ht => ?_) []
  cases s <;> cases ht

/-- Locked, with the contents in an image. -/
def imaged : World :=
  ⟨emptyDir, fun _ => { img := some (some project), mnt := emptyDir },
    some ⟨"0c1d2e3f", true, false, .ext4Fuse, none, [], []⟩, fun _ => false, 1⟩

theorem image_restore_of_imaged :
    (∀ w' ∈ Prog.moments (host server) (Strategy.restoreFromExt4Image server "0c1d2e3f" Strategy.canonDir) [] imaged,
      Intact .ext4Fuse "0c1d2e3f" imaged w') ∧
    ((Prog.run (host server) (Strategy.restoreFromExt4Image server "0c1d2e3f" Strategy.canonDir) [] imaged).1 = .ok () →
      PutBack .ext4Fuse "0c1d2e3f" Strategy.ext4VolumeMetadata imaged
        (Prog.run (host server) (Strategy.restoreFromExt4Image server "0c1d2e3f" Strategy.canonDir) [] imaged).2.2) := by
  have hcanon : (imaged.tree .canon).Closed := emptyDir_closed
  refine Strategy.image_restore_loses_nothing (s := .ext4Fuse) server_lawful hcanon rfl (.inl rfl)
    (fun t ht => ?_) (by simp [imaged, Container.volume]) (fun r i target _ _ hget => ?_) []
  · cases ht
    exact ⟨project_closed, by decide⟩
  · have hmem := FileTree.mem_of_get hget
    simp [imaged, World.tree, emptyDir] at hmem

end Silo.Workspace
