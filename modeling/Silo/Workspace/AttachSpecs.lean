import Silo.Workspace.Attach
import Silo.Workspace.World

namespace Silo.Workspace

open Silo.Lib

variable {cfg : Config} {F : Prog.Faults FsOp World} {w : World} {α : Type}

theorem wp_ask_isDir {Q : Except WorkspaceError Bool → World → Prop} {l : Loc}
    (hno : Q (.ok false) w)
    (hyes : ∀ m, (w.tree l.place).lstat l.path = .ok (.dir m) → Q (.ok true) w) :
    (Io.ask (.isDir l)).wp (host cfg) F Q w := by
  rw [Io.wp_ask]
  intro b _
  rcases host_cases cfg (.isDir l) b w with h | h
  · rw [h]
    exact hno
  · rw [h]
    simp only [FsOp.perform]
    split
    · exact hyes _ ‹_›
    · exact hno

namespace Manager

/-- What mounting and unmounting the image of workspace `id` leaves alone. -/
structure KeepsData (id : String) (w w' : World) : Prop where
  registry : w'.registry = w.registry
  alive : w'.alive = w.alive
  drawn : w'.drawn = w.drawn
  data : (w'.containers id).data = (w.containers id).data

theorem keepsData_refl (id : String) (w : World) : KeepsData id w w := ⟨rfl, rfl, rfl, rfl⟩

theorem keepsData_setContainer {id : String} {c : Container} (h : c.data = (w.containers id).data) :
    KeepsData id w (w.setContainer id c) :=
  ⟨rfl, rfl, rfl, by rw [World.setContainer_self, h]⟩

theorem KeepsData.trans {id : String} {u v : World} (huv : KeepsData id u v) (hvw : KeepsData id v w) :
    KeepsData id u w :=
  ⟨hvw.registry.trans huv.registry, hvw.alive.trans huv.alive, hvw.drawn.trans huv.drawn,
    hvw.data.trans huv.data⟩

end Manager

theorem wp_ask_isMountpoint {Q : Except WorkspaceError Bool → World → Prop} {id : String}
    (hno : Q (.ok false) w) (hyes : (w.containers id).mounted.isSome → Q (.ok true) w) :
    (Io.ask (.isMountpoint id)).wp (host cfg) F Q w := by
  rw [Io.wp_ask]
  intro b _
  rcases host_cases cfg (.isMountpoint id) b w with h | h
  · rw [h]
    exact hno
  · rw [h]
    simp only [FsOp.perform]
    cases hm : (w.containers id).mounted.isSome with
    | false => exact hno
    | true => exact hyes hm

theorem wp_ask_liveness {Q : Except WorkspaceError (Process → Bool) → World → Prop}
    (h : Q (.ok w.alive) w) : (Io.ask .liveness).wp (host cfg) F Q w := by
  rw [Io.wp_ask]
  intro b _
  rw [host_of_infallible rfl]
  exact h

theorem wp_ask_shortId {Q : Except WorkspaceError String → World → Prop}
    (h : Q (.ok (cfg.ids w.drawn)) { w with drawn := w.drawn + 1 }) :
    (Io.ask .shortId).wp (host cfg) F Q w := by
  rw [Io.wp_ask]
  intro b _
  rw [host_of_infallible rfl]
  exact h

theorem wp_ofExcept {x : Except WorkspaceError α} {Q : Except WorkspaceError α → World → Prop}
    (h : Q x w) : (Io.ofExcept x : Host α).wp (host cfg) F Q w := by
  cases x <;> exact h

theorem wp_createMountpoint {Q : Except WorkspaceError Unit → World → Prop} {id : String}
    (hfail : ∀ e, Q (.error e) w) (hnew : ∀ t, Q (.ok ()) (w.setTree t (.mnt id))) :
    (fs (.createDirAll (Strategy.mountpoint id))).wp (host cfg) F Q w := by
  refine (Io.wp_call ..).mpr fun b _ => ?_
  rcases host_cases cfg (.createDirAll (Strategy.mountpoint id)) b w with h | h
  · rw [h]
    exact hfail _
  · rw [h]
    rcases w.update_cases (Strategy.mountpoint id) fun t =>
      t.mkdir (Strategy.mountpoint id).path (World.dirMode cfg) with ⟨e, -, hu⟩ | ⟨t, -, hu⟩
    · simp only [FsOp.perform, hu]
      exact hfail _
    · simp only [FsOp.perform, hu]
      exact hnew t

theorem wp_runTool_mount {Q : Except WorkspaceError Unit → World → Prop} {id program : String}
    {s : ContainerStrategy} (hfail : ∀ e, Q (.error e) w)
    (hok : ∀ t, (w.containers id).mounted = none → (w.containers id).volume s = some t →
      Q (.ok ()) (w.setContainer id { (w.containers id).setVolume (cfg.volumes.mount s t) s with
        mounted := some s })) :
    (runTool program (.mount s id)).wp (host cfg) F Q w := by
  refine (Io.wp_call ..).mpr fun b _ => ?_
  rcases host_cases cfg (.mount s id) b w with h | h
  · rw [h]
    exact hfail _
  · rw [h]
    rcases w.modify_cases id (fun c => c.mount cfg.volumes s) with ⟨e, -, hu⟩ | ⟨c, hc, hu⟩
    · simp only [FsOp.perform, hu]
      exact hfail _
    · simp only [FsOp.perform, hu]
      simp only [Container.mount] at hc
      split at hc
      · cases hc
      · split at hc
        · cases hc
        · cases hc
          rename_i hno
          simp only [Bool.or_eq_true, not_or, Bool.not_eq_true, Option.isSome_eq_false_iff,
            Option.isNone_iff_eq_none] at hno
          exact hok _ hno.1 ‹_›

theorem wp_runTool_unmount {Q : Except WorkspaceError Unit → World → Prop} {id program : String}
    (hfail : ∀ e, Q (.error e) w)
    (hok : Q (.ok ()) (w.setContainer id { w.containers id with mounted := none })) :
    (runTool program (.unmount id)).wp (host cfg) F Q w := by
  refine (Io.wp_call ..).mpr fun b _ => ?_
  rcases host_cases cfg (.unmount id) b w with h | h
  · rw [h]
    exact hfail _
  · rw [h]
    rcases w.modify_cases id (fun c => c.unmount) with ⟨e, -, hu⟩ | ⟨c, hc, hu⟩
    · simp only [FsOp.perform, hu]
      exact hfail _
    · simp only [FsOp.perform, hu]
      simp only [Container.unmount] at hc
      split at hc
      · cases hc
      · cases hc
        exact hok

namespace Manager

theorem wp_acquireLock {Q : Except WorkspaceError Unit → World → Prop}
    (hfail : ∀ e, Q (.error e) w) (hok : Q (.ok ()) w) :
    acquireLock.wp (host cfg) F Q w := by
  intro b _
  rcases host_cases cfg .acquireLock b w with h | h
  · rw [h]
    exact hfail _
  · rw [h]
    exact hok

theorem wp_load {Q : Except WorkspaceError (Option RegistryEntry) → World → Prop}
    (hfail : ∀ e, Q (.error e) w) (hok : Q (.ok w.registry) w) :
    load.wp (host cfg) F Q w := by
  intro b _
  rcases host_cases cfg .load b w with h | h
  · rw [h]
    exact hfail _
  · rw [h]
    exact hok

theorem wp_save {Q : Except WorkspaceError Unit → World → Prop} {entry : Option RegistryEntry}
    (hfail : ∀ e, Q (.error e) w) (hok : Q (.ok ()) { w with registry := entry }) :
    (save entry).wp (host cfg) F Q w := by
  intro b _
  rcases host_cases cfg (.save entry) b w with h | h
  · rw [h]
    exact hfail _
  · rw [h]
    exact hok

def Up (entry : RegistryEntry) (w : World) : Prop :=
  match entry.strategy with
  | .plainDir => ∃ m, (w.tree (.data entry.id)).lstat [] = .ok (.dir m)
  | s => (w.containers entry.id).mounted = some s

theorem up_of_image {entry : RegistryEntry} (h : entry.strategy.usesImage) :
    Up entry w ↔ (w.containers entry.id).mounted = some entry.strategy := by
  rw [Up]
  split
  · rename_i hs
    rw [hs] at h
    cases h
  · rfl

def mountPath (entry : RegistryEntry) : Place :=
  if entry.strategy.usesImage then .mnt entry.id else .data entry.id

def Fitting (entry : RegistryEntry) (w : World) : Prop :=
  (w.containers entry.id).mounted = none ∨ (w.containers entry.id).mounted = some entry.strategy

def Raised (entry : RegistryEntry) (w w' : World) : Prop :=
  (w'.containers entry.id).mounted = (w.containers entry.id).mounted ∨
    (w'.containers entry.id).mounted = some entry.strategy

theorem mountImage_wp {entry : RegistryEntry} (hs : entry.strategy.usesImage)
    (hm : Fitting entry w) {x : Host Unit}
    (hx : ∀ {v : World} {Q : Except WorkspaceError Unit → World → Prop}, (∀ e, Q (.error e) v) →
      (∀ c : Container, (v.containers entry.id).mounted = none →
        c.data = (v.containers entry.id).data → c.mounted = some entry.strategy →
        Q (.ok ()) (v.setContainer entry.id c)) → x.wp (host cfg) F Q v) :
    (do
      fs (.createDirAll (Strategy.mountpoint entry.id))
      if ← Io.ask (.isMountpoint entry.id) then pure (Place.mnt entry.id)
      else do
        x
        pure (Place.mnt entry.id) : Host Place).wp (host cfg) F (fun r w' =>
      KeepsData entry.id w w' ∧ Raised entry w w' ∧ ∀ pl, r = .ok pl → pl = mountPath entry ∧ Up entry w') w := by
  refine (Io.wp_bind ..).mpr (wp_createMountpoint ?_ fun t => ?_)
  · exact fun e => ⟨keepsData_refl _ _, .inl rfl, fun pl h => nomatch h⟩
  have hpath : Place.mnt entry.id = mountPath entry := by simp [mountPath, hs]
  have hmnt := w.setTree_mnt t entry.id entry.id
  have hb : KeepsData entry.id w (w.setTree t (.mnt entry.id)) := ⟨by simp, by simp, by simp, hmnt.2⟩
  refine (Io.wp_bind ..).mpr (wp_ask_isMountpoint ?_ fun hup => ?_)
  · refine (Io.wp_bind ..).mpr (hx ?_ fun c _ hd hc => ?_)
    · exact fun e => ⟨hb, .inl hmnt.1, fun pl h => nomatch h⟩
    · have hmounted : (((w.setTree t (.mnt entry.id)).setContainer entry.id c).containers
          entry.id).mounted = some entry.strategy := by rw [World.setContainer_self, hc]
      refine ⟨hb.trans (keepsData_setContainer hd), .inr hmounted, ?_⟩
      rintro _ ⟨⟩
      exact ⟨hpath, (up_of_image hs).mpr hmounted⟩
  · refine ⟨hb, .inl hmnt.1, ?_⟩
    rintro _ ⟨⟩
    refine ⟨hpath, (up_of_image hs).mpr ?_⟩
    rw [hmnt.1] at hup ⊢
    rcases hm with hm | hm
    · rw [hm] at hup
      cases hup
    · exact hm

theorem mountForEntry_wp {entry : RegistryEntry} (hm : Fitting entry w) :
    (mountForEntry cfg entry).wp (host cfg) F (fun r w' =>
      KeepsData entry.id w w' ∧ Raised entry w w' ∧ ∀ pl, r = .ok pl → pl = mountPath entry ∧ Up entry w') w := by
  have hmount : ∀ {program : String} {s : ContainerStrategy}, entry.strategy = s →
      ∀ {v : World} {Q : Except WorkspaceError Unit → World → Prop}, (∀ e, Q (.error e) v) →
      (∀ c : Container, (v.containers entry.id).mounted = none →
        c.data = (v.containers entry.id).data → c.mounted = some entry.strategy →
        Q (.ok ()) (v.setContainer entry.id c)) →
      (runTool program (.mount s entry.id)).wp (host cfg) F Q v := by
    rintro program s rfl v Q hfail hok
    exact wp_runTool_mount hfail fun t hno _ => hok _ hno (by simp) rfl
  rw [mountForEntry]
  split
  · rename_i hs
    refine (Io.wp_bind ..).mpr (wp_ask_isDir ?_ fun m hdir => ?_)
    · exact ⟨keepsData_refl _ _, .inl rfl, fun pl h => nomatch h⟩
    · refine ⟨keepsData_refl _ _, .inl rfl, ?_⟩
      rintro _ ⟨⟩
      refine ⟨by simp [mountPath, hs, ContainerStrategy.usesImage], ?_⟩
      rw [Up]
      rw [hs]
      exact ⟨m, hdir⟩
  · rename_i hs
    exact mountImage_wp (by rw [hs]; rfl) hm (hmount hs)
  · rename_i hs
    refine mountImage_wp (by rw [hs]; rfl) hm fun hfail hok => ?_
    rw [Strategy.mountExt4Image]
    split
    · exact hmount hs hfail hok
    · exact hfail _

def Lowered (id : String) (w w' : World) : Prop :=
  KeepsData id w w' ∧
    ((w'.containers id).mounted = (w.containers id).mounted ∨ (w'.containers id).mounted = none)

theorem unmount_wp {id program : String} :
    (runTool program (.unmount id)).wp (host cfg) F (fun _ => Lowered id w) w :=
  wp_runTool_unmount (fun _ => ⟨keepsData_refl _ _, .inl rfl⟩)
    ⟨keepsData_setContainer rfl, .inr (by rw [World.setContainer_self])⟩

theorem Lowered.trans {id : String} {u v w : World} (huv : Lowered id u v) (hvw : Lowered id v w) :
    Lowered id u w := by
  refine ⟨huv.1.trans hvw.1, ?_⟩
  rcases hvw.2 with h | h
  · rw [h]
    exact huv.2
  · exact .inr h

theorem retry_wp {id : String} {x y : Host Unit}
    (hx : ∀ v, x.wp (host cfg) F (fun _ => Lowered id v) v)
    (hy : ∀ v, y.wp (host cfg) F (fun _ => Lowered id v) v) :
    (do
      match ← x.attempt with
      | .ok _ => pure ()
      | .error _ => y : Host Unit).wp (host cfg) F (fun _ => Lowered id w) w := by
  refine (Io.wp_bind ..).mpr ((Io.wp_attempt ..).mpr (Io.wp_mono ?_ (hx w)))
  rintro (e | _) v hv
  · exact Io.wp_mono (fun _ _ h => hv.trans h) (hy v)
  · exact hv

theorem runFusermount_wp {id : String} :
    (Strategy.runFusermount id).wp (host cfg) F (fun _ => Lowered id w) w :=
  retry_wp (fun _ => unmount_wp) (fun _ => unmount_wp)

theorem releaseMount_wp {strategy : ContainerStrategy} {id : String} :
    (Strategy.releaseMount cfg strategy id).wp (host cfg) F (fun _ => Lowered id w) w := by
  have hmap : ∀ {x : Host Unit} {e : WorkspaceError} (v : World),
      x.wp (host cfg) F (fun _ => Lowered id v) v →
      (x.mapErr fun _ => e).wp (host cfg) F (fun _ => Lowered id v) v := by
    intro x e v h
    refine (Io.wp_mapErr ..).mpr (Io.wp_mono ?_ h)
    rintro (_ | _) _ h <;> exact h
  cases strategy with
  | plainDir => exact ⟨keepsData_refl _ _, .inl rfl⟩
  | sparseBundle =>
      refine (Io.wp_bind ..).mpr (wp_ask_isMountpoint ⟨keepsData_refl _ _, .inl rfl⟩ fun _ => ?_)
      exact retry_wp (fun _ => unmount_wp) fun v => hmap v unmount_wp
  | ext4Fuse =>
      refine (Io.wp_bind ..).mpr (wp_ask_isMountpoint ⟨keepsData_refl _ _, .inl rfl⟩ fun _ => ?_)
      simp only [if_true]
      split
      · exact retry_wp (fun _ => runFusermount_wp) fun v => hmap v runFusermount_wp
      · exact ⟨keepsData_refl _ _, .inl rfl⟩

end Manager

end Silo.Workspace
