import Silo.Workspace.AttachSpecs

namespace Silo.Workspace

open Silo.Lib

structure Registration where
  primary : Bool
  process : Process
  token : String
  deriving DecidableEq, Repr

def RegistryEntry.registrations (entry : RegistryEntry) : List Registration :=
  entry.attached.toList.map (fun a => ⟨true, a.process, a.token⟩) ++
    entry.secondaryAttachments.map fun a => ⟨false, a.process, a.token⟩

def Guard.primary : Guard → Bool
  | workspace _ _ => true
  | shared _ _ _ => false

namespace Manager

variable {cfg : Config} {F : Prog.Faults FsOp World} {w : World} {e e' : RegistryEntry}

theorem hasLive_iff {alive : Process → Bool} :
    e.hasLiveAttachments alive = true ↔ ∃ r ∈ e.registrations, alive r.process = true := by
  simp only [RegistryEntry.hasLiveAttachments, RegistryEntry.liveSecondaryCount,
    RegistryEntry.registrations, Bool.or_eq_true, Option.any_eq_true, decide_eq_true_eq,
    List.length_pos_iff_exists_mem, List.mem_filter, List.mem_append, List.mem_map,
    Option.mem_toList]
  constructor
  · rintro (⟨a, ha, hl⟩ | ⟨a, ha, hl⟩)
    · exact ⟨_, .inl ⟨a, ha, rfl⟩, hl⟩
    · exact ⟨_, .inr ⟨a, ha, rfl⟩, hl⟩
  · rintro ⟨_, ⟨a, ha, rfl⟩ | ⟨a, ha, rfl⟩, hl⟩
    · exact .inl ⟨a, ha, hl⟩
    · exact .inr ⟨a, ha, hl⟩

theorem registrations_prune (alive : Process → Bool) :
    (e.pruneDeadAttachments alive).1.registrations =
      e.registrations.filter fun r => alive r.process := by
  simp only [RegistryEntry.pruneDeadAttachments, RegistryEntry.registrations, List.filter_append,
    List.filter_map]
  congr 1
  cases e.attached with
  | none => rfl
  | some a => cases h : alive a.process <;> simp [Option.filter, h]

/-- The entry `e'` is `e` with some registrations gone. -/
structure Shrinks (e e' : RegistryEntry) : Prop where
  id : e'.id = e.id
  strategy : e'.strategy = e.strategy
  locked : e'.locked = e.locked
  unlocking : e.unlocking = true → e'.unlocking = true
  registrations : e'.registrations.Sublist e.registrations

theorem shrinks_refl (e : RegistryEntry) : Shrinks e e := ⟨rfl, rfl, rfl, id, .refl _⟩

theorem shrinks_prune (alive : Process → Bool) : Shrinks e (e.pruneDeadAttachments alive).1 :=
  ⟨rfl, rfl, rfl, id, by rw [registrations_prune]; exact List.filter_sublist⟩

theorem shrinks_unlocking : Shrinks e { e with unlocking := true } :=
  ⟨rfl, rfl, rfl, fun _ => rfl, .refl _⟩

theorem shrinks_clear (g : Guard) : Shrinks e (g.clear e) := by
  cases g with
  | workspace s token =>
      simp only [Guard.clear, RegistryEntry.clearAttached]
      split
      · refine ⟨rfl, rfl, rfl, id, ?_⟩
        simp only [RegistryEntry.registrations]
        exact List.Sublist.append_right (List.nil_sublist _) _
      · exact shrinks_refl e
  | shared s pid token =>
      refine ⟨rfl, rfl, rfl, id, ?_⟩
      simp only [Guard.clear, RegistryEntry.removeSecondary, RegistryEntry.registrations]
      exact (List.Sublist.refl _).append (List.eraseP_sublist.map _)

/-- What a guard takes out of the registry carries its token and is of its kind. -/
theorem clear_removes {g : Guard} {r : Registration} (hr : r ∈ e.registrations)
    (hgone : r ∉ (g.clear e).registrations) : r.token = g.token ∧ r.primary = g.primary := by
  cases g with
  | workspace s token =>
      simp only [Guard.clear, RegistryEntry.clearAttached] at hgone
      split at hgone
      · rename_i hany
        simp only [RegistryEntry.registrations, List.mem_append, not_or] at hr hgone
        rcases hr with hr | hr
        · obtain ⟨a, ha, rfl⟩ := List.mem_map.mp hr
          rw [Option.mem_toList] at ha
          rw [ha] at hany
          exact ⟨of_decide_eq_true hany, rfl⟩
        · exact absurd hr hgone.2
      · exact absurd hr hgone
  | shared s pid token =>
      simp only [Guard.clear, RegistryEntry.removeSecondary, RegistryEntry.registrations,
        List.mem_append, not_or] at hr hgone
      rcases hr with hr | hr
      · exact absurd hr hgone.1
      · obtain ⟨a, ha, rfl⟩ := List.mem_map.mp hr
        refine ⟨?_, rfl⟩
        by_contra hne
        refine hgone.2 (List.mem_map_of_mem ((List.mem_eraseP_of_neg ?_).mpr ha))
        intro h
        exact hne (of_decide_eq_true (Bool.and_eq_true_iff.mp h).2)

/-- `attach` and `attach_shared`. A failure may leave the image mounted; a success
adds one registration with a token drawn for it. -/
structure Attaches (cfg : Config) (e : RegistryEntry) (w : World) (new : Registration)
    (r : Except WorkspaceError AttachedWorkspace) (w' : World) : Prop where
  alive : w'.alive = w.alive
  data : (w'.containers e.id).data = (w.containers e.id).data
  drawn : w.drawn ≤ w'.drawn
  raised : Raised e w w'
  failed : ∀ x, r = .error x → w'.registry = some e
  attached : ∀ a, r = .ok a → e.unlocking = false ∧ w'.drawn = w.drawn + 1 ∧
    (a.mountPath = mountPath e ∧ Up e w') ∧
    (new.primary = true → ∀ p ∈ e.attached, w.alive p.process = false) ∧
    a.detachGuard.token = new.token ∧ a.detachGuard.primary = new.primary ∧
    a.detachGuard.strategy = e.strategy ∧
    ∃ e', w'.registry = some e' ∧ e'.id = e.id ∧ e'.strategy = e.strategy ∧
      e'.locked = e.locked ∧ e'.unlocking = e.unlocking ∧
      e'.registrations.Perm (new :: e.registrations.filter fun r => w.alive r.process)

theorem attaches_failed {new : Registration} (hw : w.registry = some e) (x : WorkspaceError) :
    Attaches cfg e w new (.error x) w :=
  ⟨rfl, rfl, le_rfl, .inl rfl, fun _ _ => hw, fun _ h => nomatch h⟩

theorem attachable_wp {key : String} {Q : Except WorkspaceError RegistryEntry → World → Prop}
    (hw : w.registry = some e) (hfail : ∀ x, Q (.error x) w)
    (hok : e.unlocking = false → Q (.ok (e.pruneDeadAttachments w.alive).1) w) :
    (Manager.attachable key).wp (host cfg) F Q w := by
  refine (Io.wp_bind ..).mpr (Manager.wp_acquireLock hfail ?_)
  refine (Io.wp_bind ..).mpr (Manager.wp_load hfail ?_)
  rw [hw]
  dsimp only
  split
  · exact hfail _
  · split
    · exact hfail _
    · rename_i hu
      exact (Io.wp_bind ..).mpr (wp_ask_liveness (hok (by simpa using hu)))

theorem register_wp (hw : w.registry = some e) (hfit : Fitting e w) (hu : e.unlocking = false)
    {p : RegistryEntry} (hp : p = (e.pruneDeadAttachments w.alive).1) {new : Registration}
    (hnew : new.token = cfg.ids w.drawn) {enter : String → RegistryEntry} {guard : String → Guard}
    (hone : new.primary = true → ∀ a ∈ e.attached, w.alive a.process = false)
    (htoken : (guard new.token).token = new.token)
    (hprimary : (guard new.token).primary = new.primary)
    (hstrategy : (guard new.token).strategy = e.strategy)
    (hkeep : (enter new.token).id = e.id ∧ (enter new.token).strategy = e.strategy ∧
      (enter new.token).locked = e.locked ∧ (enter new.token).unlocking = e.unlocking)
    (hperm : (enter new.token).registrations.Perm (new :: p.registrations)) :
    (do
      let mountPath ← Manager.mountForEntry cfg p
      let token ← Io.ask .shortId
      Manager.save (some (enter token))
      pure ⟨mountPath, guard token⟩ : Host AttachedWorkspace).wp (host cfg) F
      (Attaches cfg e w new) w := by
  have hid : p.id = e.id := by rw [hp]; rfl
  have hst : p.strategy = e.strategy := by rw [hp]; rfl
  have hfit' : Fitting p w := by rw [Fitting, hid, hst]; exact hfit
  refine (Io.wp_bind ..).mpr (Io.wp_mono ?_ (Manager.mountForEntry_wp hfit'))
  rintro (x | pl) v ⟨hb, hr, hup⟩
  · rw [Raised, hid, hst] at hr
    rw [hid] at hb
    exact ⟨hb.alive, hb.data, hb.drawn.ge, hr, fun _ _ => hb.registry.trans hw,
      fun _ h => nomatch h⟩
  rw [Raised, hid, hst] at hr
  rw [hid] at hb
  have hup' : pl = mountPath e ∧ Up e v := by
    have := hup pl rfl
    unfold Up mountPath at this
    rw [hid, hst] at this
    exact this
  refine (Io.wp_bind ..).mpr (wp_ask_shortId ?_)
  rw [hb.drawn, ← hnew]
  refine (Io.wp_bind ..).mpr (Manager.wp_save (fun x => ?_) ?_)
  · exact ⟨hb.alive, hb.data, Nat.le_succ _, hr, fun _ _ => hb.registry.trans hw,
      fun _ h => nomatch h⟩
  · refine ⟨hb.alive, hb.data, Nat.le_succ _, hr, (fun _ h => nomatch h), ?_⟩
    rintro a ⟨⟩
    refine ⟨hu, rfl, hup', hone, htoken, hprimary, hstrategy, enter new.token, rfl, hkeep.1,
      hkeep.2.1, hkeep.2.2.1, hkeep.2.2.2, ?_⟩
    rw [← registrations_prune, ← hp]
    exact hperm

theorem attach_wp (self : Process) (harnessId : String) (hw : w.registry = some e)
    (hfit : Fitting e w) :
    (Manager.attach cfg self harnessId).wp (host cfg) F
      (Attaches cfg e w ⟨true, self, cfg.ids w.drawn⟩) w := by
  refine (Io.wp_bind ..).mpr (wp_ofExcept ?_)
  cases pathToString cfg.path with
  | error x => exact attaches_failed hw x
  | ok key =>
      refine (Io.wp_locked _).mpr ((Io.wp_bind ..).mpr
        (attachable_wp hw (attaches_failed hw) fun hu => ?_))
      dsimp only
      split
      · exact attaches_failed hw _
      · rename_i hnone
        have hdead : ∀ a ∈ e.attached, w.alive a.process = false := by
          intro a ha
          by_contra hl
          rw [Option.mem_def] at ha
          simp [RegistryEntry.pruneDeadAttachments, ha, hl] at hnone
        refine register_wp hw hfit hu rfl rfl (fun _ => hdead) rfl rfl rfl ⟨rfl, rfl, rfl, rfl⟩ ?_
        rw [RegistryEntry.registrations, RegistryEntry.registrations, hnone]
        exact .refl _

theorem attachShared_wp (self : Process) (hw : w.registry = some e) (hfit : Fitting e w) :
    (Manager.attachShared cfg self).wp (host cfg) F
      (Attaches cfg e w ⟨false, self, cfg.ids w.drawn⟩) w := by
  refine (Io.wp_bind ..).mpr (wp_ofExcept ?_)
  cases pathToString cfg.path with
  | error x => exact attaches_failed hw x
  | ok key =>
      refine (Io.wp_locked _).mpr ((Io.wp_bind ..).mpr
        (attachable_wp hw (attaches_failed hw) fun hu => ?_))
      refine register_wp hw hfit hu rfl rfl (fun h => nomatch h) rfl rfl rfl
        ⟨rfl, rfl, rfl, rfl⟩ ?_
      simp only [RegistryEntry.registrations, List.map_append, List.map_cons, List.map_nil,
        ← List.append_assoc]
      exact List.perm_append_singleton _ _

/-- A call that takes registrations away or marks the entry: the mount goes only
with the last live one. -/
def Shrunk (e : RegistryEntry) (w w' : World) (e' : RegistryEntry) : Prop :=
  w'.registry = some e' ∧ Shrinks e e' ∧ w'.alive = w.alive ∧ w'.drawn = w.drawn ∧
    (w'.containers e.id).data = (w.containers e.id).data ∧
    ((w'.containers e.id).mounted = (w.containers e.id).mounted ∨
      (w'.containers e.id).mounted = none ∧ ∀ r ∈ e'.registrations, w.alive r.process = false)

theorem shrunk_refl (hw : w.registry = some e) : Shrunk e w w e :=
  ⟨hw, shrinks_refl e, rfl, rfl, rfl, .inl rfl⟩

theorem shrunk_save (h : Shrinks e e') : Shrunk e w { w with registry := some e' } e' :=
  ⟨rfl, h, rfl, rfl, rfl, .inl rfl⟩

theorem detach_wp (g : Guard) (hw : w.registry = some e) :
    (detach cfg g).wp (host cfg) F
      (fun _ w' => ∃ e', (e' = e ∨ e' = g.clear e) ∧ Shrunk e w w' e') w := by
  have hsame : ∃ e', (e' = e ∨ e' = g.clear e) ∧ Shrunk e w w e' := ⟨e, .inl rfl, shrunk_refl hw⟩
  refine (Io.wp_locked _).mpr ((Io.wp_bind ..).mpr (wp_acquireLock (fun _ => hsame) ?_))
  refine (Io.wp_bind ..).mpr (wp_load (fun _ => hsame) ?_)
  rw [hw]
  refine (Io.wp_bind ..).mpr (wp_ask_liveness ?_)
  refine (Io.wp_bind ..).mpr (wp_save (fun _ => hsame) ?_)
  have hsave := shrunk_save (w := w) (shrinks_clear (e := e) g)
  refine Io.wp_when (fun _ => ⟨_, .inr rfl, hsave⟩) fun hrelease => ?_
  have hdead : ∀ r ∈ (g.clear e).registrations, w.alive r.process = false := by
    intro r hr
    by_contra hl
    have := hasLive_iff.mpr ⟨r, hr, by simpa using hl⟩
    simp [this] at hrelease
  refine Io.wp_mono ?_ releaseMount_wp
  rintro _ v ⟨hb, hm⟩
  rw [hsave.2.1.id] at hb hm
  refine ⟨_, .inr rfl, hb.registry, hsave.2.1, hb.alive, hb.drawn, hb.data, ?_⟩
  rcases hm with hm | hm
  · exact .inl hm
  · exact .inr ⟨hm, hdead⟩

theorem status_wp (hw : w.registry = some e) :
    (status cfg).wp (host cfg) F (fun _ w' => ∃ e', Shrunk e w w' e') w := by
  have hsame : ∃ e', Shrunk e w w e' := ⟨e, shrunk_refl hw⟩
  refine (Io.wp_bind ..).mpr (wp_ofExcept ?_)
  cases pathToString cfg.path with
  | error x => exact hsame
  | ok key =>
      refine (Io.wp_locked _).mpr ((Io.wp_bind ..).mpr (wp_acquireLock (fun _ => hsame) ?_))
      refine (Io.wp_bind ..).mpr (wp_load (fun _ => hsame) ?_)
      rw [hw]
      refine (Io.wp_bind ..).mpr (wp_ask_liveness ?_)
      refine (Io.wp_bind ..).mpr (Io.wp_when (fun _ => hsame) fun _ => ?_)
      exact wp_save (fun _ => hsame) ⟨_, shrunk_save (shrinks_prune w.alive)⟩

theorem beginUnlock_wp (key : String) (hw : w.registry = some e) :
    (beginUnlock key).wp (host cfg) F (fun r w' => ∃ e', Shrunk e w w' e' ∧
      ∀ x, r = .ok x → e'.unlocking = true) w := by
  have hsame : ∀ x : WorkspaceError, ∃ e', Shrunk e w w e' ∧
      ∀ y : RegistryEntry, Except.error x = .ok y → e'.unlocking = true :=
    fun x => ⟨e, shrunk_refl hw, fun _ h => nomatch h⟩
  refine (Io.wp_locked _).mpr ((Io.wp_bind ..).mpr (wp_acquireLock hsame ?_))
  refine (Io.wp_bind ..).mpr (wp_load hsame ?_)
  rw [hw]
  refine (Io.wp_bind ..).mpr (wp_save hsame ?_)
  exact ⟨_, shrunk_save shrinks_unlocking, fun _ _ => rfl⟩

end Manager

end Silo.Workspace
