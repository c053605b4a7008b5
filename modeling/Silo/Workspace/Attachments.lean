import Silo.Lib.Machine
import Silo.Workspace.AttachCalls

namespace Silo.Workspace

open Silo.Lib

namespace Attachments

open Manager

/-- An attached workspace in the hands of a process, with the attempts its detach
guard has left. -/
structure Holding where
  guard : Guard
  process : Process
  left : Nat
  deriving DecidableEq, Repr

structure State where
  world : World
  held : List Holding

/-- The operations on one locked workspace, each with its failures, and the death
of a process. -/
inductive Act
  | attach (self : Process) (harnessId : String) (failures : List Bool)
  | attachShared (self : Process) (failures : List Bool)
  | detach (holding : Holding) (failures : List Bool)
  | status (failures : List Bool)
  | beginUnlock (key : String) (failures : List Bool)
  | die (process : Process)
  deriving DecidableEq, Repr

variable (cfg : Config)

def perform {α : Type} (x : Host α) (failures : List Bool) (w : World) :
    Except WorkspaceError α × World :=
  ((Prog.run (host cfg) x failures w).1, (Prog.run (host cfg) x failures w).2.2)

/-- After an attach: the caller holds the workspace if it succeeded. -/
def State.hold (s : State) (self : Process) :
    Except WorkspaceError AttachedWorkspace × World → State
  | (.ok a, w) => ⟨w, ⟨a.detachGuard, self, Manager.detachAttempts⟩ :: s.held⟩
  | (.error _, w) => { s with world := w }

def State.release (s : State) (h : Holding) : Except WorkspaceError Unit × World → State
  | (.ok _, w) => ⟨w, s.held.erase h⟩
  | (.error _, w) =>
    if h.left ≤ 1 then ⟨w, s.held.erase h⟩
    else ⟨w, { h with left := h.left - 1 } :: s.held.erase h⟩

def next (s : State) : Act → Option State
  | .attach self harnessId failures =>
    if s.world.alive self then
      some (s.hold self (perform cfg (Manager.attach cfg self harnessId) failures s.world))
    else none
  | .attachShared self failures =>
    if s.world.alive self then
      some (s.hold self (perform cfg (Manager.attachShared cfg self) failures s.world))
    else none
  | .detach h failures =>
    if h ∈ s.held ∧ s.world.alive h.process then
      some (s.release h (perform cfg (Manager.detach cfg h.guard) failures s.world))
    else none
  | .status failures => some { s with world := (perform cfg (Manager.status cfg) failures s.world).2 }
  | .beginUnlock key failures =>
    some { s with world := (perform cfg (Manager.beginUnlock key) failures s.world).2 }
  | .die p => some { s with world := { s.world with alive := Function.update s.world.alive p false } }

/-- A workspace that has just been locked: nothing attached, nothing mounted. -/
def initial (s : State) : Prop :=
  s.held = [] ∧ ∃ entry, s.world.registry = some entry ∧ entry.locked = true ∧
    entry.unlocking = false ∧ entry.attached = none ∧ entry.secondaryAttachments = [] ∧
    (s.world.containers entry.id).mounted = none

def machine : Machine State Act := ⟨initial, next cfg⟩

variable {cfg} {F : Prog.Faults FsOp World} {w : World} {e e' : RegistryEntry} {s t : State}

/-- The result of an operation is among those its weakest precondition allows. -/
theorem perform_of_wp (cfg : Config) {α : Type} {x : Host α} {Q : Except WorkspaceError α → World → Prop}
    (h : x.wp (host cfg) (fun _ _ _ _ => True) Q w) (failures : List Bool) :
    Q (perform cfg x failures w).1 (perform cfg x failures w).2 :=
  Prog.run_of_wp h (Prog.admits_of_forall (fun _ _ _ _ => trivial) x failures w)

structure Inv (s : State) (e : RegistryEntry) : Prop where
  entry : s.world.registry = some e
  fitting : Fitting e s.world
  up : e.unlocking = false → ∀ r ∈ e.registrations, s.world.alive r.process = true → Up e s.world

/-- The UUID generator has not repeated itself in the first `n` draws. -/
def Unrepeated (cfg : Config) (n : Nat) : Prop :=
  ∀ i < n, ∀ j < n, cfg.ids i = cfg.ids j → i = j

structure Tokens (cfg : Config) (s : State) (e : RegistryEntry) : Prop where
  issued : ∀ r ∈ e.registrations, ∃ k < s.world.drawn, cfg.ids k = r.token
  distinct : (e.registrations.map (·.token)).Nodup
  held : ∀ h ∈ s.held, (∃ k < s.world.drawn, cfg.ids k = h.guard.token) ∧
    ∀ r ∈ e.registrations, r.token = h.guard.token →
      r.process = h.process ∧ r.primary = h.guard.primary
  apart : (s.held.map (·.guard.token)).Nodup

theorem up_congr {w' : World} (hid : e'.id = e.id) (hst : e'.strategy = e.strategy)
    (hdata : (w'.containers e.id).data = (w.containers e.id).data)
    (hmount : Raised e w w') (h : Up e w) : Up e' w' := by
  unfold Up at h ⊢
  rw [hid, hst]
  split at h
  · obtain ⟨m, hm⟩ := h
    refine ⟨m, ?_⟩
    rw [World.tree, hdata]
    exact hm
  · rcases hmount with hm | hm
    · rw [hm]
      exact h
    · exact hm

theorem Inv.shrink {w' : World} {held : List Holding} (h : Inv s e)
    (hw : Shrunk e s.world w' e') : Inv ⟨w', held⟩ e' := by
  obtain ⟨hreg, hsh, halive, -, hdata, hmount⟩ := hw
  refine ⟨hreg, ?_, fun hu r hr hl => ?_⟩
  · rw [Fitting, hsh.id, hsh.strategy]
    rcases hmount with hm | ⟨hm, -⟩
    · rw [hm]
      exact h.fitting
    · exact .inl hm
  · rw [halive] at hl
    rcases hmount with hm | ⟨-, hdead⟩
    · refine up_congr hsh.id hsh.strategy hdata (.inl hm) (h.up ?_ r (hsh.registrations.subset hr) hl)
      cases hb : e.unlocking with
      | false => rfl
      | true => rw [hsh.unlocking hb] at hu; cases hu
    · rw [hdead r hr] at hl
      cases hl

theorem Tokens.shrink {w' : World} {held : List Holding} (h : Tokens cfg s e)
    (hw : Shrunk e s.world w' e')
    (hheld : ∀ g ∈ held, ∃ g' ∈ s.held, g.guard = g'.guard ∧ g.process = g'.process)
    (hapart : (held.map (·.guard.token)).Nodup) : Tokens cfg ⟨w', held⟩ e' := by
  obtain ⟨-, hsh, -, hdrawn, -, -⟩ := hw
  refine ⟨fun r hr => ?_, h.distinct.sublist (hsh.registrations.map _), fun g hg => ?_, hapart⟩
  · rw [hdrawn]
    exact h.issued r (hsh.registrations.subset hr)
  · obtain ⟨g', hg', hguard, hproc⟩ := hheld g hg
    rw [hguard, hproc, hdrawn]
    exact ⟨(h.held g' hg').1, fun r hr => (h.held g' hg').2 r (hsh.registrations.subset hr)⟩

theorem Inv.attach {w' : World} {new : Registration} {a : AttachedWorkspace} {held : List Holding}
    (h : Inv s e) (hw : Attaches cfg e s.world new (.ok a) w') :
    ∃ e', Inv ⟨w', held⟩ e' ∧ e'.registrations.Perm
      (new :: e.registrations.filter fun r => s.world.alive r.process) := by
  obtain ⟨hu, -, hup, -, -, -, -, e', hreg, hid, hst, -, -, hperm⟩ := hw.attached a rfl
  refine ⟨e', ⟨hreg, ?_, fun _ _ _ _ => up_congr hid hst rfl (.inl rfl) hup.2⟩, hperm⟩
  rw [Fitting, hid, hst]
  rcases hw.raised with hm | hm
  · rw [hm]
    exact h.fitting
  · exact .inr hm

theorem Inv.failed {w' : World} {new : Registration} {x : WorkspaceError} {held : List Holding}
    (h : Inv s e) (hw : Attaches cfg e s.world new (.error x) w') : Inv ⟨w', held⟩ e := by
  refine ⟨hw.failed x rfl, ?_, fun hu r hr hl => ?_⟩
  · rcases hw.raised with hm | hm
    · rw [Fitting, hm]
      exact h.fitting
    · exact .inr hm
  · rw [hw.alive] at hl
    exact up_congr rfl rfl hw.data hw.raised (h.up hu r hr hl)

theorem Tokens.attach {w' : World} {new : Registration} {a : AttachedWorkspace}
    (h : Tokens cfg s e) (hids : Unrepeated cfg w'.drawn)
    (hw : Attaches cfg e s.world new (.ok a) w') (hnew : new.token = cfg.ids s.world.drawn)
    (hperm : e'.registrations.Perm
      (new :: e.registrations.filter fun r => s.world.alive r.process)) :
    Tokens cfg ⟨w', ⟨a.detachGuard, new.process, detachAttempts⟩ :: s.held⟩ e' := by
  obtain ⟨-, hdrawn, -, -, htoken, hprimary, -⟩ := hw.attached a rfl
  -- The new token was never drawn before.
  have hfresh : ∀ {x : String}, (∃ k < s.world.drawn, cfg.ids k = x) → x ≠ new.token := by
    rintro _ ⟨k, hk, rfl⟩ he
    rw [hnew] at he
    have := hids k (by omega) s.world.drawn (by omega) he
    omega
  have hmem : ∀ {r : Registration}, r ∈ e'.registrations → r = new ∨ r ∈ e.registrations := by
    intro r hr
    rcases List.mem_cons.mp (hperm.mem_iff.mp hr) with hr | hr
    · exact .inl hr
    · exact .inr (List.mem_filter.mp hr).1
  have hlater : ∀ {x : String}, (∃ k < s.world.drawn, cfg.ids k = x) →
      ∃ k < w'.drawn, cfg.ids k = x := by
    rintro x ⟨k, hk, hx⟩
    exact ⟨k, by omega, hx⟩
  have hnow : ∃ k < w'.drawn, cfg.ids k = new.token := ⟨s.world.drawn, by omega, hnew.symm⟩
  constructor
  · intro r hr
    rcases hmem hr with rfl | hr
    · exact hnow
    · exact hlater (h.issued r hr)
  · rw [(hperm.map _).nodup_iff, List.map_cons, List.nodup_cons]
    refine ⟨?_, h.distinct.sublist (List.filter_sublist.map _)⟩
    rintro hin
    obtain ⟨r, hr, he⟩ := List.mem_map.mp hin
    exact hfresh (h.issued r (List.mem_filter.mp hr).1) he
  · intro g hg
    rcases List.mem_cons.mp hg with rfl | hold
    · refine ⟨by rw [htoken]; exact hnow, fun r hr he => ?_⟩
      rcases hmem hr with rfl | hr
      · exact ⟨rfl, hprimary.symm⟩
      · exact absurd (he.trans htoken) (hfresh (h.issued r hr))
    · refine ⟨hlater (h.held g hold).1, fun r hr he => ?_⟩
      rcases hmem hr with rfl | hr
      · exact absurd he.symm (hfresh (h.held g hold).1)
      · exact (h.held g hold).2 r hr he
  · rw [List.map_cons, List.nodup_cons]
    refine ⟨?_, h.apart⟩
    intro hin
    obtain ⟨g, hg, he⟩ := List.mem_map.mp hin
    exact hfresh (h.held g hg).1 (he.trans htoken)

theorem Tokens.failed {w' : World} {new : Registration} {x : WorkspaceError}
    (h : Tokens cfg s e) (hw : Attaches cfg e s.world new (.error x) w') :
    Tokens cfg ⟨w', s.held⟩ e := by
  have hlater : ∀ {y : String}, (∃ k < s.world.drawn, cfg.ids k = y) →
      ∃ k < w'.drawn, cfg.ids k = y := by
    rintro y ⟨k, hk, hy⟩
    exact ⟨k, hk.trans_le hw.drawn, hy⟩
  exact ⟨fun r hr => hlater (h.issued r hr), h.distinct,
    fun g hg => ⟨hlater (h.held g hg).1, (h.held g hg).2⟩, h.apart⟩

theorem next_cases {act : Act} (h : Inv s e) (hn : next cfg s act = some t) :
    (∃ e', Shrunk e s.world t.world e' ∧
      (∀ g ∈ t.held, ∃ g' ∈ s.held, g.guard = g'.guard ∧ g.process = g'.process) ∧
      ((s.held.map (·.guard.token)).Nodup → (t.held.map (·.guard.token)).Nodup)) ∨
    (∃ new a, Attaches cfg e s.world new (.ok a) t.world ∧ new.token = cfg.ids s.world.drawn ∧
      t.held = ⟨a.detachGuard, new.process, detachAttempts⟩ :: s.held) ∨
    (∃ new x, Attaches cfg e s.world new (.error x) t.world ∧ t.held = s.held) ∨
    ∃ p, t = { s with world := { s.world with alive := Function.update s.world.alive p false } } := by
  have hhold : ∀ {self : Process} {r : Except WorkspaceError AttachedWorkspace × World}
      {new : Registration}, new.process = self → new.token = cfg.ids s.world.drawn →
      Attaches cfg e s.world new r.1 r.2 → s.hold self r = t →
      (∃ new a, Attaches cfg e s.world new (.ok a) t.world ∧ new.token = cfg.ids s.world.drawn ∧
        t.held = ⟨a.detachGuard, new.process, detachAttempts⟩ :: s.held) ∨
      (∃ new x, Attaches cfg e s.world new (.error x) t.world ∧ t.held = s.held) := by
    rintro self ⟨x | a, v⟩ new rfl htok ha rfl
    · exact .inr ⟨new, x, ha, rfl⟩
    · exact .inl ⟨new, a, ha, htok, rfl⟩
  have hsame : ∀ g ∈ s.held, ∃ g' ∈ s.held, g.guard = g'.guard ∧ g.process = g'.process :=
    fun g hg => ⟨g, hg, rfl, rfl⟩
  cases act with
  | attach self harnessId failures =>
      simp only [next] at hn
      split at hn
      · have ha := perform_of_wp cfg (attach_wp self harnessId h.entry h.fitting) failures
        rcases hhold rfl rfl ha (Option.some.inj hn) with hc | hc
        · exact .inr (.inl hc)
        · exact .inr (.inr (.inl hc))
      · cases hn
  | attachShared self failures =>
      simp only [next] at hn
      split at hn
      · have ha := perform_of_wp cfg (attachShared_wp self h.entry h.fitting) failures
        rcases hhold rfl rfl ha (Option.some.inj hn) with hc | hc
        · exact .inr (.inl hc)
        · exact .inr (.inr (.inl hc))
      · cases hn
  | detach g failures =>
      simp only [next] at hn
      split at hn
      · rename_i hg
        obtain ⟨e', -, hw⟩ := perform_of_wp cfg (detach_wp g.guard h.entry) failures
        obtain rfl := Option.some.inj hn
        refine .inl ⟨e', ?_⟩
        revert hw
        generalize perform cfg (detach cfg g.guard) failures s.world = r
        rintro hw
        obtain ⟨x | _, v⟩ := r
        · simp only [State.release]
          split
          · exact ⟨hw, fun g' hg' => hsame g' (List.mem_of_mem_erase hg'),
              fun hd => hd.sublist ((List.erase_sublist).map _)⟩
          · refine ⟨hw, fun g' hg' => ?_, fun hd => ?_⟩
            · rcases List.mem_cons.mp hg' with rfl | hg'
              · exact ⟨g, hg.1, rfl, rfl⟩
              · exact hsame g' (List.mem_of_mem_erase hg')
            · exact (((List.perm_cons_erase hg.1).map (fun g => g.guard.token)).nodup_iff).mp hd
        · exact ⟨hw, fun g' hg' => hsame g' (List.mem_of_mem_erase hg'),
            fun hd => hd.sublist ((List.erase_sublist).map _)⟩
      · cases hn
  | status failures =>
      obtain ⟨e', hw⟩ := perform_of_wp cfg (status_wp h.entry) failures
      obtain rfl := Option.some.inj hn
      exact .inl ⟨e', hw, hsame, id⟩
  | beginUnlock key failures =>
      obtain ⟨e', hw, -⟩ := perform_of_wp cfg (beginUnlock_wp key h.entry) failures
      obtain rfl := Option.some.inj hn
      exact .inl ⟨e', hw, hsame, id⟩
  | die p =>
      obtain rfl := Option.some.inj hn
      exact .inr (.inr (.inr ⟨p, rfl⟩))

theorem inv_initial (h : initial s) : ∃ e, Inv s e ∧ Tokens cfg s e := by
  obtain ⟨hheld, e, hreg, -, -, hnone, hnil, hmount⟩ := h
  have hr : e.registrations = [] := by simp [RegistryEntry.registrations, hnone, hnil]
  refine ⟨e, ⟨hreg, .inl hmount, fun _ r h => ?_⟩, fun r h => ?_, ?_, ?_, ?_⟩
  · rw [hr] at h
    cases h
  · rw [hr] at h
    cases h
  · rw [hr]
    exact List.nodup_nil
  · rw [hheld]
    exact fun g hg => absurd hg List.not_mem_nil
  · rw [hheld]
    exact List.nodup_nil

theorem drawn_le {act : Act} (h : Inv s e) (hn : next cfg s act = some t) :
    s.world.drawn ≤ t.world.drawn := by
  rcases next_cases h hn with ⟨_, hw, -⟩ | ⟨_, _, hw, -⟩ | ⟨_, _, hw, -⟩ | ⟨p, rfl⟩
  · exact hw.2.2.2.1.ge
  · exact hw.drawn
  · exact hw.drawn
  · exact le_rfl

theorem inv_step {act : Act} (h : Inv s e) (hn : next cfg s act = some t) :
    ∃ e', Inv t e' ∧ (Unrepeated cfg t.world.drawn → Tokens cfg s e → Tokens cfg t e') ∧
      (e.unlocking = true → e'.unlocking = true) := by
  rcases next_cases h hn with ⟨e', hw, hheld, hap⟩ | ⟨new, a, hw, htok, hheld⟩ |
    ⟨new, x, hw, hheld⟩ | ⟨p, rfl⟩
  · exact ⟨e', h.shrink hw, fun _ ht => ht.shrink hw hheld (hap ht.apart), hw.2.1.unlocking⟩
  · obtain ⟨e', hinv, hperm⟩ : ∃ e', Inv ⟨t.world, t.held⟩ e' ∧ _ := h.attach hw
    refine ⟨e', hinv, fun hids ht => ?_, fun hu => ?_⟩
    · have := ht.attach hids hw htok hperm
      rw [← hheld] at this
      exact this
    · rw [(hw.attached a rfl).1] at hu
      cases hu
  · refine ⟨e, h.failed hw, fun _ ht => ?_, id⟩
    have := ht.failed hw
    rw [← hheld] at this
    exact this
  · refine ⟨e, ⟨h.entry, h.fitting, fun hu r hr hl => ?_⟩,
      fun _ ht => ⟨ht.issued, ht.distinct, ht.held, ht.apart⟩, id⟩
    apply h.up hu r hr
    by_cases hp : r.process = p
    · rw [hp] at hl
      simp at hl
    · simpa [Function.update_of_ne hp] using hl

theorem inv_reachable (h : (machine cfg).Reachable s) :
    ∃ e, Inv s e ∧ (Unrepeated cfg s.world.drawn → Tokens cfg s e) := by
  refine h.invariant (I := fun s => ∃ e, Inv s e ∧ (Unrepeated cfg s.world.drawn → Tokens cfg s e))
    ?_ ?_
  · intro s hs
    obtain ⟨e, hinv, htok⟩ := inv_initial hs
    exact ⟨e, hinv, fun _ => htok⟩
  · rintro s t act ⟨e, hinv, htok⟩ - hn
    obtain ⟨e', hinv', htok', -⟩ := inv_step hinv hn
    refine ⟨e', hinv', fun hids => htok' hids (htok fun i hi j hj => ?_)⟩
    have hle := drawn_le hinv hn
    exact hids i (by omega) j (by omega)

theorem unlocking_stays (h : Inv s e) (hu : e.unlocking = true)
    (hr : (machine cfg).RunsTo (fun _ _ => True) s t) : ∃ e', Inv t e' ∧ e'.unlocking = true := by
  refine hr.invariant (I := fun t => ∃ e', Inv t e' ∧ e'.unlocking = true) ?_ ⟨e, h, hu⟩
  rintro u v act ⟨e', hinv, hu'⟩ - hn
  obtain ⟨e'', hinv', -, hstay⟩ := inv_step hinv hn
  exact ⟨e'', hinv', hstay hu'⟩

/-- What the registry promises the holders of a locked workspace, in one state:
`e` is its entry there. -/
structure Disciplined (cfg : Config) (s : State) (e : RegistryEntry) : Prop where
  entry : s.world.registry = some e
  onePrimary :
    (e.registrations.filter fun r => r.primary && s.world.alive r.process).length ≤ 1 ∧
    ∀ self harnessId failures a,
      (perform cfg (attach cfg self harnessId) failures s.world).1 = .ok a →
      ∀ r ∈ e.registrations, r.primary = true → s.world.alive r.process = false
  ownRecord : ∀ h ∈ s.held, ∀ failures, ∃ e',
    (perform cfg (detach cfg h.guard) failures s.world).2.registry = some e' ∧
    e'.registrations.Sublist e.registrations ∧
    ∀ r ∈ e.registrations, r ∉ e'.registrations →
      r.token = h.guard.token ∧ r.process = h.process ∧ r.primary = h.guard.primary ∧
      (∀ r' ∈ e.registrations, r'.token = r.token → r' = r) ∧
      ∀ h' ∈ s.held, h'.guard.token = r.token → h' = h
  release : ∀ h ∈ s.held, ∀ failures, ∀ e',
    (perform cfg (detach cfg h.guard) failures s.world).2.registry = some e' →
    (s.world.containers e.id).mounted.isSome = true →
    ((perform cfg (detach cfg h.guard) failures s.world).2.containers e.id).mounted = none →
    ∀ r ∈ e'.registrations, s.world.alive r.process = false
  given : ∀ self harnessId failures a w',
    (perform cfg (attach cfg self harnessId) failures s.world = (.ok a, w') ∨
      perform cfg (attachShared cfg self) failures s.world = (.ok a, w')) →
    a.mountPath = mountPath e ∧ Up e w'
  staysMounted : e.unlocking = false → ∀ r ∈ e.registrations, s.world.alive r.process = true →
    Up e s.world
  noAttach : e.unlocking = true → ∀ t, (machine cfg).RunsTo (fun _ _ => True) s t →
    ∀ self harnessId failures a,
      (perform cfg (attach cfg self harnessId) failures t.world).1 ≠ .ok a ∧
      (perform cfg (attachShared cfg self) failures t.world).1 ≠ .ok a

theorem onePrimary_of (alive : Process → Bool) (e : RegistryEntry) :
    (e.registrations.filter fun r => r.primary && alive r.process).length ≤ 1 := by
  have hsec : (e.secondaryAttachments.map fun a => (⟨false, a.process, a.token⟩ : Registration)).filter
      (fun r => r.primary && alive r.process) = [] := by
    rw [List.filter_eq_nil_iff]
    intro r hr
    obtain ⟨a, -, rfl⟩ := List.mem_map.mp hr
    simp
  rw [RegistryEntry.registrations, List.filter_append, hsec, List.append_nil]
  refine (List.length_filter_le _ _).trans ?_
  cases e.attached <;> simp

/-- A guard's attempt in a state whose tokens tell the registrations apart. -/
theorem Tokens.ownRecord (ht : Tokens cfg s e) (hinv : Inv s e) {h : Holding} (hh : h ∈ s.held)
    (failures : List Bool) : ∃ e',
      (perform cfg (detach cfg h.guard) failures s.world).2.registry = some e' ∧
      e'.registrations.Sublist e.registrations ∧
      ∀ r ∈ e.registrations, r ∉ e'.registrations →
        r.token = h.guard.token ∧ r.process = h.process ∧ r.primary = h.guard.primary ∧
        (∀ r' ∈ e.registrations, r'.token = r.token → r' = r) ∧
        ∀ h' ∈ s.held, h'.guard.token = r.token → h' = h := by
  obtain ⟨e', he, hw⟩ := perform_of_wp cfg (detach_wp h.guard hinv.entry) failures
  refine ⟨e', hw.1, hw.2.1.registrations, fun r hr hgone => ?_⟩
  rcases he with rfl | rfl
  · exact absurd hr hgone
  · obtain ⟨htok, -⟩ := clear_removes hr hgone
    obtain ⟨hproc, hprim⟩ := (ht.held h hh).2 r hr htok
    refine ⟨htok, hproc, hprim, fun r' hr' he => ?_, fun h' hh' he => ?_⟩
    · exact List.inj_on_of_nodup_map ht.distinct hr' hr he
    · exact List.inj_on_of_nodup_map ht.apart hh' hh (he.trans htok)

/-- In every state that attaches, detaches, status reads, the first steps of
unlocks and deaths of processes lead to, with failures anywhere in them. -/
theorem attachments_disciplined (h : (machine cfg).Reachable s)
    (hids : Unrepeated cfg s.world.drawn) : ∃ e, Disciplined cfg s e := by
  obtain ⟨e, hinv, htok⟩ := inv_reachable h
  have hattach := fun self harnessId failures =>
    perform_of_wp cfg (attach_wp self harnessId hinv.entry hinv.fitting) failures
  refine ⟨e, hinv.entry, ⟨onePrimary_of _ e, ?_⟩, fun g hg failures => ?_, ?_, ?_, hinv.up, ?_⟩
  · intro self harnessId failures a ha r hr hprim
    have hdead := ((hattach self harnessId failures).attached a ha).2.2.2.1 rfl
    rcases List.mem_append.mp hr with hr | hr
    · obtain ⟨p, hp, rfl⟩ := List.mem_map.mp hr
      exact hdead p (Option.mem_toList.mp hp)
    · obtain ⟨p, -, rfl⟩ := List.mem_map.mp hr
      cases hprim
  · exact (htok hids).ownRecord hinv hg failures
  · intro g hg failures e' he' hup hdown
    obtain ⟨e'', -, hw⟩ := perform_of_wp cfg (detach_wp g.guard hinv.entry) failures
    obtain rfl := Option.some.inj (he'.symm.trans hw.1)
    rcases hw.2.2.2.2.2 with hm | ⟨-, hdead⟩
    · rw [hdown] at hm
      rw [← hm] at hup
      cases hup
    · exact hdead
  · rintro self harnessId failures a w' (ha | ha)
    · have hres := hattach self harnessId failures
      rw [ha] at hres
      exact (hres.attached a rfl).2.2.1
    · have hres := perform_of_wp cfg (attachShared_wp self hinv.entry hinv.fitting) failures
      rw [ha] at hres
      exact (hres.attached a rfl).2.2.1
  · intro hu t hr self harnessId failures a
    obtain ⟨e', hinv', hu'⟩ := unlocking_stays hinv hu hr
    constructor
    · intro ha
      have hres := perform_of_wp cfg (attach_wp self harnessId hinv'.entry hinv'.fitting) failures
      rw [(hres.attached a ha).1] at hu'
      cases hu'
    · intro ha
      have hres := perform_of_wp cfg (attachShared_wp self hinv'.entry hinv'.fitting) failures
      rw [(hres.attached a ha).1] at hu'
      cases hu'

def laptop : Config where
  path := .text "/home/user/project"
  nested := false
  strategy := .ext4Fuse
  strategyHint := none
  linux := true
  sameFs := true
  depth := 64
  umask := 0o022#12
  umask_owner := umask_usual
  volumes := ⟨fun _ => [([], .dir 0o755#12)], fun _ t => t⟩
  ids
    | 0 => "9f86d081884c"
    | 1 => "60303ae22b99"
    | _ => "fd61a03af4f7"
  sha256 _ := ⟨"e3b0c44298fc1c149afbf4c8996fb92427ae41e4649b934ca495991b7852b855", digest_empty⟩
  lossy _ := ""
  unified _ _ := "--- locked\n+++ current\n"

def lockedImage : State where
  world :=
    { canon := [([], .dir 0o555#12)]
      containers := fun _ => { img := some (some [([], .dir 0o755#12)]) }
      registry := some ⟨"d7a8fbb307d7", true, false, .ext4Fuse, none, [], []⟩
      alive := fun _ => true
      drawn := 0 }
  held := []

/-- One process attaches for a harness and for a shell. -/
theorem attachments_disciplined_twice :
    ∃ s, (machine laptop).Reachable s ∧ s.held.length = 2 ∧ ∃ e, Disciplined laptop s e := by
  obtain ⟨s, hr, hp⟩ := Machine.exists_of_run (M := machine laptop) (s := lockedImage)
    [.attach ⟨4242, "Mon"⟩ "h-1" [], .attachShared ⟨4242, "Mon"⟩ []]
    (fun s => s.held.length = 2 && s.world.drawn = 2) ⟨rfl, _, rfl, rfl, rfl, rfl, rfl, rfl⟩
    (by decide)
  obtain ⟨hheld, hdrawn⟩ := (Bool.and_eq_true _ _ ▸ hp :)
  refine ⟨s, hr, of_decide_eq_true hheld, attachments_disciplined hr ?_⟩
  rw [of_decide_eq_true hdrawn]
  rw [Unrepeated]
  decide

end Attachments

end Silo.Workspace
