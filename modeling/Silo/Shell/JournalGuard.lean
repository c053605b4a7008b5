import Silo.Shell.JournalPath

namespace Silo.Shell

open Silo.Workspace

namespace HostFs

variable {fs : HostFs} {cwd : Location} {root : Bool}

theorem canonicalize_extend {fs' : HostFs} (he : fs.Extends fs') {path : OsBytes} {found : Location}
    (h : fs.canonicalize cwd path = some found) : fs'.canonicalize cwd path = some found := by
  rw [canonicalize] at h ⊢
  split at h
  · cases h
  · rw [if_neg ‹_›]
    exact walk_of_resolves ((resolves_of_walk h).extend he)

/-- A normalised path without a link on it stays the place of what is made there. -/
theorem eq_of_normalizeRev {fs' : HostFs} (he : fs.Extends fs') {comps : List PathComp} (hs : PathBuf.Spelled comps)
    {place found : Location} (hplace : fs.normalizeRev cwd root comps = .ofLocation place)
    (hlinks : fs'.Linkless place)
    (hfound : fs'.Resolves Arrives maxLinks (startOf cwd root) (written comps) found) : found = place := by
  induction comps generalizing place found with
  | nil =>
      obtain ⟨other, -, hother, heq⟩ | ⟨-, ⟨name, rest, hcons, -⟩ | ⟨heq, -⟩⟩ := normalizeRev_cases fs cwd root hs
      · rw [hplace] at heq
        obtain rfl := PathBuf.ofLocation_injective heq
        exact hfound.unique (hother.extend he)
      · cases hcons
      · rw [hplace] at heq
        cases place with
        | nil =>
            obtain ⟨rfl, -⟩ := PathBuf.mem_of_eq_ofLocation heq.symm
            exact hfound.eq_of_nil
        | cons name rest => cases heq
  | cons comp rest ih =>
      obtain ⟨other, -, hother, heq⟩ | ⟨-, ⟨name, _, hcons, -, heq⟩ | ⟨heq, hodd⟩⟩ := normalizeRev_cases fs cwd root hs
      · rw [hplace] at heq
        obtain rfl := PathBuf.ofLocation_injective heq
        exact hfound.unique (hother.extend he)
      · cases hcons
        rw [hplace] at heq
        obtain ⟨above, habove, rfl⟩ := PathBuf.push_eq_ofLocation heq.symm
        obtain ⟨dir, fewer, hdir, hlast⟩ := resolves_written_cons hfound
        obtain rfl := ih (fun other hother => hs other (List.mem_cons_of_mem _ hother)) habove
          (hlinks.of_prefix (List.prefix_append _ _)) hdir
        exact (hlast.node_of_last ((hs _ List.mem_cons_self).2 name rfl)).2 (hlinks _ _ List.prefix_rfl)
      · rw [hplace] at heq
        obtain ⟨hroot, hall⟩ := PathBuf.mem_of_eq_ofLocation heq.symm
        obtain ⟨odd, hmem, hnot⟩ := hodd hroot
        obtain ⟨name, rfl⟩ := hall odd (List.mem_reverse.mpr hmem)
        exact absurd rfl (hnot name)

theorem eq_of_normalizePath {fs' : HostFs} (he : fs.Extends fs') {entry : OsStr} {place found : Location}
    (hplace : fs.normalizePath cwd entry = .ofLocation place) (hlinks : fs'.Linkless place)
    (hfound : fs'.canonicalize cwd (osBytes entry) = some found) : found = place := by
  rw [normalizePath] at hplace
  split at hplace
  · rename_i other hother
    obtain rfl := PathBuf.ofLocation_injective hplace
    rw [canonicalize_extend he hother, Option.some.injEq] at hfound
    exact hfound.symm
  · obtain ⟨hnul, -, hresolves⟩ := resolves_comps_of_canonicalize hfound
    have hspelled := PathBuf.spelled_ofBytes hnul
    obtain ⟨rev, hrev⟩ : ∃ rev : List PathComp, (PathBuf.ofBytes (osBytes entry)).comps = rev.reverse :=
      ⟨_, (List.reverse_reverse _).symm⟩
    have hpath : PathBuf.ofBytes (osBytes entry) = ⟨isAbsolute (osBytes entry), rev.reverse⟩ := by
      rw [← hrev]
      rfl
    rw [hrev] at hresolves hspelled
    have hs : PathBuf.Spelled rev := fun comp hcomp => hspelled comp (List.mem_reverse.mpr hcomp)
    rw [reattach, hpath] at hplace
    simp only [List.reverse_reverse] at hplace
    split at hplace
    · rename_i name rest
      split at hplace
      · obtain ⟨above, habove, rfl⟩ := PathBuf.push_eq_ofLocation hplace
        obtain ⟨dir, fewer, hdir, hlast⟩ := resolves_written_cons hresolves
        obtain rfl := eq_of_normalizeRev he (fun other hother => hs other (List.mem_cons_of_mem _ hother)) habove
          (hlinks.of_prefix (List.prefix_append _ _)) hdir
        exact (hlast.node_of_last ((hs _ List.mem_cons_self).2 name rfl)).2 (hlinks _ _ List.prefix_rfl)
      · rename_i hbare
        exact absurd (PathBuf.mem_of_eq_ofLocation hplace).1 (by simp_all)
    · rename_i hnot
      cases rev with
      | nil =>
          obtain ⟨hroot, hcomps⟩ := PathBuf.mk.inj hplace
          obtain rfl : place = [] := by simpa using hcomps.symm
          rw [hroot] at hresolves
          exact hresolves.eq_of_nil
      | cons comp rest =>
          obtain ⟨name, rfl⟩ := (PathBuf.mem_of_eq_ofLocation hplace).2 comp (by simp)
          exact absurd rfl (hnot name rest)

/-- The normalised path of an entry is a place, and no link stands on the way to it. -/
def Settled (fs : HostFs) (cwd : Location) (entry : OsStr) : Prop :=
  ∃ place, fs.normalizePath cwd entry = .ofLocation place ∧ fs.Linkless place

theorem settled_of_canonicalize (hnul : ∀ location target, fs.node location = some (.link target) → 0 ∉ target)
    (hcwd : fs.Reached cwd) {entry : OsStr} {found : Location}
    (h : fs.canonicalize cwd (osBytes entry) = some found) : fs.Settled cwd entry := by
  obtain ⟨hpath, hresolves, -⟩ := resolves_comps_of_canonicalize h
  refine ⟨found, by rw [normalizePath, h], ?_⟩
  have hstart := hcwd.startOf (isAbsolute (osBytes entry))
  obtain ⟨last, left, hlast, -, -, rfl⟩ := hresolves.reached hnul hstart fun piece hp => isClean_of_mem_pieces hpath hp
  exact hlast.linkless

theorem spelled_location {location : Location} (h : ∀ name ∈ location, IsName name ∧ IsClean name) :
    PathBuf.Spelled (location.map PathComp.normal) := by
  intro comp hcomp
  obtain ⟨name, hname, rfl⟩ := List.mem_map.mp hcomp
  refine ⟨(h name hname).2, ?_⟩
  rintro _ ⟨⟩
  exact (h name hname).1

theorem written_location (location : Location) : written (location.map PathComp.normal).reverse = location := by
  simp [written, Function.comp_def, PathBuf.compBytes]

theorem normalizeRev_location {location : Location} (h : ∀ name ∈ location, IsName name ∧ IsClean name)
    (hlinks : fs.Linkless location) :
    fs.normalizeRev cwd true (location.map PathComp.normal).reverse = .ofLocation location := by
  induction location using List.reverseRecOn with
  | nil =>
      apply normalizeRev_of_resolves _ (.inl rfl) (.done ⟨rfl, rfl⟩)
      exact fun comp hcomp => absurd hcomp (by simp)
  | append_singleton location name ih =>
      have hs : PathBuf.Spelled ((location ++ [name]).map PathComp.normal).reverse :=
        fun comp hcomp => spelled_location h comp (List.mem_reverse.mp hcomp)
      obtain ⟨found, -, hfound, heq⟩ | ⟨-, ⟨other, rest, hcons, -, heq⟩ | ⟨-, hodd⟩⟩ := normalizeRev_cases fs cwd true hs
      · rw [written_location] at hfound
        rw [heq, hfound.eq_of_linkless (fun other hother => (h other hother).1) hlinks]
      · rw [List.map_append, List.reverse_append] at hcons
        obtain ⟨hname, hrest⟩ := List.cons.inj hcons
        cases hname
        obtain rfl : (location.map PathComp.normal).reverse = rest := hrest
        rw [heq, ih (fun other hother => h other (List.mem_append_left _ hother))
          (hlinks.of_prefix (List.prefix_append _ _)), PathBuf.push_ofLocation]
      · obtain ⟨odd, hmem, hnot⟩ := hodd rfl
        obtain ⟨other, -, rfl⟩ := List.mem_map.mp (List.mem_reverse.mp hmem)
        exact absurd rfl (hnot other)

theorem ofBytes_location {location : Location} (h : ∀ name ∈ location, IsName name ∧ IsClean name) :
    PathBuf.ofBytes (PathBuf.ofLocation location).bytes = .ofLocation location := by
  have hroot : isAbsolute (PathBuf.ofLocation location).bytes = true := rfl
  cases location with
  | nil => decide
  | cons name rest =>
      have hpieces : pieces (PathBuf.ofLocation (name :: rest)).bytes = [] :: name :: rest := by
        rw [PathBuf.ofLocation, (spelled_location h).pieces_bytes true (by simp)]
        simp [Function.comp_def, PathBuf.compBytes]
      have hcomps : (name :: rest).filterMap PathBuf.compOf = (name :: rest).map PathComp.normal := by
        rw [← List.filterMap_eq_map]
        apply List.filterMap_congr
        intro other hother
        obtain ⟨⟨hnil, hdot, hup⟩, -⟩ := h other hother
        simp [PathBuf.compOf, hnil, hdot, hup]
      have hskip : PathBuf.compOf [] = none := rfl
      rw [PathBuf.ofBytes, hpieces, hroot, List.filterMap_cons_none hskip, hcomps]
      simp [PathBuf.ofLocation, dot]

variable (cwd) in
theorem normalizePath_location {location : Location} (h : ∀ name ∈ location, IsName name ∧ IsClean name)
    (hlinks : fs.Linkless location) :
    fs.normalizePath cwd (.raw (PathBuf.ofLocation location).bytes) = .ofLocation location := by
  rw [normalizePath, osBytes]
  split
  · rename_i found hcanon
    obtain ⟨-, hfound⟩ := (canonicalize_bytes (spelled_location h) true).mp hcanon
    have hnames : (location.map PathComp.normal).map PathBuf.compBytes = location := by
      simp [Function.comp_def, PathBuf.compBytes]
    rw [hnames] at hfound
    rw [hfound.eq_of_linkless (fun name hname => (h name hname).1) hlinks]
  · rw [ofBytes_location h, reattach]
    induction location using List.reverseRecOn with
    | nil => rfl
    | append_singleton location name _ =>
        have hrev : (PathBuf.ofLocation (location ++ [name])).comps.reverse =
            .normal name :: (location.map PathComp.normal).reverse := by
          simp [PathBuf.ofLocation]
        rw [hrev, ← PathBuf.push_ofLocation]
        simp only [PathBuf.push, PathBuf.ofLocation, Bool.true_or, if_true]
        rw [normalizeRev_location (fun other hother => h other (List.mem_append_left _ hother))
          (hlinks.of_prefix (List.prefix_append _ _))]
        rfl

theorem canonicalize_location {location : Location} (h : fs.Reached location) :
    fs.canonicalize cwd (PathBuf.ofLocation location).bytes = some location := by
  refine (canonicalize_bytes (spelled_location h.names) true).mpr ⟨.inl rfl, ?_⟩
  have hnames : (location.map PathComp.normal).map PathBuf.compBytes = location := by
    simp [Function.comp_def, PathBuf.compBytes]
  rw [hnames]
  exact Resolves.of_le (Reached.resolves h) (Nat.zero_le _)

/-- The entry leads to a directory that the location is in, or to the location itself. -/
def Exposes (fs : HostFs) (cwd : Location) (entry : OsStr) (place : Location) : Prop :=
  ∃ found, fs.canonicalize cwd (osBytes entry) = some found ∧ found <+: place

end HostFs

theorem Process.validateJournalPath_ok_iff {fs : HostFs} {p : Process} {path : OsStr} {allowlist : List OsStr} :
    p.validateJournalPath fs path allowlist = .ok () ↔
      ∀ entry ∈ allowlist, ¬ (fs.normalizePath p.cwd entry).Overlaps (fs.journalDir p.cwd path) := by
  induction allowlist with
  | nil => simp [validateJournalPath]
  | cons entry allowlist ih =>
      rw [validateJournalPath, List.forall_mem_cons, ← ih]
      simp only [PathBuf.Overlaps]
      split
      · rename_i hover
        simp_all
      · rename_i hover
        simp_all

/-- A host and a process on it: everything there is stands in a directory, links have proper
targets, and the process works in a real directory that it can reach. -/
structure HostState where
  fs : HostFs
  process : Process
  rooted : fs.Rooted
  targets : ∀ location target, fs.node location = some (.link target) → 0 ∉ target
  reached : fs.Reached process.cwd

namespace HostState

variable (host : HostState) (refuses : Location → Bool) (path : OsStr)

/-- What the check is for: an accepted journal is in no entry of the allowlist. -/
def Guarded (allowlist : List OsStr) : Prop :=
  host.process.validateJournalPath host.fs path allowlist = .ok () →
    ∀ after place, host.fs.toFile host.process.cwd refuses path = some (after, place) →
      ∀ entry ∈ allowlist, ¬ after.Exposes host.process.cwd entry place

variable {host refuses path}

/-- The file is reached in the end, and no link stands on the way to it. -/
theorem reached_place {after : HostFs} {place : Location}
    (h : host.fs.toFile host.process.cwd refuses path = some (after, place)) :
    host.fs.Extends after ∧ after.Reached place := by
  obtain ⟨made, comps, last, dir, hopened, rfl⟩ := HostFs.opened_of_toFile h
  have hstart := host.reached.startOf (isAbsolute (osBytes path))
  obtain ⟨above, name, rfl, habove, hsearch, hname, hclean, hnode⟩ := hopened.lands host.targets hstart
  have hext : made.Extends (made.add (above ++ [name]) .file) := HostFs.extends_add hnode nofun
  refine ⟨(HostFs.createDirAll_extends hopened.created).trans hext, ?_⟩
  exact (habove.extend hext).push hname hclean (hext.searchable hsearch) ⟨.file, by simp [HostFs.add], nofun⟩

theorem overlaps_of_exposes {after : HostFs} {place : Location}
    (h : host.fs.toFile host.process.cwd refuses path = some (after, place)) {entry : OsStr}
    (hsettled : host.fs.Settled host.process.cwd entry) (hexposes : after.Exposes host.process.cwd entry place)
    (hover : (host.fs.journalDir host.process.cwd path).Overlaps (.ofLocation place)) :
    (host.fs.normalizePath host.process.cwd entry).Overlaps (host.fs.journalDir host.process.cwd path) := by
  obtain ⟨location, hlocation, hlinks⟩ := hsettled
  obtain ⟨found, hcanon, hp⟩ := hexposes
  obtain ⟨hext, -⟩ := reached_place h
  obtain rfl := HostFs.eq_of_normalizePath hext hlocation (hlinks.extend hext) hcanon
  rw [hlocation]
  exact hover.of_prefix hp

/-- The check keeps the journal out of every settled entry just when `to_file` fails or the
check oversees the place of the file. -/
theorem guarded_iff_overseen (host : HostState) (refuses : Location → Bool) (path : OsStr) :
    (∀ allowlist, (∀ entry ∈ allowlist, host.fs.Settled host.process.cwd entry) →
        host.Guarded refuses path allowlist) ↔
      host.fs.toFile host.process.cwd refuses path = none ∨ host.fs.Overseen host.process.cwd path := by
  constructor
  · intro hguarded
    cases htoFile : host.fs.toFile host.process.cwd refuses path with
    | none => exact .inl rfl
    | some result =>
        obtain ⟨after, place⟩ := result
        obtain ⟨made, comps, last, dir, hopened, -⟩ := HostFs.opened_of_toFile htoFile
        obtain ⟨hext, hreached⟩ := reached_place htoFile
        refine .inr ((HostFs.overlaps_iff_overseen host.rooted hopened host.targets host.reached).mp ?_)
        have hlinks : host.fs.Linkless place := fun above name hp target hlink =>
          hreached.linkless above name hp target (hext.keeps hlink)
        -- the place of the file, written down, is an entry that is compared as it is
        have hplace := HostFs.normalizePath_location host.process.cwd hreached.names hlinks
        by_contra hover
        apply hguarded [.raw (PathBuf.ofLocation place).bytes]
        · intro entry hentry
          obtain rfl := List.mem_singleton.mp hentry
          exact ⟨place, hplace, hlinks⟩
        · rw [Process.validateJournalPath_ok_iff]
          intro entry hentry
          obtain rfl := List.mem_singleton.mp hentry
          rw [hplace]
          exact fun h => hover h.symm
        · exact htoFile
        · exact List.mem_singleton_self _
        · exact ⟨place, HostFs.canonicalize_location hreached, List.prefix_rfl⟩
  · rintro hcase allowlist hsettled hok after place htoFile entry hentry hexposes
    rcases hcase with hnone | hoverseen
    · rw [htoFile] at hnone
      cases hnone
    · obtain ⟨made, comps, last, dir, hopened, -⟩ := HostFs.opened_of_toFile htoFile
      have hover := (HostFs.overlaps_iff_overseen host.rooted hopened host.targets host.reached).mpr hoverseen
      exact Process.validateJournalPath_ok_iff.mp hok entry hentry
        (overlaps_of_exposes htoFile (hsettled entry hentry) hexposes hover)

/-- A host with one directory, `w`, in which the process works. -/
def workplace : HostState where
  fs := ⟨fun location => if location = [[0x77]] then some (.dir true) else none⟩
  process := ⟨[[0x77]]⟩
  rooted := by
    intro location name h
    have hone : location ++ [name] = [[0x77]] := by
      by_contra hne
      exact h (if_neg hne)
    exact .inl (List.append_eq_singleton_iff.mp hone |>.elim And.left fun h => absurd h.2 (by simp))
  targets := by
    intro location target h
    dsimp only at h
    split at h <;> cases h
  reached := by
    apply HostFs.Reached.push HostFs.Reached.nil ⟨by decide, by decide, by decide⟩ ⟨by decide, by decide⟩ rfl
    exact ⟨.dir true, rfl, nofun⟩

/-- A mere file name is accepted next to an entry for the working directory, where the file lands. -/
theorem not_guarded_workplace : ¬ workplace.Guarded (fun _ => false) (.raw [0x73]) [.raw [0x2f, 0x77]] := by
  intro h
  have hplace : (workplace.fs.toFile workplace.process.cwd (fun _ => false) (.raw [0x73])).map Prod.snd =
      some [[0x77], [0x73]] := by decide
  obtain ⟨⟨after, place⟩, htoFile, rfl⟩ := Option.map_eq_some_iff.mp hplace
  have hok : workplace.process.validateJournalPath workplace.fs (.raw [0x73]) [.raw [0x2f, 0x77]] = .ok () := rfl
  apply h hok after _ htoFile _ (List.mem_singleton_self _)
  obtain ⟨hext, -⟩ := reached_place htoFile
  exact ⟨[[0x77]], HostFs.canonicalize_extend hext (by decide), ⟨[[0x73]], rfl⟩⟩

end HostState

end Silo.Shell
