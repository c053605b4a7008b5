import Silo.Shell.CreateDir

namespace Silo.Shell

open Silo.Workspace

/-- `Path::parent`. -/
def PathBuf.parent (p : PathBuf) : Option PathBuf :=
  if p.comps = [] then none else some { p with comps := p.comps.dropLast }

namespace HostFs

variable (fs : HostFs) (cwd : Location)

def journalDir (journalPath : OsStr) : PathBuf :=
  match (PathBuf.ofBytes (osBytes journalPath)).parent with
  | some parent =>
    if parent = ⟨false, []⟩ then fs.normalizePath cwd journalPath
    else fs.normalizeRev cwd parent.root parent.comps.reverse
  | none => fs.normalizePath cwd journalPath

end HostFs

/-- `validate_journal_path`. -/
def Process.validateJournalPath (fs : HostFs) (p : Process) (journalPath : OsStr) :
    List OsStr → Except String Unit
  | [] => .ok ()
  | entry :: readAllowlist =>
    let journalDir := fs.journalDir p.cwd journalPath
    let entry := fs.normalizePath p.cwd entry
    if entry.startsWith journalDir || journalDir.startsWith entry then
      .error ("the journal at " ++ display journalPath ++ " would be readable from the sandbox via the " ++
        "allowlist entry " ++ displayPath entry ++ "; move the journal or remove the entry")
    else validateJournalPath fs p journalPath readAllowlist

namespace HostFs

variable (fs : HostFs) (cwd : Location) (refuses : Location → Bool)

/-- `JournalWriter::to_file`: what the host's files are afterwards, and where the journal is. -/
def toFile (path : OsStr) : Option (HostFs × Location) :=
  let bytes := osBytes path
  if bytes = [] ∨ 0 ∈ bytes then none
  else
    let made := match (PathBuf.ofBytes bytes).parent with
      | some parent => fs.createDirAll cwd refuses parent.root parent.comps.reverse
      | none => .ok fs
    match made with
    | .error _ => none
    | .ok made =>
      match made.land maxLinks (if isAbsolute bytes then [] else cwd) (pieces bytes) with
      | some location => if refuses location then none else some (made.add location .file, location)
      | none => none

variable {fs cwd refuses} {root : Bool}

/-- What `to_file` did when it opened the file at `place`: `made` is after the directories, and
the path is `comps`, backwards, and then `last`. -/
structure Opened (fs : HostFs) (cwd : Location) (refuses : Location → Bool) (path : OsStr) (made : HostFs)
    (comps : List PathComp) (last : OsBytes) (dir place : Location) : Prop where
  no_nul : 0 ∉ osBytes path
  path_comps : (PathBuf.ofBytes (osBytes path)).comps = (PathComp.normal last :: comps).reverse
  spelled : PathBuf.Spelled (.normal last :: comps)
  created : fs.createDirAll cwd refuses (isAbsolute (osBytes path)) comps = .ok made
  resolves : made.Resolves made.Opens maxLinks (startOf cwd (isAbsolute (osBytes path))) (pieces (osBytes path)) place
  resolves_dir : made.Resolves Arrives maxLinks (startOf cwd (isAbsolute (osBytes path))) (written comps) dir
  resolves_last : ∃ fewer ≤ maxLinks, made.Resolves made.Opens fewer dir [last] place

theorem isName_of_mem_opens (location : Location) (rest : List OsBytes) (found : Location)
    (h : fs.Opens location rest found) (piece : OsBytes) (hp : piece ∈ rest) : piece ≠ [] ∧ piece ≠ dot := by
  obtain ⟨name, rfl, -, -, hname, -⟩ := h
  obtain rfl := List.mem_singleton.mp hp
  exact ⟨hname.1, hname.2.1⟩

theorem length_le_of_opens {piece : OsBytes} (location : Location) (rest : List OsBytes) (found : Location)
    (h : fs.Opens location rest found) : rest.length ≤ [piece].length := by
  obtain ⟨name, rfl, -⟩ := h
  exact le_rfl

theorem opened_of_toFile {path : OsStr} {after : HostFs} {place : Location}
    (h : fs.toFile cwd refuses path = some (after, place)) :
    ∃ made comps last dir, fs.Opened cwd refuses path made comps last dir place ∧ after = made.add place .file := by
  rw [toFile] at h
  dsimp only at h
  split at h
  · cases h
  rename_i hbytes
  obtain ⟨-, hnul⟩ := not_or.mp hbytes
  split at h
  · cases h
  rename_i made hmade
  split at h
  · rename_i found hland
    split at h
    · cases h
    cases h
    have hopens := resolves_of_land hland
    have hcomps := hopens.comps isName_of_mem_opens
    have hspelled := PathBuf.spelled_ofBytes hnul
    obtain ⟨rev, hrev⟩ : ∃ rev : List PathComp, (PathBuf.ofBytes (osBytes path)).comps = rev.reverse :=
      ⟨_, (List.reverse_reverse _).symm⟩
    rw [hrev] at hcomps hspelled
    cases rev with
    | nil => exact absurd hcomps opens_nil
    | cons comp comps =>
        obtain ⟨dir, fewer, hfewer, hdir, hlast⟩ :=
          hcomps.split (written comps) length_le_of_opens (written_cons comp comps)
        obtain ⟨hname, -⟩ := hlast.opens_last
        cases comp with
        | current => exact absurd rfl hname.2.1
        | parent => exact absurd rfl hname.2.2
        | normal last =>
            refine ⟨made, comps, last, dir, ⟨hnul, hrev, fun c hc => hspelled c (List.mem_reverse.mpr hc), ?_,
              hopens, hdir, fewer, hfewer, hlast⟩, rfl⟩
            rw [PathBuf.parent, hrev, if_neg (by simp)] at hmade
            simpa [PathBuf.ofBytes] using hmade
  · cases h

theorem journalDir_of_opened {path : OsStr} {made : HostFs} {comps : List PathComp} {last : OsBytes}
    {dir place : Location} (h : fs.Opened cwd refuses path made comps last dir place) :
    fs.journalDir cwd path =
      if isAbsolute (osBytes path) = false ∧ comps = [] then fs.normalizePath cwd path
      else fs.normalizeRev cwd (isAbsolute (osBytes path)) comps := by
  have hparent : (PathBuf.ofBytes (osBytes path)).parent = some ⟨isAbsolute (osBytes path), comps.reverse⟩ := by
    rw [PathBuf.parent, h.path_comps, if_neg (by simp)]
    simp [PathBuf.ofBytes]
  rw [journalDir, hparent]
  simp

theorem normalizeRev_place_or_written {comps : List PathComp} (hs : PathBuf.Spelled comps) :
    (∃ place, fs.normalizeRev cwd root comps = .ofLocation place) ∨
      fs.normalizeRev cwd root comps = ⟨root, comps.reverse⟩ ∧
        (root = true → ∃ comp ∈ comps, ∀ name, comp ≠ .normal name) := by
  induction comps with
  | nil =>
      obtain ⟨found, -, -, heq⟩ | ⟨-, ⟨name, rest, hcons, -⟩ | hwritten⟩ := normalizeRev_cases fs cwd root hs
      · exact .inl ⟨found, heq⟩
      · cases hcons
      · exact .inr hwritten
  | cons comp rest ih =>
      obtain ⟨found, -, -, heq⟩ | ⟨-, ⟨name, _, hcons, -, heq⟩ | hwritten⟩ := normalizeRev_cases fs cwd root hs
      · exact .inl ⟨found, heq⟩
      · cases hcons
        obtain ⟨place, hplace⟩ | ⟨hrest, hodd⟩ := ih fun other hother => hs other (List.mem_cons_of_mem _ hother)
        · rw [heq, hplace, PathBuf.push_ofLocation]
          exact .inl ⟨_, rfl⟩
        · refine .inr ⟨?_, fun hroot => ?_⟩
          · rw [heq, hrest]
            simp [PathBuf.push]
          · obtain ⟨odd, hmem, hnot⟩ := hodd hroot
            exact ⟨odd, List.mem_cons_of_mem _ hmem, hnot⟩
      · exact .inr hwritten

end HostFs

def PathBuf.Overlaps (p q : PathBuf) : Prop := p.startsWith q = true ∨ q.startsWith p = true

theorem PathBuf.Overlaps.symm {p q : PathBuf} (h : p.Overlaps q) : q.Overlaps p := Or.symm h

theorem PathBuf.startsWith_iff {p q : PathBuf} :
    p.startsWith q = true ↔ q = ⟨false, []⟩ ∨ p.root = q.root ∧ q.comps <+: p.comps := by
  rw [PathBuf.startsWith, Bool.or_eq_true, Bool.and_eq_true, decide_eq_true_iff, decide_eq_true_iff,
    List.isPrefixOf_iff_prefix]

theorem PathBuf.ofLocation_ne_empty (location : Location) : PathBuf.ofLocation location ≠ ⟨false, []⟩ := nofun

theorem PathBuf.Overlaps.of_prefix {p : PathBuf} {location above : Location} (h : p.Overlaps (.ofLocation location))
    (hp : above <+: location) : (PathBuf.ofLocation above).Overlaps p := by
  have hmap : above.map PathComp.normal <+: location.map PathComp.normal := hp.map _
  rw [PathBuf.Overlaps, PathBuf.startsWith_iff, PathBuf.startsWith_iff]
  rcases h with h | h
  · obtain hempty | ⟨hroot, h⟩ := PathBuf.startsWith_iff.mp h
    · exact absurd hempty (PathBuf.ofLocation_ne_empty location)
    · exact .inr (.inr ⟨hroot, hmap.trans h⟩)
  · obtain rfl | ⟨hroot, h⟩ := PathBuf.startsWith_iff.mp h
    · exact .inl (.inl rfl)
    · exact (List.prefix_or_prefix_of_prefix h hmap).imp (fun h => .inr ⟨hroot, h⟩) fun h => .inr ⟨hroot.symm, h⟩

theorem PathBuf.startsWith_ofLocation {a b : Location} :
    (PathBuf.ofLocation a).startsWith (.ofLocation b) = true ↔ b <+: a := by
  rw [PathBuf.startsWith_iff, or_iff_right (PathBuf.ofLocation_ne_empty b)]
  constructor
  · rintro ⟨-, rest, hrest⟩
    obtain ⟨c, d, rfl, hc, -⟩ := List.map_eq_append_iff.mp hrest.symm
    obtain rfl := List.map_injective_iff.mpr (fun _ _ h => PathComp.normal.inj h) hc
    exact List.prefix_append _ _
  · exact fun h => ⟨rfl, h.map _⟩

theorem PathBuf.overlaps_ofLocation {a b : Location} :
    (PathBuf.ofLocation a).Overlaps (.ofLocation b) ↔ a <+: b ∨ b <+: a := by
  rw [PathBuf.Overlaps, PathBuf.startsWith_ofLocation, PathBuf.startsWith_ofLocation, or_comm]

theorem PathBuf.not_overlaps_of_relative {p : PathBuf} (h : p.root = false) (hne : p.comps ≠ []) (location : Location) :
    ¬ p.Overlaps (.ofLocation location) := by
  have hempty : p ≠ ⟨false, []⟩ := fun heq => hne (by rw [heq])
  simp [PathBuf.Overlaps, PathBuf.startsWith, PathBuf.ofLocation, h, hempty]

namespace HostFs

variable {fs : HostFs} {cwd : Location} {refuses : Location → Bool} {root : Bool}

theorem Reached.eq_below {dir place : Location} (h : fs.Reached dir) (hp : place <+: dir) (hne : place ≠ [])
    (hplace : fs.node place = none ∨ fs.node place = some .file) : place = dir := by
  obtain ⟨rest, rfl⟩ := hp
  cases rest with
  | nil => simp
  | cons name rest =>
      have hsearch := h.search place name ⟨rest, by simp⟩
      rcases hplace with hnode | hnode <;> simp [searchable, hne, hnode] at hsearch

theorem Resolves.searchable_of_cons {links : Nat} {location : Location} {piece : OsBytes} {rest : List OsBytes}
    {found : Location} (h : fs.Resolves Arrives links location (piece :: rest) found) :
    fs.searchable location = true := by
  cases h with
  | done h => cases h.1
  | stay hsearch _ _ | up hsearch _ | down hsearch _ _ _ | follow hsearch _ _ _ _ => exact hsearch

/-- A path that is opened by its written directory does not name the file on the way. -/
theorem not_prefix_of_written {fewer : Nat} {dir location : Location} {name : OsBytes} {more : List OsBytes}
    (h : fs.Resolves Arrives fewer [] (location ++ [name] ++ more) dir) (hreached : fs.Reached location)
    (hname : IsName name) (hmore : more ≠ [])
    (hplace : fs.node (location ++ [name]) = none ∨ fs.node (location ++ [name]) = some .file) : False := by
  have hat : fs.Resolves Arrives fewer location ([name] ++ more) dir := by
    have hlinks : fs.Linkless ([] ++ location) := hreached.linkless
    rw [List.append_assoc] at h
    exact Resolves.through length_le_of_arrives (fun n hn => (hreached.names n hn).1) hlinks h
  obtain ⟨next, rest, rfl⟩ := List.exists_cons_of_ne_nil hmore
  cases hat with
  | done h => cases h.1
  | stay _ hskip _ => exact hskip.elim hname.1 hname.2.1
  | up => exact hname.2.2 rfl
  | down _ _ _ h =>
      have hsearch := h.searchable_of_cons
      rcases hplace with hnode | hnode <;> simp [searchable, hnode] at hsearch
  | follow _ _ hlink => rcases hplace with hnode | hnode <;> rw [hnode] at hlink <;> cases hlink

theorem Reached.startOf (hcwd : fs.Reached cwd) (root : Bool) : fs.Reached (startOf cwd root) := by
  cases root with
  | true => exact Reached.nil
  | false => exact hcwd

variable (fs cwd) in
/-- The check looks at the directory that the journal is put in: the path is a mere file name
and the file is there; or the directory is there and the name in it is not a link that leads
out of it; or the directory is missing, and the names that are missing are taken literally. -/
def Overseen (path : OsStr) : Prop :=
  match (PathBuf.ofBytes (osBytes path)).comps.reverse with
  | [] => False
  | last :: comps =>
    if isAbsolute (osBytes path) = false ∧ comps = [] then ∃ found, fs.canonicalize cwd (osBytes path) = some found
    else
      match fs.canonicalize cwd (PathBuf.bytes ⟨isAbsolute (osBytes path), comps.reverse⟩) with
      | some dir => ∀ target found, fs.node (dir ++ [PathBuf.compBytes last]) = some (.link target) →
          fs.land maxLinks (if isAbsolute target then [] else dir) (pieces target) = some found → dir <+: found
      | none => ∃ place, fs.normalizeRev cwd (isAbsolute (osBytes path)) comps = .ofLocation place

section

variable {path : OsStr} {made : HostFs} {comps : List PathComp} {last : OsBytes} {dir place : Location}

theorem Opened.lands (h : fs.Opened cwd refuses path made comps last dir place)
    (hnul : ∀ location target, fs.node location = some (.link target) → 0 ∉ target)
    (hcwd : fs.Reached (startOf cwd (isAbsolute (osBytes path)))) :
    ∃ above name, place = above ++ [name] ∧ made.Reached above ∧ made.searchable above = true ∧ IsName name ∧
      IsClean name ∧ (made.node place = none ∨ made.node place = some .file) := by
  have hext := createDirAll_extends h.created
  obtain ⟨above, left, habove, hclean, name, rfl, rfl, hsearch, hname, hnode⟩ :=
    h.resolves.reached (fun location target hlink => hnul location target (hext.links hlink)) (hcwd.extend hext)
      fun piece hp => isClean_of_mem_pieces h.no_nul hp
  exact ⟨above, name, rfl, habove, hsearch, hname, hclean name (List.mem_singleton_self name), hnode⟩

theorem Opened.reached_dir (h : fs.Opened cwd refuses path made comps last dir place)
    (hnul : ∀ location target, fs.node location = some (.link target) → 0 ∉ target)
    (hcwd : fs.Reached (startOf cwd (isAbsolute (osBytes path)))) : made.Reached dir := by
  have hext := createDirAll_extends h.created
  have hclean : ∀ piece ∈ written comps, IsClean piece := by
    intro piece hp
    obtain ⟨comp, hcomp, rfl⟩ := List.mem_map.mp hp
    exact (h.spelled comp (List.mem_cons_of_mem _ (List.mem_reverse.mp hcomp))).1
  obtain ⟨found, left, hfound, -, -, rfl⟩ :=
    h.resolves_dir.reached (fun location target hlink => hnul location target (hext.links hlink)) (hcwd.extend hext) hclean
  exact hfound

theorem overlaps_iff_of_bare (h : fs.Opened cwd refuses path made [] last dir place)
    (hrel : isAbsolute (osBytes path) = false) :
    (fs.normalizePath cwd path).Overlaps (.ofLocation place) ↔ ∃ found, fs.canonicalize cwd (osBytes path) = some found := by
  rw [normalizePath]
  cases hcanon : fs.canonicalize cwd (osBytes path) with
  | none =>
      have hreattach : fs.reattach cwd (.ofBytes (osBytes path)) = .ofBytes (osBytes path) := by
        have hroot : (PathBuf.ofBytes (osBytes path)).root = false := hrel
        simp [reattach, h.path_comps, hroot]
      simp only [hreattach, reduceCtorEq, exists_false, iff_false]
      exact PathBuf.not_overlaps_of_relative hrel (by rw [h.path_comps]; simp) place
  | some found =>
      have hmade : made = fs := by
        have := h.created
        cases this
        rfl
      subst hmade
      have hfound : made.Resolves Arrives maxLinks (startOf cwd (isAbsolute (osBytes path))) (pieces (osBytes path)) found := by
        rw [canonicalize] at hcanon
        split at hcanon
        · cases hcanon
        · exact resolves_of_walk hcanon
      obtain rfl := hfound.eq_of_opens h.resolves
      simp [PathBuf.overlaps_ofLocation]

theorem overlaps_iff_of_existing (h : fs.Opened cwd refuses path made comps last dir place)
    (hnul : ∀ location target, fs.node location = some (.link target) → 0 ∉ target)
    (hcwd : fs.Reached (startOf cwd (isAbsolute (osBytes path)))) {found : Location}
    (hfound : fs.Resolves Arrives maxLinks (startOf cwd (isAbsolute (osBytes path))) (written comps) found) :
    (PathBuf.ofLocation found).Overlaps (.ofLocation place) ↔
      ∀ target other, fs.node (found ++ [last]) = some (.link target) →
        fs.land maxLinks (if isAbsolute target then [] else found) (pieces target) = some other → found <+: other := by
  have hs : PathBuf.Spelled comps := fun comp hcomp => h.spelled comp (List.mem_cons_of_mem _ hcomp)
  obtain rfl := createDirAll_of_resolves hs h.created hfound
  obtain rfl := hfound.unique h.resolves_dir
  obtain ⟨above, name, hplace, -, -, -, -, hnode⟩ := h.lands hnul hcwd
  obtain ⟨fewer, hfewer, hlast⟩ := h.resolves_last
  obtain ⟨-, -, ⟨rfl, hnode⟩ | ⟨target, fewer', hle, hlink, hopens⟩⟩ := hlast.opens_last
  · simp only [PathBuf.overlaps_ofLocation, List.prefix_append, true_or, true_iff]
    intro target other hlink
    rcases hnode with hnode | hnode <;> rw [hnode] at hlink <;> cases hlink
  · have hland : made.land maxLinks (if isAbsolute target then [] else found) (pieces target) = some place :=
      land_of_resolves (hopens.of_le (hle.trans hfewer))
    rw [PathBuf.overlaps_ofLocation]
    constructor
    · rintro hover target' other hlink' hother
      rw [hlink, Option.some.injEq, HostNode.link.injEq] at hlink'
      subst hlink'
      rw [hland, Option.some.injEq] at hother
      subst hother
      rcases hover with hp | hp
      · exact hp
      · rw [(h.reached_dir hnul hcwd).eq_below hp (by rw [hplace]; simp) hnode]
    · exact fun hall => .inl (hall target place hlink hland)

/-- A path that stays as it is written is not compared with where the file lands. -/
theorem not_overlaps_of_written (h : fs.Opened cwd refuses path made comps last dir place)
    (hnul : ∀ location target, fs.node location = some (.link target) → 0 ∉ target)
    (hne : isAbsolute (osBytes path) = true ∨ comps ≠ [])
    (hodd : isAbsolute (osBytes path) = true → ∃ comp ∈ comps, ∀ name, comp ≠ .normal name) :
    ¬ (⟨isAbsolute (osBytes path), comps.reverse⟩ : PathBuf).Overlaps (.ofLocation place) := by
  intro hover
  by_cases hroot : isAbsolute (osBytes path) = true
  · obtain ⟨odd, hmem, hnot⟩ := hodd hroot
    rcases hover with hover | hover
    · obtain hempty | ⟨-, more, hmore⟩ := PathBuf.startsWith_iff.mp hover
      · exact absurd hempty (PathBuf.ofLocation_ne_empty place)
      have hmore : place.map PathComp.normal ++ more = comps.reverse := hmore
      have hstart : startOf cwd (isAbsolute (osBytes path)) = [] := by rw [hroot]; rfl
      obtain ⟨above, name, rfl, habove, -, hname, -, hnode⟩ := h.lands hnul (hstart ▸ Reached.nil)
      have hdir := h.resolves_dir
      have hwritten : written comps = above ++ [name] ++ more.map PathBuf.compBytes := by
        rw [written, ← hmore]
        simp [Function.comp_def, PathBuf.compBytes]
      rw [hstart, hwritten] at hdir
      apply not_prefix_of_written hdir habove hname _ hnode
      rw [Ne, List.map_eq_nil_iff]
      rintro rfl
      rw [List.append_nil] at hmore
      have hodd : odd ∈ (above ++ [name]).map PathComp.normal := by
        rw [hmore]
        exact List.mem_reverse.mpr hmem
      obtain ⟨other, -, rfl⟩ := List.mem_map.mp hodd
      exact hnot other rfl
    · obtain hempty | ⟨-, hfront⟩ := PathBuf.startsWith_iff.mp hover
      · cases (PathBuf.mk.inj hempty).1.symm.trans hroot
      · obtain ⟨other, -, rfl⟩ := List.mem_map.mp (hfront.subset (List.mem_reverse.mpr hmem))
        exact hnot other rfl
  · have hcomps : comps.reverse ≠ [] := by simpa using hne.resolve_left hroot
    exact PathBuf.not_overlaps_of_relative (by simpa using hroot) hcomps place hover

theorem overlaps_iff_of_missing (hrooted : fs.Rooted) (h : fs.Opened cwd refuses path made comps last dir place)
    (hnul : ∀ location target, fs.node location = some (.link target) → 0 ∉ target)
    (hne : isAbsolute (osBytes path) = true ∨ comps ≠ [])
    (hno : ∀ found, ¬ fs.Resolves Arrives maxLinks (startOf cwd (isAbsolute (osBytes path))) (written comps) found) :
    (fs.normalizeRev cwd (isAbsolute (osBytes path)) comps).Overlaps (.ofLocation place) ↔
      ∃ other, fs.normalizeRev cwd (isAbsolute (osBytes path)) comps = .ofLocation other := by
  have hs : PathBuf.Spelled comps := fun comp hcomp => h.spelled comp (List.mem_cons_of_mem _ hcomp)
  constructor
  · intro hover
    obtain hplace | ⟨hwritten, hodd⟩ := normalizeRev_place_or_written hs
    · exact hplace
    · rw [hwritten] at hover
      exact absurd hover (not_overlaps_of_written h hnul hne hodd)
  · rintro ⟨other, hother⟩
    have hplaced := createDirAll_place hrooted hs h.created hother
    obtain ⟨hne, hnone⟩ := hplaced.fresh hno
    obtain rfl := hplaced.resolves.unique h.resolves_dir
    have hgone : made.node (other ++ [last]) = none := hplaced.none_below hrooted hne hnone last
    obtain ⟨fewer, -, hlast⟩ := h.resolves_last
    obtain ⟨-, -, ⟨rfl, -⟩ | ⟨target, -, -, hlink, -⟩⟩ := hlast.opens_last
    · rw [hother, PathBuf.overlaps_ofLocation]
      exact .inl (List.prefix_append _ _)
    · rw [hgone] at hlink
      cases hlink

/-- The directory that is compared has to do with the place of the file just when the check
oversees it. -/
theorem overlaps_iff_overseen (hrooted : fs.Rooted) (h : fs.Opened cwd refuses path made comps last dir place)
    (hnul : ∀ location target, fs.node location = some (.link target) → 0 ∉ target)
    (hcwd : fs.Reached cwd) : (fs.journalDir cwd path).Overlaps (.ofLocation place) ↔ fs.Overseen cwd path := by
  have hs : PathBuf.Spelled comps := fun comp hcomp => h.spelled comp (List.mem_cons_of_mem _ hcomp)
  have hstart := hcwd.startOf (isAbsolute (osBytes path))
  rw [journalDir_of_opened h, Overseen, h.path_comps, List.reverse_reverse]
  dsimp only
  split
  · rename_i hbare
    obtain ⟨hrel, rfl⟩ := hbare
    exact overlaps_iff_of_bare h hrel
  · rename_i hbare
    have hne : isAbsolute (osBytes path) = true ∨ comps ≠ [] := by
      rcases not_and_or.mp hbare with hroot | hne
      · exact .inl (by simpa using hroot)
      · exact .inr hne
    split
    · rename_i found hcanon
      obtain ⟨-, hfound⟩ := (canonicalize_written hs).mp hcanon
      rw [normalizeRev_of_resolves hs hne hfound]
      exact overlaps_iff_of_existing h hnul hstart hfound
    · rename_i hcanon
      apply overlaps_iff_of_missing hrooted h hnul hne
      intro found hfound
      rw [(canonicalize_written hs).mpr ⟨hne, hfound⟩] at hcanon
      cases hcanon

end

end HostFs

end Silo.Shell
