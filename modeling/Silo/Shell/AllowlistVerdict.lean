import Silo.Shell.AllowlistGuard

namespace Silo.Shell

open Silo.Workspace

theorem HostFs.mem_scanAllowlistEntry {fs : HostFs} {cwd : Location} {dirs : Dirs} {entry : OsStr} {hit : RiskHit} :
    hit ∈ fs.scanAllowlistEntry cwd dirs entry ↔ ∃ risk ∈ knownRiskyPaths dirs, ∃ place,
      fs.canonicalize cwd risk.1 = some place ∧ (fs.normalizePath cwd entry).Overlaps (.ofLocation place) ∧
        hit = ⟨.ofLocation place, risk.2⟩ := by
  rw [scanAllowlistEntry]
  simp only [List.mem_filterMap]
  constructor
  · rintro ⟨risk, hrisk, hhit⟩
    cases hplace : fs.canonicalize cwd risk.1 with
    | none => simp [hplace] at hhit
    | some place =>
        simp only [hplace, Option.ite_none_right_eq_some, Bool.or_eq_true, Option.some.injEq] at hhit
        exact ⟨risk, hrisk, place, hplace, hhit.1.symm, hhit.2.symm⟩
  · rintro ⟨risk, hrisk, place, hplace, hover, rfl⟩
    refine ⟨risk, hrisk, ?_⟩
    simp only [hplace]
    exact if_pos (Bool.or_eq_true _ _ ▸ hover.symm)

theorem Process.validateReadAllowlist_ok_iff {fs : HostFs} {p : Process} {dirs : Dirs}
    {entries overrides : List OsStr} :
    (∃ warnings, p.validateReadAllowlist fs dirs entries overrides = .ok warnings) ↔
      ∀ entry ∈ entries, ∀ risk ∈ knownRiskyPaths dirs, ∀ place, fs.canonicalize p.cwd risk.1 = some place →
        (fs.normalizePath p.cwd entry).Overlaps (.ofLocation place) →
        ∃ accepted ∈ overrides, fs.normalizePath p.cwd accepted = fs.normalizePath p.cwd entry := by
  have hok : (∃ warnings, p.validateReadAllowlist fs dirs entries overrides = .ok warnings) ↔
      (fs.scanAllowlist p.cwd dirs entries).filter
        (fun e => fs.normalizePath p.cwd e.1 ∉ overrides.map (fs.normalizePath p.cwd)) = [] := by
    rw [validateReadAllowlist]
    simp only [List.isEmpty_iff]
    split
    · rename_i hnil
      exact ⟨fun _ => hnil, fun _ => ⟨_, rfl⟩⟩
    · rename_i hrefused
      exact ⟨by rintro ⟨_, ⟨⟩⟩, fun hnil => absurd hnil hrefused⟩
  rw [hok, List.filter_eq_nil_iff]
  constructor
  · intro h entry hentry risk hrisk place hplace hover
    have hhit := HostFs.mem_scanAllowlistEntry.mpr ⟨risk, hrisk, place, hplace, hover, rfl⟩
    simpa using h _ (List.mem_flatMap.mpr ⟨entry, hentry, List.mem_map_of_mem hhit⟩)
  · intro h e he
    obtain ⟨entry, hentry, he⟩ := List.mem_flatMap.mp he
    obtain ⟨hit, hhit, rfl⟩ := List.mem_map.mp he
    obtain ⟨risk, hrisk, place, hplace, hover, -⟩ := HostFs.mem_scanAllowlistEntry.mp hhit
    simpa using h entry hentry risk hrisk place hplace hover

namespace HostFs

/-- The location equals or contains a sensitive path that is there, or lies inside one. -/
def Sensitive (fs : HostFs) (cwd : Location) (dirs : Dirs) (location : Location) : Prop :=
  ∃ risk ∈ knownRiskyPaths dirs, (fs.canonicalize cwd risk.1).isSome ∧
    ∃ place, fs.RealLocation cwd (.raw risk.1) place ∧ (location <+: place ∨ place <+: location)

variable {fs : HostFs} {cwd : Location} {dirs : Dirs} {location : Location}

theorem sensitive_iff : fs.Sensitive cwd dirs location ↔ ∃ risk ∈ knownRiskyPaths dirs, ∃ place,
    fs.canonicalize cwd risk.1 = some place ∧ (PathBuf.ofLocation location).Overlaps (.ofLocation place) := by
  constructor
  · rintro ⟨risk, hrisk, hthere, place, hreal, hover⟩
    obtain ⟨found, hfound⟩ := Option.isSome_iff_exists.mp hthere
    have hplace : fs.RealLocation cwd (.raw risk.1) found := realLocation_of_canonicalize hfound
    obtain rfl := hplace.unique hreal
    exact ⟨risk, hrisk, found, hfound, PathBuf.overlaps_ofLocation.mpr hover⟩
  · rintro ⟨risk, hrisk, place, hplace, hover⟩
    have hreal : fs.RealLocation cwd (.raw risk.1) place := realLocation_of_canonicalize hplace
    exact ⟨risk, hrisk, by rw [hplace]; rfl, place, hreal, PathBuf.overlaps_ofLocation.mp hover⟩

def rootDirs : Dirs := ⟨.raw [slash], .raw [slash]⟩

theorem rootDirs_risky (fs : HostFs) (cwd : Location) :
    ∃ risk ∈ knownRiskyPaths rootDirs, fs.canonicalize cwd risk.1 = some [] :=
  ⟨_, List.mem_append_right _ (List.mem_singleton_self _), canonicalize_slash⟩

theorem sensitive_rootDirs : fs.Sensitive cwd rootDirs location := by
  obtain ⟨risk, hrisk, hplace⟩ := rootDirs_risky fs cwd
  exact sensitive_iff.mpr ⟨risk, hrisk, [], hplace, PathBuf.overlaps_ofLocation.mpr (.inr List.nil_prefix)⟩

end HostFs

namespace HostState

/-- The entries pass just when each one that stands for a sensitive location has an override
for that location. -/
def Judged (host : HostState) (dirs : Dirs) (entries overrides : List OsStr) : Prop :=
  (∃ warnings, host.process.validateReadAllowlist host.fs dirs entries overrides = .ok warnings) ↔
    ∀ entry ∈ entries, ∀ location, host.fs.RealLocation host.process.cwd entry location →
      host.fs.Sensitive host.process.cwd dirs location →
        ∃ accepted ∈ overrides, host.fs.RealLocation host.process.cwd accepted location

variable {host : HostState} {dirs : Dirs} {entries overrides : List OsStr} {path : OsStr}

theorem judged_of_placed (h : ∀ path ∈ entries ++ overrides,
    host.fs.Plain host.process.cwd path ∨ host.fs.Unplaced host.process.cwd path) :
    host.Judged dirs entries overrides := by
  rw [Judged, Process.validateReadAllowlist_ok_iff]
  constructor
  · intro hok entry hentry location hreal hsensitive
    obtain ⟨risk, hrisk, place, hplace, hover⟩ := HostFs.sensitive_iff.mp hsensitive
    rcases h entry (List.mem_append_left _ hentry) with hplain | hunplaced
    · rw [← hplain.unique hreal] at hover
      obtain ⟨accepted, haccepted, heq⟩ := hok entry hentry risk hrisk place hplace hover
      rw [hplain.unique hreal] at heq
      rcases h accepted (List.mem_append_right _ haccepted) with hplain' | hunplaced
      · obtain ⟨other, hother, hnormal⟩ := hplain'.placed
        rw [hnormal] at heq
        rw [PathBuf.ofLocation_injective heq] at hother
        exact ⟨accepted, haccepted, hother⟩
      · exact absurd heq (hunplaced.ne_ofLocation location)
    · exact absurd hreal (hunplaced.nowhere location)
  · intro hspec entry hentry risk hrisk place hplace hover
    rcases h entry (List.mem_append_left _ hentry) with hplain | hunplaced
    · obtain ⟨location, hreal, hnormal⟩ := hplain.placed
      rw [hnormal] at hover
      obtain ⟨accepted, haccepted, hsame⟩ :=
        hspec entry hentry location hreal (HostFs.sensitive_iff.mpr ⟨risk, hrisk, place, hplace, hover⟩)
      refine ⟨accepted, haccepted, ?_⟩
      rcases h accepted (List.mem_append_right _ haccepted) with hplain' | hunplaced
      · rw [hnormal, hplain'.unique hsame]
      · exact absurd hsame (hunplaced.nowhere location)
    · exact absurd hover (hunplaced.not_overlaps place)

/-- Entries for the same locations get the same verdict, however they are written. -/
theorem judged_respelled {entries' overrides' : List OsStr} (h : host.Judged dirs entries overrides)
    (h' : host.Judged dirs entries' overrides')
    (hentries : ∀ location, (∃ entry ∈ entries, host.fs.RealLocation host.process.cwd entry location) ↔
      ∃ entry ∈ entries', host.fs.RealLocation host.process.cwd entry location)
    (hoverrides : ∀ location, (∃ accepted ∈ overrides, host.fs.RealLocation host.process.cwd accepted location) ↔
      ∃ accepted ∈ overrides', host.fs.RealLocation host.process.cwd accepted location) :
    (∃ warnings, host.process.validateReadAllowlist host.fs dirs entries overrides = .ok warnings) ↔
      ∃ warnings, host.process.validateReadAllowlist host.fs dirs entries' overrides' = .ok warnings := by
  apply h.trans
  refine Iff.trans ?_ h'.symm
  constructor
  · intro hok entry hentry location hreal hsensitive
    obtain ⟨other, hother, hsame⟩ := (hentries location).mpr ⟨entry, hentry, hreal⟩
    exact (hoverrides location).mp (hok other hother location hsame hsensitive)
  · intro hok entry hentry location hreal hsensitive
    obtain ⟨other, hother, hsame⟩ := (hentries location).mp ⟨entry, hentry, hreal⟩
    exact (hoverrides location).mpr (hok other hother location hsame hsensitive)

/-- A path that is rightly judged next to the spelled-out locations is normalised to its own. -/
theorem placed_of_judged (h : ∀ overrides, (∀ accepted ∈ overrides, host.fs.Plain host.process.cwd accepted) →
    host.Judged HostFs.rootDirs [path] overrides) :
    host.fs.Plain host.process.cwd path ∨ host.fs.Unplaced host.process.cwd path := by
  have hnone := h [] nofun
  rw [Judged, Process.validateReadAllowlist_ok_iff] at hnone
  by_cases hreal : ∃ location, host.fs.RealLocation host.process.cwd path location
  · obtain ⟨location, hreal⟩ := hreal
    left
    have hstart := host.reached.startOf (isAbsolute (osBytes path))
    have hclean : ∀ piece ∈ pieces (osBytes path), HostFs.IsClean piece :=
      fun piece hp => HostFs.isClean_of_mem_pieces hreal.no_nul hp
    have hnames := hreal.real.names host.targets hstart.names hclean
    have hlinks := hreal.real.linkless hstart.linkless
    have hplain := HostFs.plain_spelled host.process.cwd hnames hlinks host.reached
    -- with the location itself accepted the path has to pass
    have hspelled := h [.raw (PathBuf.ofLocation location).bytes] fun accepted haccepted => by
      obtain rfl := List.mem_singleton.mp haccepted
      exact hplain
    rw [Judged, Process.validateReadAllowlist_ok_iff] at hspelled
    have hpass := hspelled.mpr fun entry hentry other hother _ => by
      obtain rfl := List.mem_singleton.mp hentry
      obtain rfl := hreal.unique hother
      exact ⟨_, List.mem_singleton_self _, HostFs.realLocation_spelled _ hnames hlinks⟩
    obtain ⟨risk, hrisk, hplace⟩ := HostFs.rootDirs_risky host.fs host.process.cwd
    by_cases hover : (host.fs.normalizePath host.process.cwd path).Overlaps (.ofLocation [])
    · obtain ⟨accepted, haccepted, heq⟩ := hpass path (List.mem_singleton_self _) risk hrisk [] hplace hover
      obtain rfl := List.mem_singleton.mp haccepted
      rw [HostFs.normalizePath_location _ hnames hlinks] at heq
      exact HostFs.plain_of_placed host.reached hreal heq.symm
    · -- compared with nothing, it passes without an override, which it needs
      have hfree := hnone.mp fun entry hentry risk' hrisk' place hplace' hover' => by
        obtain rfl := List.mem_singleton.mp hentry
        exact absurd (hover'.of_prefix List.nil_prefix).symm hover
      obtain ⟨accepted, haccepted, -⟩ :=
        hfree path (List.mem_singleton_self _) location hreal HostFs.sensitive_rootDirs
      cases haccepted
  · right
    have hnowhere : ∀ location, ¬ host.fs.RealLocation host.process.cwd path location := not_exists.mp hreal
    apply HostFs.unplaced_of_not_overlaps hnowhere
    intro hover
    have hpass := hnone.mpr fun entry hentry location hlocation _ => by
      obtain rfl := List.mem_singleton.mp hentry
      exact absurd hlocation (hnowhere location)
    obtain ⟨risk, hrisk, hplace⟩ := HostFs.rootDirs_risky host.fs host.process.cwd
    obtain ⟨accepted, haccepted, -⟩ := hpass path (List.mem_singleton_self _) risk hrisk [] hplace hover
    cases haccepted

/-- These paths are rightly judged, in any lists of them and of plain ones, just when each
is plain or is compared with nothing. -/
theorem judged_iff_placed (host : HostState) (paths : List OsStr) :
    (∀ dirs entries overrides,
        (∀ path ∈ entries ++ overrides, path ∈ paths ∨ host.fs.Plain host.process.cwd path) →
          host.Judged dirs entries overrides) ↔
      ∀ path ∈ paths, host.fs.Plain host.process.cwd path ∨ host.fs.Unplaced host.process.cwd path := by
  constructor
  · intro h path hpath
    apply placed_of_judged
    intro overrides hplain
    apply h
    intro other hother
    rw [List.singleton_append, List.mem_cons] at hother
    rcases hother with rfl | hother
    · exact .inl hpath
    · exact .inr (hplain other hother)
  · intro h dirs entries overrides hmem
    apply judged_of_placed
    intro path hpath
    rcases hmem path hpath with hin | hplain
    · exact h path hin
    · exact .inl hplain

/-- `/n/../w` passes next to the state directory `/w`: it is `/w`, but there is no `/n`. -/
theorem not_judged_workplace : ¬ workplace.Judged ⟨.raw [0x2f, 0x77], .raw [0x2f, 0x77]⟩
    [.raw [0x2f, 0x6e, 0x2f, 0x2e, 0x2e, 0x2f, 0x77]] [] := by
  intro h
  have hpass : ∃ warnings, workplace.process.validateReadAllowlist workplace.fs
      ⟨.raw [0x2f, 0x77], .raw [0x2f, 0x77]⟩ [.raw [0x2f, 0x6e, 0x2f, 0x2e, 0x2e, 0x2f, 0x77]] [] = .ok warnings :=
    ⟨[], by decide +kernel⟩
  have hmissing : workplace.fs.node [[0x6e]] = none := rfl
  have hreal : workplace.fs.RealLocation workplace.process.cwd
      (.raw [0x2f, 0x6e, 0x2f, 0x2e, 0x2e, 0x2f, 0x77]) [[0x77]] := by
    have hpieces : pieces (osBytes (.raw [0x2f, 0x6e, 0x2f, 0x2e, 0x2e, 0x2f, 0x77])) =
        [[], [0x6e], dotDot, [0x77]] := by decide
    refine ⟨nofun, by decide, ?_⟩
    rw [hpieces]
    apply HostFs.Real.stay (.inl rfl)
    refine .down ⟨by decide, by decide, by decide⟩ ?_ (.up (.down ⟨by decide, by decide, by decide⟩ nofun .done))
    exact fun target htarget => nomatch hmissing.symm.trans htarget
  have hsensitive : workplace.fs.Sensitive workplace.process.cwd ⟨.raw [0x2f, 0x77], .raw [0x2f, 0x77]⟩ [[0x77]] := by
    rw [HostFs.sensitive_iff]
    refine ⟨_, List.mem_append_right _ (List.mem_singleton_self _), [[0x77]], by decide, ?_⟩
    exact PathBuf.overlaps_ofLocation.mpr (.inl List.prefix_rfl)
  obtain ⟨accepted, haccepted, -⟩ := h.mp hpass _ (List.mem_singleton_self _) _ hreal hsensitive
  cases haccepted

end HostState

end Silo.Shell
