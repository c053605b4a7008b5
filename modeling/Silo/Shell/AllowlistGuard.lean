import Silo.Shell.RealLocation

namespace Silo.Shell

open Silo.Workspace

namespace HostFs

variable {fs : HostFs} {cwd : Location} {root : Bool} {path : OsStr} {location : Location}

theorem normalizeRev_of_none {name : OsBytes} {rest : List PathComp}
    (hnone : fs.canonicalize cwd (PathBuf.bytes ⟨root, (PathComp.normal name :: rest).reverse⟩) = none)
    (hne : root = true ∨ rest ≠ []) :
    fs.normalizeRev cwd root (.normal name :: rest) = (fs.normalizeRev cwd root rest).push name := by
  rw [normalizeRev, hnone]
  simp only
  rw [if_pos (by simpa using hne)]

theorem normalizeRev_of_some {comps : List PathComp}
    (h : fs.canonicalize cwd (PathBuf.bytes ⟨root, comps.reverse⟩) = some location) :
    fs.normalizeRev cwd root comps = .ofLocation location := by
  cases comps with
  | nil => rw [normalizeRev, show (⟨root, []⟩ : PathBuf) = ⟨root, [].reverse⟩ from rfl, h]
  | cons comp rest => cases comp <;> simp only [normalizeRev, h]

theorem canonicalize_slash : fs.canonicalize cwd (PathBuf.bytes ⟨true, []⟩) = some [] := by
  have hspelled : PathBuf.Spelled [] := nofun
  exact (canonicalize_bytes hspelled true).mpr ⟨.inl rfl, .done ⟨rfl, rfl⟩⟩

theorem ne_of_canonicalize {front : List PathComp}
    (h : fs.canonicalize cwd (PathBuf.bytes ⟨root, front⟩) = some location) : root = true ∨ front ≠ [] := by
  cases root with
  | true => exact .inl rfl
  | false =>
      refine .inr ?_
      rintro rfl
      cases h

theorem reverse_concat (front : List PathComp) (names : List OsBytes) (name : OsBytes) :
    (front ++ (names ++ [name]).map PathComp.normal).reverse =
      .normal name :: (front ++ names.map PathComp.normal).reverse := by
  rw [List.map_append, ← List.append_assoc, List.reverse_append]
  rfl

theorem concat_ne {front : List PathComp} (names : List OsBytes) (h : root = true ∨ front ≠ []) :
    root = true ∨ (front ++ names.map PathComp.normal).reverse ≠ [] := by
  refine h.imp_right fun hne hnil => hne ?_
  rw [List.reverse_eq_nil_iff] at hnil
  exact (List.append_eq_nil_iff.mp hnil).1

theorem normalizeRev_place {front : List PathComp} {dir : Location}
    (hfront : fs.canonicalize cwd (PathBuf.bytes ⟨root, front⟩) = some dir) (names : List OsBytes) :
    ∃ place, fs.normalizeRev cwd root (front ++ names.map PathComp.normal).reverse = .ofLocation place := by
  induction names using List.reverseRecOn with
  | nil =>
      rw [List.map_nil, List.append_nil]
      exact ⟨dir, normalizeRev_of_some (by rw [List.reverse_reverse]; exact hfront)⟩
  | append_singleton names name ih =>
      obtain ⟨place, hplace⟩ := ih
      rw [reverse_concat]
      cases hcanon : fs.canonicalize cwd
          (PathBuf.bytes ⟨root, (PathComp.normal name :: (front ++ names.map PathComp.normal).reverse).reverse⟩) with
      | some found => exact ⟨found, normalizeRev_of_some hcanon⟩
      | none =>
          refine ⟨place ++ [name], ?_⟩
          rw [normalizeRev_of_none hcanon (concat_ne names (ne_of_canonicalize hfront)), hplace,
            PathBuf.push_ofLocation]

section Linkless

variable {front : List PathComp} {dir : Location} {names : List OsBytes}

theorem real_of_linkless (hs : PathBuf.Spelled (front ++ names.map PathComp.normal))
    (hfront : fs.canonicalize cwd (PathBuf.bytes ⟨root, front⟩) = some dir) (hlinks : fs.Linkless (dir ++ names)) :
    fs.Real (startOf cwd root) ((front ++ names.map PathComp.normal).map PathBuf.compBytes) (dir ++ names) := by
  have hsfront : PathBuf.Spelled front := fun comp hcomp => hs comp (List.mem_append_left _ hcomp)
  obtain ⟨-, hdir⟩ := (canonicalize_bytes hsfront root).mp hfront
  have hnames : ∀ name ∈ names, IsName name := by
    intro name hname
    exact (hs (.normal name) (List.mem_append_right _ (List.mem_map_of_mem hname))).2 name rfl
  rw [List.map_append, List.map_map, show PathBuf.compBytes ∘ PathComp.normal = id from rfl, List.map_id]
  exact (Real.of_resolves hdir).append (.of_linkless hnames hlinks)

/-- It is the place that the path names if there is no link among the names. -/
theorem normalizeRev_linkless (hs : PathBuf.Spelled (front ++ names.map PathComp.normal))
    (hfront : fs.canonicalize cwd (PathBuf.bytes ⟨root, front⟩) = some dir) (hlinks : fs.Linkless (dir ++ names)) :
    fs.normalizeRev cwd root (front ++ names.map PathComp.normal).reverse = .ofLocation (dir ++ names) := by
  induction names using List.reverseRecOn with
  | nil =>
      rw [List.map_nil, List.append_nil, List.append_nil]
      exact normalizeRev_of_some (by rw [List.reverse_reverse]; exact hfront)
  | append_singleton names name ih =>
      have hreal := real_of_linkless hs hfront hlinks
      rw [reverse_concat]
      cases hcanon : fs.canonicalize cwd
          (PathBuf.bytes ⟨root, (PathComp.normal name :: (front ++ names.map PathComp.normal).reverse).reverse⟩) with
      | some found =>
          rw [normalizeRev_of_some hcanon]
          rw [← reverse_concat, List.reverse_reverse] at hcanon
          obtain ⟨-, hfound⟩ := (canonicalize_bytes hs root).mp hcanon
          rw [(Real.of_resolves hfound).unique hreal]
      | none =>
          have hfewer : PathBuf.Spelled (front ++ names.map PathComp.normal) := by
            intro comp hcomp
            apply hs
            rw [List.map_append, ← List.append_assoc]
            exact List.mem_append_left _ hcomp
          rw [← List.append_assoc] at hlinks ⊢
          rw [normalizeRev_of_none hcanon (concat_ne names (ne_of_canonicalize hfront)),
            ih hfewer (hlinks.of_prefix (List.prefix_append _ _)), PathBuf.push_ofLocation]

end Linkless

theorem parts_of_normalizeRev {comps : List PathComp} (h : fs.normalizeRev cwd root comps = .ofLocation location) :
    ∃ front names dir, comps.reverse = front ++ names.map PathComp.normal ∧
      fs.canonicalize cwd (PathBuf.bytes ⟨root, front⟩) = some dir ∧ location = dir ++ names := by
  induction comps generalizing location with
  | nil =>
      cases hcanon : fs.canonicalize cwd (PathBuf.bytes ⟨root, []⟩) with
      | some found =>
          rw [normalizeRev_of_some (by rw [List.reverse_nil]; exact hcanon)] at h
          exact ⟨[], [], found, rfl, hcanon, by rw [PathBuf.ofLocation_injective h, List.append_nil]⟩
      | none =>
          rw [normalizeRev, hcanon] at h
          obtain ⟨rfl, -⟩ := PathBuf.mem_of_eq_ofLocation h
          rw [canonicalize_slash] at hcanon
          cases hcanon
  | cons comp rest ih =>
      cases hcanon : fs.canonicalize cwd (PathBuf.bytes ⟨root, (comp :: rest).reverse⟩) with
      | some found =>
          rw [normalizeRev_of_some hcanon] at h
          exact ⟨(comp :: rest).reverse, [], found, by simp, hcanon,
            by rw [PathBuf.ofLocation_injective h, List.append_nil]⟩
      | none =>
          cases comp with
          | current | parent =>
              simp only [normalizeRev, hcanon] at h
              obtain ⟨name, hname⟩ := (PathBuf.mem_of_eq_ofLocation h).2 _ (List.mem_reverse.mpr List.mem_cons_self)
              cases hname
          | normal name =>
              by_cases hne : root = true ∨ rest ≠ []
              · rw [normalizeRev_of_none hcanon hne] at h
                obtain ⟨above, habove, rfl⟩ := PathBuf.push_eq_ofLocation h
                obtain ⟨front, names, dir, hcomps, hdir, rfl⟩ := ih habove
                refine ⟨front, names ++ [name], dir, ?_, hdir, List.append_assoc _ _ _⟩
                rw [List.reverse_cons, hcomps, List.map_append, List.append_assoc]
                rfl
              · simp only [normalizeRev, hcanon] at h
                rw [if_neg (by simpa using hne)] at h
                obtain ⟨hroot, -⟩ := PathBuf.mem_of_eq_ofLocation h
                exact absurd (.inl hroot) hne

theorem normalizeRev_place_or_same (comps : List PathComp) :
    (∃ place, fs.normalizeRev cwd root comps = .ofLocation place) ∨
      fs.normalizeRev cwd root comps = ⟨root, comps.reverse⟩ := by
  induction comps with
  | nil =>
      cases hcanon : fs.canonicalize cwd (PathBuf.bytes ⟨root, []⟩) with
      | some found => exact .inl ⟨found, normalizeRev_of_some (by rw [List.reverse_nil]; exact hcanon)⟩
      | none => exact .inr (by rw [normalizeRev, hcanon]; rfl)
  | cons comp rest ih =>
      cases hcanon : fs.canonicalize cwd (PathBuf.bytes ⟨root, (comp :: rest).reverse⟩) with
      | some found => exact .inl ⟨found, normalizeRev_of_some hcanon⟩
      | none =>
          cases comp with
          | current | parent =>
              simp only [normalizeRev, hcanon]
              exact .inr trivial
          | normal name =>
              by_cases hne : root = true ∨ rest ≠ []
              · rw [normalizeRev_of_none hcanon hne]
                rcases ih with ⟨place, hplace⟩ | hsame
                · exact .inl ⟨_, by rw [hplace, PathBuf.push_ofLocation]⟩
                · exact .inr (by rw [hsame]; simp [PathBuf.push])
              · simp only [normalizeRev, hcanon]
                rw [if_neg (by simpa using hne)]
                simp only [not_or, not_not] at hne
                rw [hne.2]
                exact .inr rfl

theorem normalizePath_cases (hnone : fs.canonicalize cwd (osBytes path) = none) :
    (∃ (above : List PathComp) (name : OsBytes), (PathBuf.ofBytes (osBytes path)).comps = above ++ [.normal name] ∧
      (isAbsolute (osBytes path) = true ∨ above ≠ []) ∧
      fs.normalizePath cwd path = (fs.normalizeRev cwd (isAbsolute (osBytes path)) above.reverse).push name) ∨
    fs.normalizePath cwd path = .ofBytes (osBytes path) ∧
      ∀ (above : List PathComp) (name : OsBytes),
        (PathBuf.ofBytes (osBytes path)).comps = above ++ [.normal name] →
          ¬ (isAbsolute (osBytes path) = true ∨ above ≠ []) := by
  have hroot : (PathBuf.ofBytes (osBytes path)).root = isAbsolute (osBytes path) := rfl
  obtain ⟨rev, hrev⟩ : ∃ rev : List PathComp, (PathBuf.ofBytes (osBytes path)).comps.reverse = rev := ⟨_, rfl⟩
  have hcomps : (PathBuf.ofBytes (osBytes path)).comps = rev.reverse := by rw [← hrev, List.reverse_reverse]
  rw [normalizePath, hnone]
  dsimp only
  rw [reattach, hrev, hroot]
  split
  · rename_i name rest
    have habove : (PathBuf.ofBytes (osBytes path)).comps = rest.reverse ++ [.normal name] := by
      rw [hcomps, List.reverse_cons]
    split
    · rename_i hne
      exact .inl ⟨rest.reverse, name, habove, by simpa using hne, by rw [List.reverse_reverse]⟩
    · rename_i hne
      refine .inr ⟨rfl, ?_⟩
      intro above other heq hother
      obtain ⟨rfl, -⟩ := List.append_inj' (heq.symm.trans habove) rfl
      exact hne (by simpa using hother)
  · rename_i hnot
    refine .inr ⟨rfl, ?_⟩
    intro above other heq _
    apply hnot other above.reverse
    rw [← List.reverse_inj, ← hcomps, heq, List.reverse_cons, List.reverse_reverse]

/-- The path is there, or a part of it is there and then come names that are no links. -/
def Plain (fs : HostFs) (cwd : Location) (path : OsStr) : Prop :=
  (∃ found, fs.canonicalize cwd (osBytes path) = some found) ∨
    0 ∉ osBytes path ∧ ∃ front names dir, (PathBuf.ofBytes (osBytes path)).comps = front ++ names.map PathComp.normal ∧
      names ≠ [] ∧ fs.canonicalize cwd (PathBuf.bytes ⟨isAbsolute (osBytes path), front⟩) = some dir ∧
      fs.Linkless (dir ++ names)

/-- The path is relative and leads nowhere, and no part of it before its last names is
there: it is compared with nothing. -/
structure Unplaced (fs : HostFs) (cwd : Location) (path : OsStr) : Prop where
  relative : isAbsolute (osBytes path) = false
  nonempty : (PathBuf.ofBytes (osBytes path)).comps ≠ []
  nowhere : ∀ location, ¬ fs.RealLocation cwd path location
  apart : ∀ front names, (PathBuf.ofBytes (osBytes path)).comps = front ++ names.map PathComp.normal → names ≠ [] →
    fs.canonicalize cwd (PathBuf.bytes ⟨false, front⟩) = none

theorem last_of_names {comps front : List PathComp} {names : List OsBytes}
    (hcomps : comps = front ++ names.map PathComp.normal) (hnames : names ≠ []) : ∃ fewer name, names = fewer ++ [name] ∧
      comps = (front ++ fewer.map PathComp.normal) ++ [PathComp.normal name] := by
  refine ⟨names.dropLast, names.getLast hnames, (List.dropLast_append_getLast hnames).symm, ?_⟩
  rw [hcomps, List.append_assoc, ← List.map_singleton, ← List.map_append, List.dropLast_append_getLast hnames]

section Names

variable {front : List PathComp} {names : List OsBytes} {dir : Location}
  (hcomps : (PathBuf.ofBytes (osBytes path)).comps = front ++ names.map PathComp.normal) (hnames : names ≠ [])
  (hdir : fs.canonicalize cwd (PathBuf.bytes ⟨isAbsolute (osBytes path), front⟩) = some dir)
include hcomps hnames hdir

theorem normalizePath_of_names (hnone : fs.canonicalize cwd (osBytes path) = none) :
    ∃ fewer name, names = fewer ++ [name] ∧ fs.normalizePath cwd path =
      (fs.normalizeRev cwd (isAbsolute (osBytes path)) (front ++ fewer.map PathComp.normal).reverse).push name := by
  obtain ⟨fewer, name, rfl, hlast⟩ := last_of_names hcomps hnames
  have hne : isAbsolute (osBytes path) = true ∨ front ++ fewer.map PathComp.normal ≠ [] :=
    (ne_of_canonicalize hdir).imp_right fun hne hnil => hne (List.append_eq_nil_iff.mp hnil).1
  obtain ⟨above, other, heq, -, hpush⟩ | ⟨-, hbare⟩ := normalizePath_cases hnone
  · obtain ⟨rfl, hname⟩ := List.append_inj' (heq.symm.trans hlast) rfl
    cases hname
    exact ⟨fewer, name, rfl, hpush⟩
  · exact absurd hne (hbare _ _ hlast)

theorem place_of_names (hnone : fs.canonicalize cwd (osBytes path) = none) :
    ∃ place, fs.normalizePath cwd path = .ofLocation place := by
  obtain ⟨fewer, name, -, hpath⟩ := normalizePath_of_names hcomps hnames hdir hnone
  obtain ⟨place, hplace⟩ := normalizeRev_place hdir fewer
  exact ⟨place ++ [name], by rw [hpath, hplace, PathBuf.push_ofLocation]⟩

theorem normalizePath_linkless (hnone : fs.canonicalize cwd (osBytes path) = none) (hnul : 0 ∉ osBytes path)
    (hlinks : fs.Linkless (dir ++ names)) : fs.normalizePath cwd path = .ofLocation (dir ++ names) := by
  have hs := PathBuf.spelled_ofBytes hnul
  obtain ⟨fewer, name, rfl, hpath⟩ := normalizePath_of_names hcomps hnames hdir hnone
  have hfewer : PathBuf.Spelled (front ++ fewer.map PathComp.normal) := by
    intro comp hcomp
    apply hs
    rw [hcomps, List.map_append, ← List.append_assoc]
    exact List.mem_append_left _ hcomp
  rw [← List.append_assoc] at hlinks ⊢
  rw [hpath, normalizeRev_linkless hfewer hdir (hlinks.of_prefix (List.prefix_append _ _)), PathBuf.push_ofLocation]

theorem realLocation_linkless (hnul : 0 ∉ osBytes path) (hlinks : fs.Linkless (dir ++ names)) :
    fs.RealLocation cwd path (dir ++ names) := by
  have hs := PathBuf.spelled_ofBytes hnul
  rw [hcomps] at hs
  refine ⟨?_, hnul, Real.of_comps ?_⟩
  · intro hnil
    rw [hnil] at hcomps
    exact hnames (List.map_eq_nil_iff.mp (List.append_eq_nil_iff.mp hcomps.symm).2)
  · rw [hcomps]
    exact real_of_linkless hs hdir hlinks

end Names

theorem Plain.placed (h : fs.Plain cwd path) :
    ∃ location, fs.RealLocation cwd path location ∧ fs.normalizePath cwd path = .ofLocation location := by
  cases hcanon : fs.canonicalize cwd (osBytes path) with
  | some found => exact ⟨found, realLocation_of_canonicalize hcanon, by rw [normalizePath, hcanon]⟩
  | none =>
      rcases h with ⟨found, hfound⟩ | ⟨hnul, front, names, dir, hcomps, hnames, hdir, hlinks⟩
      · rw [hcanon] at hfound
        cases hfound
      · exact ⟨dir ++ names, realLocation_linkless hcomps hnames hdir hnul hlinks,
          normalizePath_linkless hcomps hnames hdir hcanon hnul hlinks⟩

theorem Plain.unique (h : fs.Plain cwd path) (hreal : fs.RealLocation cwd path location) :
    fs.normalizePath cwd path = .ofLocation location := by
  obtain ⟨other, hother, hplace⟩ := h.placed
  rw [hplace, hother.unique hreal]

theorem canonicalize_of_no_comps (hroot : isAbsolute (osBytes path) = true) (hnul : 0 ∉ osBytes path)
    (hcomps : (PathBuf.ofBytes (osBytes path)).comps = []) : fs.canonicalize cwd (osBytes path) = some [] := by
  have hskip : ∀ pieces : List OsBytes, pieces.filterMap PathBuf.compOf = [] →
      fs.Resolves Arrives maxLinks [] pieces [] := by
    intro pieces h
    induction pieces with
    | nil => exact .done ⟨rfl, rfl⟩
    | cons piece rest ih =>
        rw [List.filterMap_eq_nil_iff, List.forall_mem_cons, ← List.filterMap_eq_nil_iff] at h
        refine .stay searchable_root ?_ (ih h.2)
        have hpiece := h.1
        rw [PathBuf.compOf] at hpiece
        split at hpiece
        · assumption
        · split at hpiece <;> cases hpiece
  have hnil : (pieces (osBytes path)).filterMap PathBuf.compOf = [] := by
    simp only [PathBuf.ofBytes] at hcomps
    split at hcomps
    · cases hcomps
    · exact hcomps
  rw [canonicalize, if_neg (not_or.mpr ⟨?_, hnul⟩), if_pos hroot]
  · exact walk_of_resolves (hskip _ hnil)
  · intro hempty
    rw [hempty] at hroot
    cases hroot

theorem plain_of_placed (hcwd : fs.Reached cwd) (hreal : fs.RealLocation cwd path location)
    (hplace : fs.normalizePath cwd path = .ofLocation location) : fs.Plain cwd path := by
  have hlinks : fs.Linkless location := hreal.real.linkless (hcwd.startOf _).linkless
  cases hcanon : fs.canonicalize cwd (osBytes path) with
  | some found => exact .inl ⟨found, hcanon⟩
  | none =>
      obtain ⟨above, name, hcomps, -, hpath⟩ | ⟨hpath, hbare⟩ := normalizePath_cases hcanon
      · rw [hpath] at hplace
        obtain ⟨dir', habove, rfl⟩ := PathBuf.push_eq_ofLocation hplace
        obtain ⟨front, names, dir, hsplit, hdir, rfl⟩ := parts_of_normalizeRev habove
        rw [List.reverse_reverse] at hsplit
        refine .inr ⟨hreal.no_nul, front, names ++ [name], dir, ?_, by simp, hdir, ?_⟩
        · rw [hcomps, hsplit, List.map_append, List.append_assoc]
          rfl
        · rw [← List.append_assoc]
          exact hlinks
      · rw [hpath] at hplace
        obtain ⟨hroot, hcomps⟩ := PathBuf.mk.inj hplace
        have hroot : isAbsolute (osBytes path) = true := hroot
        have hcomps : (PathBuf.ofBytes (osBytes path)).comps = location.map .normal := hcomps
        rcases List.eq_nil_or_concat' location with rfl | ⟨above, name, rfl⟩
        · rw [canonicalize_of_no_comps hroot hreal.no_nul hcomps] at hcanon
          cases hcanon
        · rw [List.map_append] at hcomps
          exact absurd (.inl hroot) (hbare _ name hcomps)

theorem normalizePath_place_or_same (hnone : fs.canonicalize cwd (osBytes path) = none) :
    (∃ place, fs.normalizePath cwd path = .ofLocation place) ∨ fs.normalizePath cwd path = .ofBytes (osBytes path) := by
  obtain ⟨above, name, hcomps, -, hpath⟩ | ⟨hpath, -⟩ := normalizePath_cases hnone
  · rw [hpath]
    rcases normalizeRev_place_or_same above.reverse with ⟨place, hplace⟩ | hsame
    · exact .inl ⟨place ++ [name], by rw [hplace, PathBuf.push_ofLocation]⟩
    · right
      rw [hsame, List.reverse_reverse, PathBuf.push, ← hcomps]
      rfl
  · exact .inr hpath

theorem Unplaced.same (h : fs.Unplaced cwd path) : fs.normalizePath cwd path = .ofBytes (osBytes path) := by
  have hnone : fs.canonicalize cwd (osBytes path) = none := by
    rw [Option.eq_none_iff_forall_ne_some]
    exact fun found hfound => h.nowhere found (realLocation_of_canonicalize hfound)
  obtain ⟨above, name, hcomps, -, hpath⟩ | ⟨hpath, -⟩ := normalizePath_cases hnone
  · rcases normalizePath_place_or_same hnone with ⟨place, hplace⟩ | hsame
    · rw [hpath] at hplace
      obtain ⟨other, hother, -⟩ := PathBuf.push_eq_ofLocation hplace
      obtain ⟨front, names, dir, hsplit, hdir, -⟩ := parts_of_normalizeRev hother
      rw [List.reverse_reverse] at hsplit
      have hnames : (PathBuf.ofBytes (osBytes path)).comps = front ++ (names ++ [name]).map PathComp.normal := by
        rw [hcomps, hsplit, List.map_append, List.append_assoc]
        rfl
      rw [h.relative, h.apart front _ hnames (by simp)] at hdir
      cases hdir
    · exact hsame
  · exact hpath

theorem Unplaced.not_overlaps (h : fs.Unplaced cwd path) (place : Location) :
    ¬ (fs.normalizePath cwd path).Overlaps (.ofLocation place) := by
  rw [h.same]
  exact PathBuf.not_overlaps_of_relative h.relative h.nonempty place

theorem Unplaced.ne_ofLocation (h : fs.Unplaced cwd path) (place : Location) :
    fs.normalizePath cwd path ≠ .ofLocation place := by
  intro heq
  apply h.not_overlaps place
  rw [heq]
  exact PathBuf.overlaps_ofLocation.mpr (.inl List.prefix_rfl)

/-- What is not even compared with the root, and leads nowhere, is unplaced. -/
theorem unplaced_of_not_overlaps (hnowhere : ∀ location, ¬ fs.RealLocation cwd path location)
    (hover : ¬ (fs.normalizePath cwd path).Overlaps (.ofLocation [])) : fs.Unplaced cwd path := by
  have hnone : fs.canonicalize cwd (osBytes path) = none := by
    rw [Option.eq_none_iff_forall_ne_some]
    exact fun found hfound => hnowhere found (realLocation_of_canonicalize hfound)
  have hplace : ∀ place, fs.normalizePath cwd path ≠ .ofLocation place := by
    intro place heq
    apply hover
    rw [heq]
    exact PathBuf.overlaps_ofLocation.mpr (.inr List.nil_prefix)
  have hsame : fs.normalizePath cwd path = .ofBytes (osBytes path) := by
    rcases normalizePath_place_or_same hnone with ⟨place, heq⟩ | hsame
    · exact absurd heq (hplace place)
    · exact hsame
  rw [hsame, PathBuf.Overlaps, PathBuf.startsWith_iff, PathBuf.startsWith_iff] at hover
  have hrelative : isAbsolute (osBytes path) = false := by
    by_contra hroot
    have hroot : isAbsolute (osBytes path) = true := by simpa using hroot
    exact hover (.inl (.inr ⟨hroot, List.nil_prefix⟩))
  refine ⟨hrelative, ?_, hnowhere, ?_⟩
  · intro hcomps
    refine hover (.inr (.inl ?_))
    rw [← hrelative, ← hcomps]
    rfl
  · intro front names hcomps hnames
    rw [Option.eq_none_iff_forall_ne_some]
    intro dir hdir
    rw [← hrelative] at hdir
    obtain ⟨place, heq⟩ := place_of_names hcomps hnames hdir hnone
    exact hplace place heq

section Spelled

variable (cwd) (hnames : ∀ name ∈ location, IsName name ∧ IsClean name) (hlinks : fs.Linkless location)
include hnames hlinks

theorem realLocation_spelled : fs.RealLocation cwd (.raw (PathBuf.ofLocation location).bytes) location := by
  have hcomps : (PathBuf.ofBytes (osBytes (.raw (PathBuf.ofLocation location).bytes))).comps =
      [] ++ location.map PathComp.normal := congrArg PathBuf.comps (ofBytes_location hnames)
  cases location with
  | nil => exact realLocation_of_canonicalize canonicalize_slash
  | cons name rest =>
      have hnul : 0 ∉ osBytes (.raw (PathBuf.ofLocation (name :: rest)).bytes) := (spelled_location hnames).no_nul true
      exact realLocation_linkless hcomps nofun canonicalize_slash hnul hlinks

theorem plain_spelled (hcwd : fs.Reached cwd) : fs.Plain cwd (.raw (PathBuf.ofLocation location).bytes) :=
  plain_of_placed hcwd (realLocation_spelled cwd hnames hlinks) (normalizePath_location cwd hnames hlinks)

end Spelled

end HostFs

end Silo.Shell
