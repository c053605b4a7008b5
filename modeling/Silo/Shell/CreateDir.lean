import Silo.Shell.Spelling

namespace Silo.Shell

namespace HostFs

variable (fs : HostFs) (cwd : Location)

def add (location : Location) (node : HostNode) : HostFs :=
  ⟨fun other => if other = location then some node else fs.node other⟩

def isDir (path : PathBuf) : Bool :=
  match fs.canonicalize cwd path.bytes with
  | some location => location = [] || match fs.node location with
    | some (.dir _) => true
    | _ => false
  | none => false

-- Where the host does not let something be made or opened, for a reason that is not in the tree.
variable (refuses : Location → Bool)

/-- `mkdir` of the path with these components, the last one first. A link in the way is not
followed. -/
def mkdir (root : Bool) : List PathComp → Option HostFs
  | .normal name :: rest =>
    match fs.walk maxLinks (startOf cwd root) (rest.reverse.map PathBuf.compBytes) with
    | some dir =>
      let location := dir ++ [name]
      if fs.searchable dir && (fs.node location).isNone && !refuses location then some (fs.add location (.dir true))
      else none
    | none => none
  | _ => none

/-- `std::fs::create_dir_all`; when it fails, with the directories that were made before.
Whatever keeps a path from leading anywhere, its parent is tried; what is not merely missing
fails there. -/
def createDirAll (root : Bool) : List PathComp → Except HostFs HostFs
  | [] => .ok fs
  | comp :: rest =>
    match fs.mkdir cwd refuses root (comp :: rest) with
    | some made => .ok made
    | none =>
      if fs.isDir cwd ⟨root, (comp :: rest).reverse⟩ then .ok fs
      else
        match createDirAll root rest with
        | .error above => .error above
        | .ok above =>
          match above.mkdir cwd refuses root (comp :: rest) with
          | some made => .ok made
          | none => if above.isDir cwd ⟨root, (comp :: rest).reverse⟩ then .ok above else .error above

variable {fs cwd refuses} {root : Bool}

theorem extends_add {location : Location} {node : HostNode}
    (h : fs.node location = none ∨ fs.node location = some node) (hlink : ∀ target, node ≠ .link target) :
    fs.Extends (fs.add location node) where
  keeps := by
    intro other found hfound
    by_cases heq : other = location
    · subst other
      rcases h with h | h <;> rw [h] at hfound
      · cases hfound
      · simpa [add] using hfound
    · simpa [add, heq] using hfound
  links := by
    intro other target hfound
    by_cases heq : other = location
    · have hnode : some node = some (.link target) := by simpa [add, heq] using hfound
      exact absurd (Option.some.inj hnode) (hlink target)
    · simpa [add, heq] using hfound

/-- The pieces that components are written as, the last one first. -/
abbrev written (comps : List PathComp) : List OsBytes := comps.reverse.map PathBuf.compBytes

theorem written_cons (comp : PathComp) (rest : List PathComp) :
    written (comp :: rest) = written rest ++ [PathBuf.compBytes comp] := by
  simp [written]

theorem mkdir_cases {comp : PathComp} {rest : List PathComp} {made : HostFs}
    (h : fs.mkdir cwd refuses root (comp :: rest) = some made) :
    ∃ name dir, comp = .normal name ∧ fs.Resolves Arrives maxLinks (startOf cwd root) (written rest) dir ∧
      fs.searchable dir = true ∧ fs.node (dir ++ [name]) = none ∧ made = fs.add (dir ++ [name]) (.dir true) := by
  cases comp with
  | current | parent => cases h
  | normal name =>
      rw [mkdir] at h
      split at h
      · rename_i dir hdir
        dsimp only at h
        split at h
        · rename_i hcan
          cases h
          simp only [Bool.and_eq_true, Option.isNone_iff_eq_none] at hcan
          exact ⟨name, dir, rfl, resolves_of_walk hdir, hcan.1.1, hcan.1.2, rfl⟩
        · cases h
      · cases h

theorem mkdir_extends {comps : List PathComp} {made : HostFs} (h : fs.mkdir cwd refuses root comps = some made) :
    fs.Extends made := by
  cases comps with
  | nil => cases h
  | cons comp rest =>
      obtain ⟨name, dir, -, -, -, hnone, rfl⟩ := mkdir_cases h
      exact extends_add (.inl hnone) nofun

/-- What `create_dir_all` did: the directory was there, or was made, or was found or made once
its parent had been. -/
theorem createDirAll_cases {comp : PathComp} {rest : List PathComp} {made : HostFs}
    (h : fs.createDirAll cwd refuses root (comp :: rest) = .ok made) :
    fs.mkdir cwd refuses root (comp :: rest) = some made ∨
      (fs.isDir cwd ⟨root, (comp :: rest).reverse⟩ = true ∧ made = fs) ∨
      ∃ above, fs.createDirAll cwd refuses root rest = .ok above ∧
        (above.mkdir cwd refuses root (comp :: rest) = some made ∨
          (above.isDir cwd ⟨root, (comp :: rest).reverse⟩ = true ∧ made = above)) := by
  rw [createDirAll] at h
  split at h
  · rename_i hmade
    cases h
    exact .inl hmade
  split at h
  · cases h
    exact .inr (.inl ⟨‹_›, rfl⟩)
  split at h
  · cases h
  rename_i above habove
  refine .inr (.inr ⟨above, habove, ?_⟩)
  split at h
  · rename_i hmade
    cases h
    exact .inl hmade
  · split at h
    · cases h
      exact .inr ⟨‹_›, rfl⟩
    · cases h

theorem createDirAll_extends {comps : List PathComp} {made : HostFs}
    (h : fs.createDirAll cwd refuses root comps = .ok made) : fs.Extends made := by
  induction comps generalizing made with
  | nil =>
      cases h
      exact Extends.refl _
  | cons comp rest ih =>
      obtain hmade | ⟨-, rfl⟩ | ⟨above, habove, hmade | ⟨-, rfl⟩⟩ := createDirAll_cases h
      · exact mkdir_extends hmade
      · exact Extends.refl _
      · exact (ih habove).trans (mkdir_extends hmade)
      · exact ih habove

theorem length_le_of_arrives {more : List OsBytes} (location : Location) (rest : List OsBytes) (found : Location)
    (h : Arrives location rest found) : rest.length ≤ more.length := by
  rw [h.1]
  exact Nat.zero_le _

/-- A path with one component more leads somewhere only through the directory above. -/
theorem resolves_written_cons {comp : PathComp} {rest : List PathComp} {found : Location}
    (h : fs.Resolves Arrives maxLinks (startOf cwd root) (written (comp :: rest)) found) :
    ∃ dir fewer, fs.Resolves Arrives maxLinks (startOf cwd root) (written rest) dir ∧
      fs.Resolves Arrives fewer dir [PathBuf.compBytes comp] found := by
  obtain ⟨dir, fewer, -, hdir, hlast⟩ := h.split (written rest) length_le_of_arrives (written_cons comp rest)
  exact ⟨dir, fewer, hdir, hlast⟩

theorem isDir_resolves {comps : List PathComp} (hs : PathBuf.Spelled comps)
    (h : fs.isDir cwd ⟨root, comps.reverse⟩ = true) :
    ∃ found, fs.Resolves Arrives maxLinks (startOf cwd root) (written comps) found := by
  rw [isDir] at h
  split at h
  · rename_i found hfound
    have hs' : PathBuf.Spelled comps.reverse := fun comp hcomp => hs comp (List.mem_reverse.mp hcomp)
    exact ⟨found, ((canonicalize_bytes hs' root).mp hfound).2⟩
  · cases h

theorem createDirAll_of_resolves {comps : List PathComp} (hs : PathBuf.Spelled comps) {made : HostFs}
    (h : fs.createDirAll cwd refuses root comps = .ok made) {found : Location}
    (hfound : fs.Resolves Arrives maxLinks (startOf cwd root) (written comps) found) : made = fs := by
  induction comps generalizing made found with
  | nil =>
      cases h
      rfl
  | cons comp rest ih =>
      obtain ⟨dir, fewer, hdir, hlast⟩ := resolves_written_cons hfound
      have hmkdir : ∀ made, fs.mkdir cwd refuses root (comp :: rest) ≠ some made := by
        intro made hmade
        obtain ⟨name, other, rfl, hother, -, hnone, -⟩ := mkdir_cases hmade
        obtain rfl := hdir.unique hother
        exact (hlast.node_of_last ((hs _ List.mem_cons_self).2 name rfl)).1 hnone
      obtain hmade | ⟨-, rfl⟩ | ⟨above, habove, hmade | ⟨-, rfl⟩⟩ := createDirAll_cases h
      · exact absurd hmade (hmkdir made)
      · rfl
      · obtain rfl := ih (fun other hother => hs other (List.mem_cons_of_mem _ hother)) habove hdir
        exact absurd hmade (hmkdir made)
      · exact ih (fun other hother => hs other (List.mem_cons_of_mem _ hother)) habove hdir

/-- Nor is anything made where the parent is there and the directory cannot be made. -/
theorem createDirAll_error_of_resolves {comp : PathComp} {rest : List PathComp}
    (hs : PathBuf.Spelled (comp :: rest)) {made : HostFs}
    (h : fs.createDirAll cwd refuses root (comp :: rest) = .error made) {found : Location}
    (hfound : fs.Resolves Arrives maxLinks (startOf cwd root) (written rest) found) : made = fs := by
  induction rest generalizing comp made found with
  | nil =>
      rw [createDirAll, createDirAll] at h
      split at h
      · cases h
      split at h
      · cases h
      · dsimp only at h
        split at h
        · cases h
        · split at h <;> cases h
          rfl
  | cons next rest ih =>
      have hrest : PathBuf.Spelled (next :: rest) := fun other hother => hs other (List.mem_cons_of_mem _ hother)
      rw [createDirAll] at h
      split at h
      · cases h
      split at h
      · cases h
      split at h
      · rename_i above habove
        cases h
        obtain ⟨dir, fewer, hdir, -⟩ := resolves_written_cons hfound
        exact ih hrest habove hdir
      · rename_i above habove
        obtain rfl := createDirAll_of_resolves hrest habove hfound
        split at h
        · cases h
        · split at h <;> cases h
          rfl

end HostFs

namespace PathBuf

theorem ofLocation_injective {a b : Location} (h : ofLocation a = ofLocation b) : a = b := by
  have hcomps : a.map PathComp.normal = b.map PathComp.normal := congrArg comps h
  exact List.map_injective_iff.mpr (fun _ _ h => PathComp.normal.inj h) hcomps

theorem push_ofLocation (location : Location) (name : OsBytes) :
    (ofLocation location).push name = ofLocation (location ++ [name]) := by
  simp [ofLocation, push]

theorem push_eq_ofLocation {p : PathBuf} {name : OsBytes} {location : Location}
    (h : p.push name = ofLocation location) : ∃ above, p = ofLocation above ∧ location = above ++ [name] := by
  obtain ⟨root, comps⟩ := p
  simp only [push, ofLocation, mk.injEq] at h
  obtain ⟨rfl, hcomps⟩ := h
  obtain ⟨above, last, rfl, rfl, hlast⟩ := List.map_eq_append_iff.mp hcomps.symm
  obtain ⟨other, rest, rfl, hother, hrest⟩ := List.map_eq_cons_iff.mp hlast
  obtain rfl := List.map_eq_nil_iff.mp hrest
  cases hother
  exact ⟨above, rfl, rfl⟩

theorem mem_of_eq_ofLocation {root : Bool} {comps : List PathComp} {location : Location}
    (h : (⟨root, comps⟩ : PathBuf) = ofLocation location) : root = true ∧ ∀ comp ∈ comps, ∃ name, comp = .normal name := by
  simp only [ofLocation, mk.injEq] at h
  obtain ⟨rfl, rfl⟩ := h
  refine ⟨rfl, fun comp hcomp => ?_⟩
  obtain ⟨name, -, rfl⟩ := List.mem_map.mp hcomp
  exact ⟨name, rfl⟩

end PathBuf

namespace HostFs

variable {fs : HostFs} {cwd : Location} {refuses : Location → Bool} {root : Bool}

theorem canonicalize_written {comps : List PathComp} (hs : PathBuf.Spelled comps) {found : Location} :
    fs.canonicalize cwd (PathBuf.bytes ⟨root, comps.reverse⟩) = some found ↔
      (root = true ∨ comps ≠ []) ∧ fs.Resolves Arrives maxLinks (startOf cwd root) (written comps) found := by
  rw [canonicalize_bytes (fun comp hcomp => hs comp (List.mem_reverse.mp hcomp)) root, Ne, List.reverse_eq_nil_iff]

variable (fs cwd root) in
theorem normalizeRev_cases {comps : List PathComp} (hs : PathBuf.Spelled comps) :
    (∃ found, (root = true ∨ comps ≠ []) ∧ fs.Resolves Arrives maxLinks (startOf cwd root) (written comps) found ∧
        fs.normalizeRev cwd root comps = .ofLocation found) ∨
      (∀ found, (root = true ∨ comps ≠ []) → ¬ fs.Resolves Arrives maxLinks (startOf cwd root) (written comps) found) ∧
        ((∃ name rest, comps = .normal name :: rest ∧ (root = true ∨ rest ≠ []) ∧
            fs.normalizeRev cwd root comps = (fs.normalizeRev cwd root rest).push name) ∨
          fs.normalizeRev cwd root comps = ⟨root, comps.reverse⟩ ∧
            (root = true → ∃ comp ∈ comps, ∀ name, comp ≠ .normal name)) := by
  cases hcanon : fs.canonicalize cwd (PathBuf.bytes ⟨root, comps.reverse⟩) with
  | some found =>
      obtain ⟨hne, hfound⟩ := (canonicalize_written hs).mp hcanon
      refine .inl ⟨found, hne, hfound, ?_⟩
      cases comps with
      | nil => rw [normalizeRev, show (⟨root, []⟩ : PathBuf) = ⟨root, [].reverse⟩ from rfl, hcanon]
      | cons comp rest => cases comp <;> simp only [normalizeRev, hcanon]
  | none =>
      refine .inr ⟨fun found hne hfound => ?_, ?_⟩
      · rw [(canonicalize_written hs).mpr ⟨hne, hfound⟩] at hcanon
        cases hcanon
      cases comps with
      | nil =>
          refine .inr ⟨?_, ?_⟩
          · rw [normalizeRev, show (⟨root, []⟩ : PathBuf) = ⟨root, [].reverse⟩ from rfl, hcanon]
          · rintro rfl
            have hroot : fs.canonicalize cwd (PathBuf.bytes ⟨true, ([] : List PathComp).reverse⟩) = some [] :=
              (canonicalize_written hs).mpr ⟨.inl rfl, .done ⟨rfl, rfl⟩⟩
            rw [hcanon] at hroot
            cases hroot
      | cons comp rest =>
          cases comp with
          | current | parent =>
              rw [normalizeRev, hcanon]
              · exact .inr ⟨rfl, fun _ => ⟨_, List.mem_cons_self, by rintro _ ⟨⟩⟩⟩
              · rintro _ ⟨⟩
          | normal name =>
              rw [normalizeRev, hcanon]
              by_cases hrest : root = true ∨ rest ≠ []
              · refine .inl ⟨name, rest, rfl, hrest, ?_⟩
                simp only
                rw [if_pos (by simpa using hrest)]
              · simp only [not_or, Bool.not_eq_true, ne_eq, not_not] at hrest
                obtain ⟨rfl, rfl⟩ := hrest
                exact .inr ⟨rfl, by rintro ⟨⟩⟩

def Rooted (fs : HostFs) : Prop :=
  ∀ location name, fs.node (location ++ [name]) ≠ none → location = [] ∨ ∃ search, fs.node location = some (.dir search)

theorem Rooted.none_below (h : fs.Rooted) {location : Location} (hne : location ≠ []) (hnone : fs.node location = none)
    (name : OsBytes) : fs.node (location ++ [name]) = none := by
  by_contra hsome
  obtain hnil | ⟨search, hdir⟩ := h location name hsome
  · exact hne hnil
  · rw [hdir] at hnone
    cases hnone

theorem resolves_add_dir {comps : List PathComp} {name : OsBytes} {dir : Location}
    (h : fs.Resolves Arrives maxLinks (startOf cwd root) (written comps) dir) (hname : IsName name)
    (hsearch : fs.searchable dir = true) (hnone : fs.node (dir ++ [name]) = none) :
    (fs.add (dir ++ [name]) (.dir true)).Resolves Arrives maxLinks (startOf cwd root)
      (written (.normal name :: comps)) (dir ++ [name]) := by
  have hext : fs.Extends (fs.add (dir ++ [name]) (.dir true)) := extends_add (.inl hnone) nofun
  have hlast : (fs.add (dir ++ [name]) (.dir true)).Resolves Arrives 0 dir [name] (dir ++ [name]) :=
    .down (hext.searchable hsearch) hname ⟨.dir true, by simp [add], nofun⟩ (.done ⟨rfl, rfl⟩)
  rw [written_cons]
  exact (h.extend hext).append hlast

theorem normalizeRev_of_resolves {comps : List PathComp} (hs : PathBuf.Spelled comps) (hne : root = true ∨ comps ≠ [])
    {found : Location} (h : fs.Resolves Arrives maxLinks (startOf cwd root) (written comps) found) :
    fs.normalizeRev cwd root comps = .ofLocation found := by
  obtain ⟨other, -, hother, heq⟩ | ⟨hno, -⟩ := normalizeRev_cases fs cwd root hs
  · rw [heq, h.unique hother]
  · exact absurd h (hno found hne)

theorem add_node_of_ne {location other : Location} {node : HostNode} (h : other ≠ location) :
    (fs.add location node).node other = fs.node other :=
  if_neg h

/-- What `create_dir_all` and the normalised path of a directory have to do with each other. -/
structure Placed (fs made : HostFs) (cwd : Location) (root : Bool) (comps : List PathComp) (place : Location) :
    Prop where
  resolves : made.Resolves Arrives maxLinks (startOf cwd root) (written comps) place
  frame : ∀ location, made.node location = fs.node location ∨ location <+: place
  fresh : (∀ found, ¬ fs.Resolves Arrives maxLinks (startOf cwd root) (written comps) found) →
    place ≠ [] ∧ fs.node place = none

theorem Placed.none_below {made : HostFs} {comps : List PathComp} {place : Location}
    (h : fs.Placed made cwd root comps place) (hrooted : fs.Rooted) (hne : place ≠ []) (hnone : fs.node place = none) (name : OsBytes) :
    made.node (place ++ [name]) = none := by
  rcases h.frame (place ++ [name]) with hsame | hp
  · rw [hsame, hrooted.none_below hne hnone]
  · have hlength := hp.length_le
    rw [List.length_append, List.length_singleton] at hlength
    omega

theorem placed_of_mkdir {middle made : HostFs} {name : OsBytes} {rest : List PathComp} {above : Location}
    (hname : IsName name) (hext : fs.Extends middle)
    (habove : middle.Resolves Arrives maxLinks (startOf cwd root) (written rest) above)
    (hframe : ∀ location, middle.node location = fs.node location ∨ location <+: above)
    (h : middle.mkdir cwd refuses root (.normal name :: rest) = some made) :
    fs.Placed made cwd root (.normal name :: rest) (above ++ [name]) := by
  obtain ⟨other, dir, hother, hdir, hsearch, hnone, rfl⟩ := mkdir_cases h
  cases hother
  obtain rfl := habove.unique hdir
  refine ⟨resolves_add_dir habove hname hsearch hnone, fun location => ?_, fun _ => ⟨by simp, ?_⟩⟩
  · by_cases heq : location = above ++ [name]
    · exact .inr (heq ▸ List.prefix_rfl)
    · rw [add_node_of_ne heq]
      exact (hframe location).imp_right fun hp => hp.trans (List.prefix_append _ _)
  · cases hnode : fs.node (above ++ [name]) with
    | none => rfl
    | some node =>
        rw [hext.keeps hnode] at hnone
        cases hnone

/-- A name that was missing from a missing directory is missing still when the directory is made. -/
theorem not_resolves_of_placed (hrooted : fs.Rooted) {middle : HostFs} {name : OsBytes} {rest : List PathComp}
    {above : Location} (hs : PathBuf.Spelled (.normal name :: rest))
    (hmiddle : fs.createDirAll cwd refuses root rest = .ok middle) (hplaced : fs.Placed middle cwd root rest above)
    (hno : ∀ found, ¬ fs.Resolves Arrives maxLinks (startOf cwd root) (written (.normal name :: rest)) found)
    (found : Location) :
    ¬ middle.Resolves Arrives maxLinks (startOf cwd root) (written (.normal name :: rest)) found := by
  intro hfound
  have hrest : PathBuf.Spelled rest := fun other hother => hs other (List.mem_cons_of_mem _ hother)
  by_cases hold : ∃ dir, fs.Resolves Arrives maxLinks (startOf cwd root) (written rest) dir
  · obtain ⟨dir, hdir⟩ := hold
    obtain rfl := createDirAll_of_resolves hrest hmiddle hdir
    exact hno found hfound
  · obtain ⟨hne, hnone⟩ := hplaced.fresh (not_exists.mp hold)
    obtain ⟨dir, fewer, hdir, hlast⟩ := resolves_written_cons hfound
    obtain rfl := hplaced.resolves.unique hdir
    exact (hlast.node_of_last ((hs _ List.mem_cons_self).2 name rfl)).1 (hplaced.none_below hrooted hne hnone name)

/-- A directory that has a place by its normalised path is there after `create_dir_all`, and
nothing but it and what is above it is new. -/
theorem createDirAll_place (hrooted : fs.Rooted) {comps : List PathComp} (hs : PathBuf.Spelled comps) {made : HostFs}
    (h : fs.createDirAll cwd refuses root comps = .ok made) {place : Location}
    (hplace : fs.normalizeRev cwd root comps = .ofLocation place) :
    fs.Placed made cwd root comps place := by
  induction comps generalizing made place with
  | nil =>
      cases h
      obtain ⟨found, -, hfound, heq⟩ | ⟨hno, ⟨name, rest, hcons, -⟩ | ⟨heq, -⟩⟩ := 
        normalizeRev_cases fs cwd root hs
      · rw [hplace] at heq
        obtain rfl := PathBuf.ofLocation_injective heq
        exact ⟨hfound, fun _ => .inl rfl, fun hno => absurd hfound (hno _)⟩
      · cases hcons
      · rw [hplace] at heq
        obtain ⟨rfl, -⟩ := PathBuf.mem_of_eq_ofLocation heq.symm
        exact absurd (.done ⟨rfl, rfl⟩) (hno [] (.inl rfl))
  | cons comp rest ih =>
      have hrest : PathBuf.Spelled rest := fun other hother => hs other (List.mem_cons_of_mem _ hother)
      obtain ⟨found, -, hfound, heq⟩ | ⟨hno, ⟨name, rest', hcons, hne, heq⟩ | ⟨heq, hodd⟩⟩ := 
        normalizeRev_cases fs cwd root hs
      · rw [hplace] at heq
        obtain rfl := PathBuf.ofLocation_injective heq
        obtain rfl := createDirAll_of_resolves hs h hfound
        exact ⟨hfound, fun _ => .inl rfl, fun hno => absurd hfound (hno _)⟩
      · cases hcons
        have hname : IsName name := (hs _ List.mem_cons_self).2 name rfl
        rw [hplace] at heq
        obtain ⟨above, habove, rfl⟩ := PathBuf.push_eq_ofLocation heq.symm
        have hno : ∀ found, ¬ fs.Resolves Arrives maxLinks (startOf cwd root) (written (.normal name :: rest)) found :=
          fun found => hno found (.inr (List.cons_ne_nil _ _))
        obtain hmade | ⟨hdir, -⟩ | ⟨middle, hmiddle, hmade⟩ := createDirAll_cases h
        · obtain ⟨other, dir, hother, hdir, -⟩ := mkdir_cases hmade
          have hsame := normalizeRev_of_resolves hrest hne hdir
          rw [habove] at hsame
          obtain rfl := PathBuf.ofLocation_injective hsame
          exact placed_of_mkdir hname (Extends.refl fs) hdir (fun _ => .inl rfl) hmade
        · obtain ⟨found, hfound⟩ := isDir_resolves hs hdir
          exact absurd hfound (hno found)
        · have hplaced := ih hrest hmiddle habove
          rcases hmade with hmade | ⟨hdir, rfl⟩
          · exact placed_of_mkdir hname (createDirAll_extends hmiddle) hplaced.resolves hplaced.frame hmade
          · obtain ⟨found, hfound⟩ := isDir_resolves hs hdir
            exact absurd hfound (not_resolves_of_placed hrooted hs hmiddle hplaced hno found)
      · rw [hplace] at heq
        obtain ⟨hroot, hall⟩ := PathBuf.mem_of_eq_ofLocation heq.symm
        obtain ⟨odd, hmem, hnot⟩ := hodd hroot
        obtain ⟨name, rfl⟩ := hall odd (List.mem_reverse.mpr hmem)
        exact absurd rfl (hnot name)

end HostFs

end Silo.Shell
