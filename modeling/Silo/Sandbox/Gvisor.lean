import Silo.Lib.Utf8
import Silo.Shell.JournalGuard

namespace Silo.Sandbox

open Silo.Lib Silo.Shell Silo.Shell.HostFs

namespace Gvisor

def workspaceDest : String := "/workspace"
def scratchDest : String := "/scratch"
def helperDest : String := "/scratch/bin/silo-helper"
def helperConnect : String := "unix:/scratch/helper.sock"
def proxySocketDest : String := "/scratch/proxy.sock"
def inSandboxProxyPort : Nat := 3128
def sandboxPath : String := "/usr/local/bin:/usr/bin:/bin:/usr/sbin:/sbin"

/-- Inputs for one configuration. The paths are absolute and normalised. -/
structure GvisorSpec where
  workspace : Location
  scratch : Location
  readAllowlist : List Location
  osDirs : List Location
  env : List (String × String)

structure Mount where
  destination : String
  type : String
  source : String
  options : List String
  deriving DecidableEq, Repr

structure OciConfig where
  args : List String
  env : List String
  cwd : String
  rootReadonly : Bool
  mounts : List Mount

/-- `path.display().to_string()`. -/
def display (bytes : OsBytes) : String := String.ofList (Utf8.lossy bytes)

def displayLocation (location : Location) : String := display (PathBuf.ofLocation location).bytes

def roBind (source : Location) (destination : String) : Mount :=
  ⟨destination, "bind", displayLocation source, ["bind", "ro", "nosuid", "nodev"]⟩

def rwBind (source : Location) (destination : String) : Mount :=
  ⟨destination, "bind", displayLocation source, ["bind", "rw", "nosuid", "nodev"]⟩

def specialMounts : List Mount :=
  [⟨"/proc", "proc", "proc", []⟩,
    ⟨"/dev", "tmpfs", "tmpfs", ["nosuid", "strictatime", "mode=755", "size=65536k"]⟩,
    ⟨"/dev/pts", "devpts", "devpts", ["nosuid", "noexec", "newinstance", "ptmxmode=0666", "mode=0620"]⟩,
    ⟨"/dev/shm", "tmpfs", "shm", ["nosuid", "noexec", "nodev", "mode=1777", "size=65536k"]⟩,
    ⟨"/tmp", "tmpfs", "tmpfs", ["nosuid", "nodev", "mode=1777"]⟩]

def generateConfig (spec : GvisorSpec) : OciConfig where
  args := [helperDest, helperConnect]
  env := spec.env.map fun (name, value) => name ++ "=" ++ value
  cwd := workspaceDest
  rootReadonly := true
  mounts := specialMounts ++ spec.osDirs.map (fun dir => roBind dir (displayLocation dir)) ++
    spec.readAllowlist.map (fun dir => roBind dir (displayLocation dir)) ++
    [rwBind spec.workspace workspaceDest, rwBind spec.scratch scratchDest,
      rwBind spec.scratch (displayLocation spec.scratch)]

inductive Backing
  | kernel
  | host (path : PathBuf) (writable : Bool)
  deriving DecidableEq, Repr

def Mount.place (m : Mount) : PathBuf := .ofBytes (Utf8.encode m.destination.toList)

def Mount.backing (m : Mount) (p : Location) : Backing :=
  if m.type = "bind" then
    let source := PathBuf.ofBytes (Utf8.encode m.source.toList)
    .host ⟨source.root, source.comps ++ (p.drop m.place.comps.length).map .normal⟩ (m.options.contains "rw")
  else .kernel

/-- A mount covers what is at or below its destination. -/
def overlay (p : Location) (below : Option Backing) (m : Mount) : Option Backing :=
  if (PathBuf.ofLocation p).startsWith m.place then some (m.backing p) else below

/-- The last mount whose destination the path begins with says what is behind it. -/
def backing (mounts : List Mount) (p : Location) : Option Backing := mounts.foldl (overlay p) none

def Normal (location : Location) : Prop := ∀ name ∈ location, IsName name ∧ IsClean name

def workspaceMount : Location := [Utf8.encode "workspace".toList]

def scratchMount : Location := [Utf8.encode "scratch".toList]

def shown (location : Location) : Location := location.map fun name => Utf8.encode (Utf8.lossy name)

section Text

theorem encode_lossy_slash (rest : OsBytes) : Utf8.encode (Utf8.lossy (slash :: rest)) = slash :: Utf8.encode (Utf8.lossy rest) :=
  congrArg Utf8.encode (Utf8.lossy_encode_append ['/'] rest)

/-- A slash is never part of what is shown as a replacement character. -/
theorem encode_lossy_intercalate (location : Location) :
    Utf8.encode (Utf8.lossy ([slash].intercalate location)) = [slash].intercalate (shown location) := by
  induction location with
  | nil => simp [shown, Utf8.lossy]
  | cons name rest ih =>
      cases rest with
      | nil => simp [shown]
      | cons other rest =>
          rw [shown] at ih ⊢
          rw [List.map_cons] at ih ⊢
          rw [List.map_cons, List.intercalate_cons_cons, List.intercalate_cons_cons, ← ih, List.append_assoc,
            List.singleton_append, Utf8.lossy_append name (by decide), Utf8.encode_append, encode_lossy_slash,
            List.append_assoc, List.singleton_append]

theorem encode_displayLocation (location : Location) :
    Utf8.encode (displayLocation location).toList = (PathBuf.ofLocation (shown location)).bytes := by
  have hbytes (l : Location) : (PathBuf.ofLocation l).bytes = slash :: [slash].intercalate l := by
    simp [PathBuf.ofLocation, PathBuf.bytes, Function.comp_def, PathBuf.compBytes]
  rw [displayLocation, display, String.toList_ofList, hbytes, hbytes, encode_lossy_slash, encode_lossy_intercalate]

theorem normal_shown {location : Location} (h : Normal location) : Normal (shown location) := by
  intro shownName hname
  obtain ⟨name, hmem, rfl⟩ := List.mem_map.mp hname
  obtain ⟨⟨hnil, hdot, hup⟩, hslash, hnul⟩ := h name hmem
  have hsame (text : List Char) (htext : Utf8.replacement ∉ text)
      (h : Utf8.encode (Utf8.lossy name) = Utf8.encode text) : name = Utf8.encode text := by
    have hlossy := Utf8.encode_injective h
    rw [← hlossy] at htext
    rw [Utf8.eq_encode_of_lossy name htext, hlossy]
  refine ⟨⟨?_, ?_, ?_⟩, ?_, ?_⟩
  · exact fun h => hnil (hsame [] (by decide) h)
  · exact fun h => hdot (hsame ['.'] (by decide) h)
  · exact fun h => hup (hsame ['.', '.'] (by decide) h)
  · exact fun h => hslash (Utf8.mem_of_mem_lossy (by decide) h)
  · exact fun h => hnul (Utf8.mem_of_mem_lossy (by decide) h)

/-- The text of a location is that of the location with its names as they are shown. -/
theorem ofBytes_displayLocation {location : Location} (h : Normal location) :
    PathBuf.ofBytes (Utf8.encode (displayLocation location).toList) = .ofLocation (shown location) := by
  rw [encode_displayLocation]
  exact ofBytes_location (normal_shown h)

end Text

section View

variable {spec : GvisorSpec} {p : Location} {location source : Location} {mounts : List Mount}

/-- All paths of the spec are normalised. -/
structure GvisorSpec.Normalised (spec : GvisorSpec) : Prop where
  workspace : Normal spec.workspace
  scratch : Normal spec.scratch
  entries : ∀ entry ∈ spec.osDirs ++ spec.readAllowlist, Normal entry

theorem normal_singleton {name : OsBytes} (h : IsName name ∧ IsClean name) : Normal [name] := by
  intro other hother
  rwa [List.mem_singleton.mp hother]

theorem normal_workspaceMount : Normal workspaceMount :=
  normal_singleton ⟨⟨by decide, by decide, by decide⟩, by decide, by decide⟩

theorem normal_scratchMount : Normal scratchMount :=
  normal_singleton ⟨⟨by decide, by decide, by decide⟩, by decide, by decide⟩

theorem encode_workspaceDest : Utf8.encode workspaceDest.toList = (PathBuf.ofLocation workspaceMount).bytes := rfl

theorem encode_scratchDest : Utf8.encode scratchDest.toList = (PathBuf.ofLocation scratchMount).bytes := rfl

theorem overlay_bind {below : Option Backing} {m : Mount} {writable : Bool} (hm : m.type = "bind")
    (hplace : m.place = .ofLocation location) (hsource : Normal source) (htext : m.source = displayLocation source)
    (hwritable : m.options.contains "rw" = writable) :
    overlay p below m =
      if location <+: p then some (.host (.ofLocation (shown source ++ p.drop location.length)) writable) else below := by
  simp only [overlay, hplace, PathBuf.startsWith_ofLocation, Mount.backing, hm, if_true, htext,
    ofBytes_displayLocation hsource, hwritable]
  congr 3
  simp [PathBuf.ofLocation]

theorem append_drop (h : location <+: p) : location ++ p.drop location.length = p := by
  obtain ⟨rest, rfl⟩ := h
  rw [List.drop_left]

theorem overlay_own {below : Option Backing} {m : Mount} {writable : Bool} (hm : m.type = "bind")
    (hsource : Normal source) (hdest : m.destination = displayLocation source) (htext : m.source = displayLocation source)
    (hwritable : m.options.contains "rw" = writable) :
    overlay p below m = if shown source <+: p then some (.host (.ofLocation p) writable) else below := by
  have hplace : m.place = .ofLocation (shown source) := by
    rw [Mount.place, hdest, ofBytes_displayLocation hsource]
  rw [overlay_bind hm hplace hsource htext hwritable]
  split
  · rw [append_drop ‹_›]
  · rfl

theorem overlay_entry {below : Option Backing} (hsource : Normal source) :
    overlay p below (roBind source (displayLocation source)) =
      if shown source <+: p then some (.host (.ofLocation p) false) else below :=
  overlay_own rfl hsource rfl rfl rfl

theorem overlay_scratch {below : Option Backing} (hsource : Normal source) :
    overlay p below (rwBind source (displayLocation source)) =
      if shown source <+: p then some (.host (.ofLocation p) true) else below :=
  overlay_own rfl hsource rfl rfl rfl

theorem overlay_mount {below : Option Backing} {destination : String} (hsource : Normal source)
    (hlocation : Normal location) (hdest : Utf8.encode destination.toList = (PathBuf.ofLocation location).bytes) :
    overlay p below (rwBind source destination) =
      if location <+: p then some (.host (.ofLocation (shown source ++ p.drop location.length)) true) else below := by
  have hplace : (rwBind source destination).place = .ofLocation location := by
    rw [Mount.place, rwBind, hdest, ofBytes_location hlocation]
  exact overlay_bind rfl hplace hsource rfl rfl

theorem foldl_entries {entries : List Location} (h : ∀ entry ∈ entries, Normal entry) (below : Option Backing) :
    (entries.map fun dir => roBind dir (displayLocation dir)).foldl (overlay p) below =
      if ∃ entry ∈ entries, shown entry <+: p then some (.host (.ofLocation p) false) else below := by
  induction entries generalizing below with
  | nil => simp
  | cons entry entries ih =>
      obtain ⟨hentry, hentries⟩ := List.forall_mem_cons.mp h
      rw [List.map_cons, List.foldl_cons, overlay_entry hentry, ih hentries]
      by_cases hcovered : shown entry <+: p <;> simp [hcovered]

theorem backing_special : backing specialMounts p = none ∨ backing specialMounts p = some .kernel := by
  have hoverlay {below : Option Backing} {m : Mount} (hm : m.type ≠ "bind") (h : below = none ∨ below = some .kernel) :
      overlay p below m = none ∨ overlay p below m = some .kernel := by
    rw [overlay, Mount.backing, if_neg hm]
    split
    · exact .inr rfl
    · exact h
  simp only [backing, specialMounts, List.foldl_cons, List.foldl_nil]
  iterate 5 apply hoverlay (by decide)
  exact .inl rfl

theorem backing_config (h : spec.Normalised) (p : Location) : backing (generateConfig spec).mounts p =
    if shown spec.scratch <+: p then some (.host (.ofLocation p) true)
    else if scratchMount <+: p then some (.host (.ofLocation (shown spec.scratch ++ p.drop 1)) true)
    else if workspaceMount <+: p then some (.host (.ofLocation (shown spec.workspace ++ p.drop 1)) true)
    else if ∃ entry ∈ spec.osDirs ++ spec.readAllowlist, shown entry <+: p then some (.host (.ofLocation p) false)
    else backing specialMounts p := by
  rw [backing, generateConfig]
  simp only [List.append_assoc, List.foldl_append, List.foldl_cons, List.foldl_nil]
  rw [← List.foldl_append, ← List.map_append, overlay_scratch h.scratch,
    overlay_mount h.scratch normal_scratchMount encode_scratchDest,
    overlay_mount h.workspace normal_workspaceMount encode_workspaceDest, foldl_entries h.entries]
  rfl

/-- Writes stay in the workspace and the scratch space, what is to be readable is shown at
its own path, and the order of the allowlist does not count. -/
structure Confines (spec : GvisorSpec) : Prop where
  writes : ∀ p host, Normal p → backing (generateConfig spec).mounts p = some (.host host true) →
    host.startsWith (.ofLocation spec.workspace) = true ∨ host.startsWith (.ofLocation spec.scratch) = true
  reads : ∀ entry ∈ spec.osDirs ++ spec.readAllowlist, ∀ p, Normal p → entry <+: p → ¬ workspaceMount <+: p →
    ¬ scratchMount <+: p → ¬ spec.scratch <+: p →
    backing (generateConfig spec).mounts p = some (.host (.ofLocation p) false)
  order : ∀ allowlist, allowlist.Perm spec.readAllowlist → ∀ p,
    backing (generateConfig { spec with readAllowlist := allowlist }).mounts p = backing (generateConfig spec).mounts p

def Writable (spec : GvisorSpec) (p : Location) : Prop :=
  workspaceMount <+: p ∨ scratchMount <+: p ∨ spec.scratch <+: p

/-- The locations that the texts of the paths name are as good as the paths: those of the
scratch space and of the workspace, unless its mount is covered, lie in one of the two;
and of each entry, unless it is covered by a writable mount, the text of some entry shows
all, and the text of the scratch space none. -/
structure Legible (spec : GvisorSpec) : Prop where
  scratch : spec.workspace <+: shown spec.scratch ∨ spec.scratch <+: shown spec.scratch
  workspace : spec.workspace <+: shown spec.workspace ∨ spec.scratch <+: shown spec.workspace ∨
    shown spec.scratch <+: workspaceMount
  entries : ∀ entry ∈ spec.osDirs ++ spec.readAllowlist, Writable spec entry ∨
    (∃ other ∈ spec.osDirs ++ spec.readAllowlist, shown other <+: entry) ∧
      (Writable spec (shown spec.scratch) ∨ ¬ shown spec.scratch <+: entry ∧ ¬ entry <+: shown spec.scratch)

theorem not_scratch_prefix_workspace : ¬ scratchMount <+: workspaceMount := by decide

theorem backing_scratch (h : spec.Normalised) (hp : shown spec.scratch <+: p) :
    backing (generateConfig spec).mounts p = some (.host (.ofLocation p) true) := by
  rw [backing_config h, if_pos hp]

theorem legible_of_confines (h : spec.Normalised) (hconfines : Confines spec) : Legible spec where
  scratch := by
    have := hconfines.writes _ _ (normal_shown h.scratch) (backing_scratch h (List.prefix_refl _))
    rwa [PathBuf.startsWith_ofLocation, PathBuf.startsWith_ofLocation] at this
  workspace := by
    by_cases hcovered : shown spec.scratch <+: workspaceMount
    · exact .inr (.inr hcovered)
    · have hbacking : backing (generateConfig spec).mounts workspaceMount =
          some (.host (.ofLocation (shown spec.workspace)) true) := by
        rw [backing_config h, if_neg hcovered, if_neg not_scratch_prefix_workspace, if_pos (List.prefix_refl _)]
        exact congrArg (fun l => some (Backing.host (.ofLocation l) true)) (List.append_nil _)
      have := hconfines.writes _ _ normal_workspaceMount hbacking
      rw [PathBuf.startsWith_ofLocation, PathBuf.startsWith_ofLocation] at this
      exact this.imp_right .inl
  entries := by
    intro entry hentry
    by_cases hwritable : Writable spec entry
    · exact .inl hwritable
    · right
      have hout := hwritable
      simp only [Writable, not_or] at hout
      have hread := hconfines.reads entry hentry entry (h.entries entry hentry) (List.prefix_refl _) hout.1 hout.2.1
        hout.2.2
      have hnot : ¬ shown spec.scratch <+: entry := by
        intro hprefix
        rw [backing_scratch h hprefix] at hread
        cases hread
      constructor
      · by_contra hnone
        rw [backing_config h, if_neg hnot, if_neg hout.2.1, if_neg hout.1, if_neg hnone] at hread
        obtain hspecial | hspecial := @backing_special entry <;> rw [hspecial] at hread <;> cases hread
      · by_cases hshown : Writable spec (shown spec.scratch)
        · exact .inl hshown
        · refine .inr ⟨hnot, ?_⟩
          intro hbelow
          simp only [Writable, not_or] at hshown
          have hread := hconfines.reads entry hentry _ (normal_shown h.scratch) hbelow hshown.1 hshown.2.1 hshown.2.2
          rw [backing_scratch h (List.prefix_refl _)] at hread
          cases hread

theorem Writable.below {q : Location} (hp : Writable spec p) (hq : p <+: q) : Writable spec q :=
  hp.imp (fun h => h.trans hq) (Or.imp (fun h => h.trans hq) fun h => h.trans hq)

theorem confines_of_legible (h : spec.Normalised) (hlegible : Legible spec) : Confines spec where
  writes := by
    intro p host _ hbacking
    have hunder {q host : Location} (hq : spec.workspace <+: q ∨ spec.scratch <+: q) (hhost : q <+: host) :
        (PathBuf.ofLocation host).startsWith (.ofLocation spec.workspace) = true ∨
          (PathBuf.ofLocation host).startsWith (.ofLocation spec.scratch) = true := by
      rw [PathBuf.startsWith_ofLocation, PathBuf.startsWith_ofLocation]
      exact hq.imp (fun h => h.trans hhost) fun h => h.trans hhost
    rw [backing_config h] at hbacking
    split at hbacking
    · cases hbacking
      exact hunder hlegible.scratch ‹_›
    split at hbacking
    · cases hbacking
      exact hunder hlegible.scratch (List.prefix_append _ _)
    split at hbacking
    · cases hbacking
      obtain hworkspace | hworkspace | hcovered := hlegible.workspace
      · exact hunder (.inl hworkspace) (List.prefix_append _ _)
      · exact hunder (.inr hworkspace) (List.prefix_append _ _)
      · rename_i hfree _ hbelow
        exact absurd (hcovered.trans hbelow) hfree
    split at hbacking
    · cases hbacking
    · obtain hspecial | hspecial := @backing_special p <;> rw [hspecial] at hbacking <;> cases hbacking
  reads := by
    intro entry hentry p _ hbelow hworkspace hscratch hown
    have hnot : ¬ Writable spec p := by
      rintro (hp | hp | hp)
      · exact hworkspace hp
      · exact hscratch hp
      · exact hown hp
    obtain hwritable | ⟨⟨other, hother, hshows⟩, hclear⟩ := hlegible.entries entry hentry
    · exact absurd (hwritable.below hbelow) hnot
    · have hfree : ¬ shown spec.scratch <+: p := by
        intro hprefix
        obtain hshown | ⟨habove, hunder⟩ := hclear
        · exact hnot (hshown.below hprefix)
        · exact (List.prefix_or_prefix_of_prefix hprefix hbelow).elim habove hunder
      rw [backing_config h, if_neg hfree, if_neg hscratch, if_neg hworkspace,
        if_pos ⟨other, hother, hshows.trans hbelow⟩]
  order := by
    intro allowlist hperm p
    have hmem (entry : Location) : entry ∈ spec.osDirs ++ allowlist ↔ entry ∈ spec.osDirs ++ spec.readAllowlist := by
      rw [List.mem_append, List.mem_append, hperm.mem_iff]
    have h' : GvisorSpec.Normalised { spec with readAllowlist := allowlist } :=
      ⟨h.workspace, h.scratch, fun entry hentry => h.entries entry ((hmem entry).mp hentry)⟩
    rw [backing_config h, backing_config h']
    simp only [hmem]

theorem confines_iff (h : spec.Normalised) : Confines spec ↔ Legible spec :=
  ⟨legible_of_confines h, confines_of_legible h⟩

/-- Paths of texts are shown as they are, so that their mounts confine. -/
theorem confines_of_shown (h : spec.Normalised) (hworkspace : shown spec.workspace = spec.workspace)
    (hscratch : shown spec.scratch = spec.scratch)
    (hentries : ∀ entry ∈ spec.osDirs ++ spec.readAllowlist, shown entry = entry) : Confines spec := by
  apply confines_of_legible h
  refine ⟨.inr (by rw [hscratch]), .inl (by rw [hworkspace]), ?_⟩
  intro entry hentry
  refine .inr ⟨⟨entry, hentry, by rw [hentries entry hentry]⟩, .inl (.inr (.inr ?_))⟩
  rw [hscratch]

theorem normal_letter {location : Location} (h : ∀ name ∈ location, name = [0x77] ∨ name = [0x73] ∨ name = [0xff]) :
    Normal location := by
  intro name hname
  obtain rfl | rfl | rfl := h name hname <;> exact ⟨⟨by decide, by decide, by decide⟩, by decide, by decide⟩

/-- An allowlist around the workspace, with the scratch space inside. -/
def nestedSpec : GvisorSpec := ⟨[[0x77]], [[0x77], [0x73]], [[], [[0x77]]], [], []⟩

theorem confines_iff_nested : Confines nestedSpec ↔ Legible nestedSpec := by
  apply confines_iff
  refine ⟨normal_letter (by decide), normal_letter (by decide), ?_⟩
  intro entry hentry
  obtain rfl | rfl : entry = [] ∨ entry = [[0x77]] := by simpa [nestedSpec] using hentry
  · exact normal_letter (by decide)
  · exact normal_letter (by decide)

/-- A workspace whose name is not a text. -/
def illegibleSpec : GvisorSpec := ⟨[[0xff]], [[0x73]], [], [], []⟩

theorem not_confines_illegible : ¬ Confines illegibleSpec := by
  intro h
  have hnormal : illegibleSpec.Normalised :=
    ⟨normal_letter (by decide), normal_letter (by decide), fun entry hentry => by simp [illegibleSpec] at hentry⟩
  have hreplaced : shown illegibleSpec.workspace = [[0xef, 0xbf, 0xbd]] := by
    have hfirst : Utf8.first [0xff] = none := by decide
    simp [shown, illegibleSpec, Utf8.lossy, hfirst]
    decide
  have hletter : shown illegibleSpec.scratch = [[0x73]] := by
    simp [shown, illegibleSpec]
    exact congrArg Utf8.encode (Utf8.lossy_encode ['s'])
  have hworkspace := (legible_of_confines hnormal h).workspace
  rw [hreplaced, hletter] at hworkspace
  revert hworkspace
  decide

end View

end Gvisor

end Silo.Sandbox
