import Silo.Shell.Resolution

namespace Silo.Shell

namespace PathBuf

/-- Components that can be written down and read again. -/
def Spelled (comps : List PathComp) : Prop :=
  ∀ comp ∈ comps, HostFs.IsClean (compBytes comp) ∧ ∀ name, comp = .normal name → IsName name

theorem Spelled.compBytes_ne_nil {comps : List PathComp} (h : Spelled comps) {comp : PathComp}
    (hcomp : comp ∈ comps) : compBytes comp ≠ [] := by
  cases comp with
  | normal name => exact ((h _ hcomp).2 name rfl).1
  | current | parent => exact List.cons_ne_nil _ _

theorem compBytes_compOf {piece : OsBytes} {comp : PathComp} (h : compOf piece = some comp) :
    compBytes comp = piece ∧ (piece ≠ [] ∧ piece ≠ dot) ∧ ∀ name, comp = .normal name → IsName name := by
  rw [compOf] at h
  split at h
  · cases h
  · rename_i hskip
    have hkeep : piece ≠ [] ∧ piece ≠ dot := not_or.mp hskip
    split at h <;> cases h
    · exact ⟨Eq.symm ‹_›, hkeep, nofun⟩
    · refine ⟨rfl, hkeep, ?_⟩
      rintro name ⟨⟩
      exact ⟨hkeep.1, hkeep.2, ‹_›⟩

theorem map_compBytes_filterMap (ps : List OsBytes) :
    (ps.filterMap compOf).map compBytes = ps.filter fun p => p ≠ [] ∧ p ≠ dot := by
  induction ps with
  | nil => rfl
  | cons piece ps ih =>
      cases hcomp : compOf piece with
      | none =>
          have hskip : ¬ (piece ≠ [] ∧ piece ≠ dot) := by
            rw [compOf] at hcomp
            split at hcomp
            · tauto
            · split at hcomp <;> cases hcomp
          rw [List.filterMap_cons_none hcomp, ih, List.filter_cons_of_neg (by simpa using hskip)]
      | some comp =>
          obtain ⟨hbytes, hkeep, -⟩ := compBytes_compOf hcomp
          rw [List.filterMap_cons_some hcomp, List.map_cons, ih, hbytes,
            List.filter_cons_of_pos (by simpa using hkeep)]

theorem spelled_ofBytes {path : OsBytes} (hnul : 0 ∉ path) : Spelled (ofBytes path).comps := by
  have hcomps : Spelled ((pieces path).filterMap compOf) := by
    intro comp hcomp
    obtain ⟨piece, hpiece, hof⟩ := List.mem_filterMap.mp hcomp
    obtain ⟨hbytes, -, hname⟩ := compBytes_compOf hof
    rw [hbytes]
    exact ⟨HostFs.isClean_of_mem_pieces hnul hpiece, hname⟩
  intro comp hcomp
  simp only [ofBytes] at hcomp
  split at hcomp
  · rcases List.mem_cons.mp hcomp with rfl | hcomp
    · exact ⟨⟨by decide, by decide⟩, nofun⟩
    · exact hcomps comp hcomp
  · exact hcomps comp hcomp

theorem Spelled.pieces_bytes {comps : List PathComp} (h : Spelled comps) (root : Bool) (hne : comps ≠ []) :
    pieces (bytes ⟨root, comps⟩) = (if root then [[]] else []) ++ comps.map compBytes := by
  have hsplit : pieces ([slash].intercalate (comps.map compBytes)) = comps.map compBytes := by
    apply List.splitOn_intercalate
    · intro piece hpiece
      obtain ⟨comp, hcomp, rfl⟩ := List.mem_map.mp hpiece
      exact (h comp hcomp).1.1
    · simpa using hne
  cases root with
  | false => simpa [bytes] using hsplit
  | true =>
      have : pieces (slash :: [slash].intercalate (comps.map compBytes)) =
          [] :: pieces ([slash].intercalate (comps.map compBytes)) := by
        rw [pieces, pieces, List.splitOn_cons_eq_if_modifyHead, if_pos (by simp)]
      simpa [bytes, hsplit] using this

theorem Spelled.isAbsolute_bytes {comps : List PathComp} (h : Spelled comps) (root : Bool) :
    isAbsolute (bytes ⟨root, comps⟩) = root := by
  cases root with
  | true => rfl
  | false =>
      cases comps with
      | nil => rfl
      | cons comp comps =>
          have hne := h.compBytes_ne_nil List.mem_cons_self
          have hslash := (h comp List.mem_cons_self).1.1
          obtain ⟨byte, rest, hbytes⟩ := List.exists_cons_of_ne_nil hne
          have hbyte : byte ≠ slash := fun h => hslash (by rw [hbytes, h]; exact List.mem_cons_self)
          have hhead : (bytes ⟨false, comp :: comps⟩).head? = some byte := by
            cases comps <;> simp [bytes, hbytes, List.intercalate_cons_cons]
          simp [isAbsolute, hhead, hbyte]

theorem Spelled.no_nul {comps : List PathComp} (h : Spelled comps) (root : Bool) : 0 ∉ bytes ⟨root, comps⟩ := by
  have hsep : ∀ ps : List OsBytes, (∀ p ∈ ps, 0 ∉ p) → 0 ∉ [slash].intercalate ps := by
    intro ps hps
    induction ps with
    | nil => simp
    | cons p ps ih =>
        cases ps with
        | nil => simpa using hps
        | cons q qs =>
            rw [List.intercalate_cons_cons]
            have hq := ih fun r hr => hps r (List.mem_cons_of_mem _ hr)
            simp only [List.mem_append, not_or]
            exact ⟨⟨hps p List.mem_cons_self, by decide⟩, hq⟩
  have hcomps : 0 ∉ [slash].intercalate (comps.map compBytes) := by
    apply hsep
    intro p hp
    obtain ⟨comp, hcomp, rfl⟩ := List.mem_map.mp hp
    exact (h comp hcomp).1.2
  cases root with
  | false => simpa [bytes] using hcomps
  | true => simpa [bytes, show (0 : UInt8) ≠ slash by decide] using hcomps

end PathBuf

def startOf (cwd : Location) (root : Bool) : Location := if root then [] else cwd

namespace HostFs

variable {fs : HostFs} {cwd : Location}

theorem searchable_root : fs.searchable [] = true := rfl

theorem walk_iff {links : Nat} {location : Location} {rest : List OsBytes} {found : Location} :
    fs.walk links location rest = some found ↔ fs.Resolves Arrives links location rest found :=
  ⟨resolves_of_walk, walk_of_resolves⟩

theorem resolves_root {links : Nat} {rest : List OsBytes} {found : Location} :
    fs.Resolves Arrives links [] ([] :: rest) found ↔ fs.Resolves Arrives links [] rest found := by
  constructor
  · intro h
    cases h with
    | done h => cases h.1
    | stay _ _ h => exact h
    | down _ hname | follow _ hname => exact absurd rfl hname.1
  · exact .stay searchable_root (.inl rfl)

theorem canonicalize_bytes {comps : List PathComp} (h : PathBuf.Spelled comps) (root : Bool) {found : Location} :
    fs.canonicalize cwd (PathBuf.bytes ⟨root, comps⟩) = some found ↔
      (root = true ∨ comps ≠ []) ∧
        fs.Resolves Arrives maxLinks (startOf cwd root) (comps.map PathBuf.compBytes) found := by
  rw [canonicalize, h.isAbsolute_bytes root]
  by_cases hne : comps = []
  · subst comps
    cases root with
    | false => simp [PathBuf.bytes]
    | true =>
        have hbytes : PathBuf.bytes ⟨true, []⟩ = [slash] := rfl
        have hpieces : pieces [slash] = [[], []] := by decide
        rw [hbytes, if_neg (by decide), walk_iff, hpieces]
        simp [startOf, resolves_root]
  · have hpieces := h.pieces_bytes root hne
    have hbytes : PathBuf.bytes ⟨root, comps⟩ ≠ [] := by
      intro hnil
      cases root with
      | true => cases hnil
      | false =>
          obtain ⟨comp, hcomp, hempty⟩ : ∃ comp ∈ comps, PathBuf.compBytes comp = [] := by
            have hmap : comps.map PathBuf.compBytes = [[]] := by
              rw [hnil] at hpieces
              simpa [pieces] using hpieces.symm
            rw [← List.mem_map, hmap]
            exact List.mem_singleton_self []
          exact h.compBytes_ne_nil hcomp hempty
    rw [if_neg (by rintro (h0 | h0); exacts [hbytes h0, h.no_nul root h0]), walk_iff, hpieces]
    cases root with
    | false => simp [startOf, hne]
    | true => simp [startOf, resolves_root]

theorem Resolves.comps {ends : Location → List OsBytes → Location → Prop}
    (hends : ∀ location rest found, ends location rest found → ∀ p ∈ rest, p ≠ [] ∧ p ≠ dot)
    {links : Nat} {location : Location} {path : OsBytes} {found : Location}
    (h : fs.Resolves ends links location (pieces path) found) :
    fs.Resolves ends links location ((PathBuf.ofBytes path).comps.map PathBuf.compBytes) found := by
  have hthin := h.thin [] (pieces path) hends rfl
  rw [List.nil_append, ← PathBuf.map_compBytes_filterMap] at hthin
  simp only [PathBuf.ofBytes]
  split
  · rename_i hdot
    obtain ⟨rest, hpieces⟩ := List.head?_eq_some_iff.mp hdot
    rw [hpieces] at h
    have hsearch : fs.searchable location = true := by
      cases h with
      | done h => exact absurd rfl (hends _ _ _ h dot List.mem_cons_self).2
      | stay hsearch _ _ | down hsearch _ _ _ | follow hsearch _ _ _ _ => exact hsearch
    exact .stay hsearch (.inr rfl) hthin
  · exact hthin

theorem resolves_comps_of_canonicalize {path : OsBytes} {found : Location}
    (h : fs.canonicalize cwd path = some found) : 0 ∉ path ∧
      fs.Resolves Arrives maxLinks (startOf cwd (isAbsolute path)) (pieces path) found ∧
      fs.Resolves Arrives maxLinks (startOf cwd (isAbsolute path)) ((PathBuf.ofBytes path).comps.map PathBuf.compBytes)
        found := by
  rw [canonicalize] at h
  split at h
  · cases h
  · rename_i hbytes
    have hresolves := resolves_of_walk h
    refine ⟨fun h0 => hbytes (.inr h0), hresolves, hresolves.comps ?_⟩
    rintro location rest found ⟨rfl, -⟩ p hp
    cases hp

theorem Resolves.unique {links : Nat} {location : Location} {rest : List OsBytes} {found other : Location}
    (h : fs.Resolves Arrives links location rest found) (h' : fs.Resolves Arrives links location rest other) :
    found = other := by
  rw [← walk_iff] at h h'
  rw [h, Option.some.injEq] at h'
  exact h'

theorem Resolves.eq_of_nil {links : Nat} {location found : Location}
    (h : fs.Resolves Arrives links location [] found) : found = location := by
  cases h with
  | done h => exact h.2

theorem opens_nil {links : Nat} {location found : Location} : ¬ fs.Resolves fs.Opens links location [] found := by
  intro h
  cases h with
  | done h =>
      obtain ⟨name, hone, -⟩ := h
      cases hone

theorem Resolves.step {ends : Location → List OsBytes → Location → Prop} {links : Nat} {dir found : Location}
    {name : OsBytes} {rest : List OsBytes} (h : fs.Resolves ends links dir (name :: rest) found)
    (hends : ¬ ends dir (name :: rest) found) (hname : IsName name)
    (hlink : ∀ target, fs.node (dir ++ [name]) ≠ some (.link target)) :
    fs.Resolves ends links (dir ++ [name]) rest found := by
  cases h with
  | done h => exact absurd h hends
  | stay _ hskip _ => exact absurd hname fun h => hskip.elim h.1 h.2.1
  | up => exact absurd rfl hname.2.2
  | down _ _ _ h => exact h
  | follow _ _ hnode => exact absurd hnode (hlink _)

/-- The last piece of a path that is opened is a name, of the file itself or of a link to it. -/
theorem Resolves.opens_last {links : Nat} {dir : Location} {piece : OsBytes} {found : Location}
    (h : fs.Resolves fs.Opens links dir [piece] found) :
    IsName piece ∧ fs.searchable dir = true ∧
      ((found = dir ++ [piece] ∧ (fs.node found = none ∨ fs.node found = some .file)) ∨
        ∃ target fewer, fewer ≤ links ∧ fs.node (dir ++ [piece]) = some (.link target) ∧
          fs.Resolves fs.Opens fewer (if isAbsolute target then [] else dir) (pieces target) found) := by
  cases h with
  | done h =>
      obtain ⟨name, hone, hfound, hsearch, hname, hnode⟩ := h
      cases hone
      exact ⟨hname, hsearch, .inl ⟨hfound, hnode⟩⟩
  | stay _ _ h | up _ h | down _ _ _ h => exact absurd h opens_nil
  | @follow links _ _ _ _ target hsearch hname hnode _ h =>
      rw [List.append_nil] at h
      exact ⟨hname, hsearch, .inr ⟨target, links, Nat.le_succ _, hnode, h⟩⟩

theorem Resolves.node_of_last {links : Nat} {dir : Location} {name : OsBytes} {found : Location}
    (h : fs.Resolves Arrives links dir [name] found) (hname : IsName name) :
    fs.node (dir ++ [name]) ≠ none ∧
      ((∀ target, fs.node (dir ++ [name]) ≠ some (.link target)) → found = dir ++ [name]) := by
  cases h with
  | done h => cases h.1
  | stay _ hskip _ => exact absurd hname fun h => hskip.elim h.1 h.2.1
  | up => exact absurd rfl hname.2.2
  | down _ _ hnode h =>
      obtain ⟨node, hnode, -⟩ := hnode
      exact ⟨by rw [hnode]; exact nofun, fun _ => h.eq_of_nil⟩
  | @follow links _ _ _ _ target _ _ hnode =>
      exact ⟨by rw [hnode]; exact nofun, fun h => absurd hnode (h target)⟩

variable (fs) in
def Linkless (location : Location) : Prop :=
  ∀ dir name, dir ++ [name] <+: location → ∀ target, fs.node (dir ++ [name]) ≠ some (.link target)

theorem Linkless.of_prefix {above location : Location} (h : fs.Linkless location) (hp : above <+: location) :
    fs.Linkless above :=
  fun dir name hd => h dir name (hd.trans hp)

theorem Reached.linkless {location : Location} (h : fs.Reached location) : fs.Linkless location := by
  intro dir name hp target htarget
  obtain ⟨node, hnode, hlink⟩ := h.node dir name hp
  rw [hnode, Option.some.injEq] at htarget
  exact hlink target htarget

theorem Linkless.extend {fs' : HostFs} (he : fs.Extends fs') {location : Location} (h : fs.Linkless location) :
    fs'.Linkless location :=
  fun dir name hp target htarget => h dir name hp target (he.links htarget)

theorem Reached.extend {fs' : HostFs} {location : Location} (h : fs.Reached location) (he : fs.Extends fs') :
    fs'.Reached location where
  names := h.names
  search := fun above name hp => he.searchable (h.search above name hp)
  node := by
    intro above name hp
    obtain ⟨node, hnode, hlink⟩ := h.node above name hp
    exact ⟨node, he.keeps hnode, hlink⟩

theorem Resolves.through {ends : Location → List OsBytes → Location → Prop} {links : Nat} {above found : Location}
    {names more : List OsBytes} (hends : ∀ location rest found, ends location rest found → rest.length ≤ more.length)
    (hnames : ∀ name ∈ names, IsName name) (hlinks : fs.Linkless (above ++ names))
    (h : fs.Resolves ends links above (names ++ more) found) :
    fs.Resolves ends links (above ++ names) more found := by
  induction names generalizing above with
  | nil => simpa using h
  | cons name names ih =>
      have hname := hnames name List.mem_cons_self
      have hprefix : above ++ [name] <+: above ++ name :: names := ⟨names, by simp⟩
      cases h with
      | done h =>
          have := hends _ _ _ h
          simp only [List.cons_append, List.length_cons, List.length_append] at this
          omega
      | stay _ hskip _ => exact absurd hname fun h => hskip.elim h.1 h.2.1
      | up => exact absurd rfl hname.2.2
      | down _ _ _ h =>
          rw [List.append_cons above name names] at hlinks ⊢
          exact ih (fun other hother => hnames other (List.mem_cons_of_mem _ hother)) hlinks h
      | follow _ _ hnode => exact absurd hnode (hlinks _ _ hprefix _)

theorem Resolves.eq_of_linkless {links : Nat} {names found : List OsBytes}
    (hnames : ∀ name ∈ names, IsName name) (hlinks : fs.Linkless names)
    (h : fs.Resolves Arrives links [] names found) : found = names := by
  have hends : ∀ (location : Location) (rest : List OsBytes) (found : Location),
      Arrives location rest found → rest.length ≤ ([] : List OsBytes).length := by
    rintro location rest found ⟨rfl, -⟩
    exact le_rfl
  have hthrough : fs.Resolves Arrives links ([] ++ names) [] found :=
    Resolves.through hends hnames hlinks (by rwa [List.append_nil])
  exact hthrough.eq_of_nil

theorem Reached.resolves {above names : Location} (h : fs.Reached (above ++ names)) :
    fs.Resolves Arrives 0 above names (above ++ names) := by
  induction names generalizing above with
  | nil => exact .done ⟨rfl, by simp⟩
  | cons name names ih =>
      have hprefix : above ++ [name] <+: above ++ name :: names := ⟨names, by simp⟩
      refine .down (h.search _ _ hprefix) (h.names name (by simp)).1 (h.node _ _ hprefix) ?_
      rw [List.append_cons above name names] at h ⊢
      exact ih h

end HostFs

end Silo.Shell
