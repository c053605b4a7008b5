import Silo.Shell.JournalGuard

namespace Silo.Shell

open Silo.Workspace

namespace HostFs

/-- Where a path really leads: links are followed, `..` leads up even from what is not
there, and what is not there is kept. -/
inductive Real (fs : HostFs) : Location → List OsBytes → Location → Prop
  | done {location} : Real fs location [] location
  | stay {location piece rest found} : piece = [] ∨ piece = dot →
      Real fs location rest found → Real fs location (piece :: rest) found
  | up {location rest found} : Real fs location.dropLast rest found → Real fs location (dotDot :: rest) found
  | down {location piece rest found} : IsName piece → (∀ target, fs.node (location ++ [piece]) ≠ some (.link target)) →
      Real fs (location ++ [piece]) rest found → Real fs location (piece :: rest) found
  | follow {location piece rest found target} : IsName piece → fs.node (location ++ [piece]) = some (.link target) →
      target ≠ [] → Real fs (if isAbsolute target then [] else location) (pieces target ++ rest) found →
      Real fs location (piece :: rest) found

/-- The path names this location. The system takes no empty path and none with a NUL. -/
structure RealLocation (fs : HostFs) (cwd : Location) (path : OsStr) (location : Location) : Prop where
  nonempty : osBytes path ≠ []
  no_nul : 0 ∉ osBytes path
  real : fs.Real (startOf cwd (isAbsolute (osBytes path))) (pieces (osBytes path)) location

variable {fs : HostFs} {location found : Location} {rest : List OsBytes}

theorem not_isName_of_skip {piece : OsBytes} (h : piece = [] ∨ piece = dot) : ¬ IsName piece :=
  fun hname => h.elim hname.1 hname.2.1

theorem not_skip_dotDot : ¬ (dotDot = [] ∨ dotDot = dot) := by decide

namespace Real

theorem unique {other : Location} (h : fs.Real location rest found) (h' : fs.Real location rest other) :
    found = other := by
  induction h with
  | done =>
      cases h'
      rfl
  | stay hskip _ ih =>
      cases h' with
      | stay _ h' => exact ih h'
      | up => exact absurd hskip not_skip_dotDot
      | down hname | follow hname => exact absurd hname (not_isName_of_skip hskip)
  | up _ ih =>
      cases h' with
      | stay hskip => exact absurd hskip not_skip_dotDot
      | up h' => exact ih h'
      | down hname | follow hname => exact absurd rfl hname.2.2
  | down hname hlink _ ih =>
      cases h' with
      | stay hskip => exact absurd hname (not_isName_of_skip hskip)
      | up => exact absurd rfl hname.2.2
      | down _ _ h' => exact ih h'
      | follow _ hnode => exact absurd hnode (hlink _)
  | follow hname hnode _ _ ih =>
      cases h' with
      | stay hskip => exact absurd hname (not_isName_of_skip hskip)
      | up => exact absurd rfl hname.2.2
      | down _ hlink => exact absurd hnode (hlink _)
      | follow _ hnode' _ h' =>
          rw [hnode, Option.some.injEq, HostNode.link.injEq] at hnode'
          subst hnode'
          exact ih h'

theorem append {ps qs : List OsBytes} {dir : Location} (h : fs.Real location ps dir) (hqs : fs.Real dir qs found) :
    fs.Real location (ps ++ qs) found := by
  induction h with
  | done => exact hqs
  | stay hskip _ ih => exact .stay hskip (ih hqs)
  | up _ ih => exact .up (ih hqs)
  | down hname hlink _ ih => exact .down hname hlink (ih hqs)
  | follow hname hnode htarget _ ih =>
      have hrest := ih hqs
      rw [List.append_assoc] at hrest
      exact .follow hname hnode htarget hrest

theorem split_nil {qs : List OsBytes} (h : fs.Real location rest found) (hrest : rest = [] ++ qs) :
    ∃ dir, fs.Real location [] dir ∧ fs.Real dir qs found := by
  rw [List.nil_append] at hrest
  subst hrest
  exact ⟨location, .done, h⟩

theorem split (ps : List OsBytes) {qs : List OsBytes} (h : fs.Real location rest found) (hrest : rest = ps ++ qs) :
    ∃ dir, fs.Real location ps dir ∧ fs.Real dir qs found := by
  induction h generalizing ps with
  | done =>
      obtain ⟨rfl, rfl⟩ := List.append_eq_nil_iff.mp hrest.symm
      exact ⟨_, .done, .done⟩
  | stay hskip h ih =>
      cases ps with
      | nil => exact split_nil (.stay hskip h) hrest
      | cons p ps =>
          obtain ⟨rfl, rfl⟩ := List.cons.inj hrest
          obtain ⟨dir, hps, hqs⟩ := ih ps rfl
          exact ⟨dir, .stay hskip hps, hqs⟩
  | up h ih =>
      cases ps with
      | nil => exact split_nil (.up h) hrest
      | cons p ps =>
          obtain ⟨rfl, rfl⟩ := List.cons.inj hrest
          obtain ⟨dir, hps, hqs⟩ := ih ps rfl
          exact ⟨dir, .up hps, hqs⟩
  | down hname hlink h ih =>
      cases ps with
      | nil => exact split_nil (.down hname hlink h) hrest
      | cons p ps =>
          obtain ⟨rfl, rfl⟩ := List.cons.inj hrest
          obtain ⟨dir, hps, hqs⟩ := ih ps rfl
          exact ⟨dir, .down hname hlink hps, hqs⟩
  | @follow location piece rest found target hname hnode htarget h ih =>
      cases ps with
      | nil => exact split_nil (.follow hname hnode htarget h) hrest
      | cons p ps =>
          obtain ⟨rfl, rfl⟩ := List.cons.inj hrest
          obtain ⟨dir, hps, hqs⟩ := ih (pieces target ++ ps) (List.append_assoc _ _ _).symm
          exact ⟨dir, .follow hname hnode htarget hps, hqs⟩

theorem of_thin (h : fs.Real location (rest.filter fun p => p ≠ [] ∧ p ≠ dot) found) : fs.Real location rest found := by
  induction rest generalizing location with
  | nil => exact h
  | cons piece rest ih =>
      by_cases hskip : piece = [] ∨ piece = dot
      · have hdrop : ¬ (piece ≠ [] ∧ piece ≠ dot) := by rcases hskip with h | h <;> simp [h]
        rw [List.filter_cons_of_neg (by simpa using hdrop)] at h
        exact .stay hskip (ih h)
      · rw [List.filter_cons_of_pos (by simpa using not_or.mp hskip)] at h
        obtain ⟨dir, hpiece, hrest⟩ := split [piece] h rfl
        exact hpiece.append (ih hrest)

theorem of_comps {path : OsBytes} (h : fs.Real location ((PathBuf.ofBytes path).comps.map PathBuf.compBytes) found) :
    fs.Real location (pieces path) found := by
  have hthin : ∀ {start}, fs.Real start (((pieces path).filterMap PathBuf.compOf).map PathBuf.compBytes) found →
      fs.Real start (pieces path) found := by
    intro start h
    rw [PathBuf.map_compBytes_filterMap] at h
    exact h.of_thin
  simp only [PathBuf.ofBytes] at h
  split at h
  · rw [List.map_cons] at h
    cases h with
    | stay _ h => exact hthin h
    | down hname | follow hname => exact absurd rfl hname.2.1
  · exact hthin h

theorem of_resolves {links : Nat} (h : fs.Resolves Arrives links location rest found) :
    fs.Real location rest found := by
  induction h with
  | done h =>
      obtain ⟨rfl, rfl⟩ := h
      exact .done
  | stay _ hskip _ ih => exact .stay hskip ih
  | up _ _ ih => exact .up ih
  | down _ hname hnode _ ih =>
      obtain ⟨node, hnode, hlink⟩ := hnode
      refine .down hname ?_ ih
      intro target htarget
      rw [hnode, Option.some.injEq] at htarget
      exact hlink target htarget
  | follow _ hname hnode htarget _ ih => exact .follow hname hnode htarget ih

theorem of_linkless {names : List OsBytes} (hnames : ∀ name ∈ names, IsName name)
    (h : fs.Linkless (location ++ names)) : fs.Real location names (location ++ names) := by
  induction names generalizing location with
  | nil =>
      rw [List.append_nil]
      exact .done
  | cons name names ih =>
      have hprefix : location ++ [name] <+: location ++ name :: names := ⟨names, by simp⟩
      refine .down (hnames name List.mem_cons_self) (h _ _ hprefix) ?_
      rw [List.append_cons location name names] at h ⊢
      exact ih (fun other hother => hnames other (List.mem_cons_of_mem _ hother)) h

theorem linkless (h : fs.Real location rest found) (hlinks : fs.Linkless location) : fs.Linkless found := by
  induction h with
  | done => exact hlinks
  | stay _ _ ih => exact ih hlinks
  | up _ ih => exact ih (hlinks.of_prefix (List.dropLast_prefix _))
  | @down location piece rest found _ hlink _ ih =>
      apply ih
      intro dir name hp target
      rcases List.prefix_concat_iff.mp hp with heq | hp
      · rw [heq]
        exact hlink target
      · exact hlinks dir name hp target
  | follow _ _ _ _ ih =>
      apply ih
      split
      · exact hlinks.of_prefix (List.nil_prefix)
      · exact hlinks

theorem names (htargets : ∀ location target, fs.node location = some (.link target) → 0 ∉ target)
    (h : fs.Real location rest found) (hnames : ∀ name ∈ location, IsName name ∧ IsClean name)
    (hclean : ∀ piece ∈ rest, IsClean piece) : ∀ name ∈ found, IsName name ∧ IsClean name := by
  induction h with
  | done => exact hnames
  | stay _ _ ih => exact ih hnames fun piece hp => hclean piece (List.mem_cons_of_mem _ hp)
  | up _ ih =>
      exact ih (fun name hname => hnames name (List.dropLast_subset _ hname))
        fun piece hp => hclean piece (List.mem_cons_of_mem _ hp)
  | down hname _ _ ih =>
      refine ih ?_ fun piece hp => hclean piece (List.mem_cons_of_mem _ hp)
      intro other hother
      rcases List.mem_append.mp hother with hother | hother
      · exact hnames other hother
      · obtain rfl := List.mem_singleton.mp hother
        exact ⟨hname, hclean _ List.mem_cons_self⟩
  | follow _ hnode _ _ ih =>
      apply ih
      · split
        · simp
        · exact hnames
      · intro other hp
        rcases List.mem_append.mp hp with hp | hp
        · exact isClean_of_mem_pieces (htargets _ _ hnode) hp
        · exact hclean other (List.mem_cons_of_mem _ hp)

end Real

theorem RealLocation.unique {cwd : Location} {path : OsStr} {other : Location} (h : fs.RealLocation cwd path location)
    (h' : fs.RealLocation cwd path other) : location = other :=
  h.real.unique h'.real

theorem realLocation_of_canonicalize {cwd : Location} {path : OsStr}
    (h : fs.canonicalize cwd (osBytes path) = some location) : fs.RealLocation cwd path location := by
  obtain ⟨hnul, hresolves, -⟩ := resolves_comps_of_canonicalize h
  refine ⟨?_, hnul, .of_resolves hresolves⟩
  intro hnil
  rw [canonicalize, if_pos (.inl hnil)] at h
  cases h

end HostFs

end Silo.Shell
