import Silo.Shell.Risk

namespace Silo.Shell

namespace HostFs

variable (fs : HostFs)

/-- Path resolution of an `open` that may create the file: the last name need not be there. -/
def landPieces (follow : Location → List OsBytes → Option Location) :
    Location → List OsBytes → Option Location
  | _, [] => none
  | location, piece :: rest =>
    if !fs.searchable location then none
    else if piece = [] ∨ piece = dot then landPieces follow location rest
    else if piece = dotDot then landPieces follow location.dropLast rest
    else
      match fs.node (location ++ [piece]) with
      | none => if rest = [] then some (location ++ [piece]) else none
      | some (.link target) =>
        if target = [] then none
        else follow (if isAbsolute target then [] else location) (pieces target ++ rest)
      | some .file => if rest = [] then some (location ++ [piece]) else landPieces follow (location ++ [piece]) rest
      | some (.dir _) => landPieces follow (location ++ [piece]) rest

def land : Nat → Location → List OsBytes → Option Location
  | 0 => fs.landPieces fun _ _ => none
  | links + 1 => fs.landPieces (land links)

end HostFs

def IsName (piece : OsBytes) : Prop := piece ≠ [] ∧ piece ≠ dot ∧ piece ≠ dotDot

namespace HostFs

variable (fs : HostFs)

/-- Path resolution as a relation: `ends` says what becomes of the last pieces. -/
inductive Resolves (ends : Location → List OsBytes → Location → Prop) :
    Nat → Location → List OsBytes → Location → Prop
  | done {links location rest found} : ends location rest found → Resolves ends links location rest found
  | stay {links location piece rest found} : fs.searchable location = true → piece = [] ∨ piece = dot →
      Resolves ends links location rest found → Resolves ends links location (piece :: rest) found
  | up {links location rest found} : fs.searchable location = true →
      Resolves ends links location.dropLast rest found → Resolves ends links location (dotDot :: rest) found
  | down {links location piece rest found} : fs.searchable location = true → IsName piece →
      (∃ node, fs.node (location ++ [piece]) = some node ∧ ∀ target, node ≠ .link target) →
      Resolves ends links (location ++ [piece]) rest found → Resolves ends links location (piece :: rest) found
  | follow {links location piece rest found target} : fs.searchable location = true → IsName piece →
      fs.node (location ++ [piece]) = some (.link target) → target ≠ [] →
      Resolves ends links (if isAbsolute target then [] else location) (pieces target ++ rest) found →
      Resolves ends (links + 1) location (piece :: rest) found

def Arrives (location : Location) (rest : List OsBytes) (found : Location) : Prop :=
  rest = [] ∧ found = location

def Opens (location : Location) (rest : List OsBytes) (found : Location) : Prop :=
  ∃ name, rest = [name] ∧ found = location ++ [name] ∧ fs.searchable location = true ∧ IsName name ∧
    (fs.node found = none ∨ fs.node found = some .file)

variable {fs}

theorem resolves_of_walkPieces {links : Nat} {follow : Location → List OsBytes → Option Location}
    (hfollow : ∀ location rest found, follow location rest = some found →
      ∃ fewer, links = fewer + 1 ∧ fs.Resolves Arrives fewer location rest found)
    {location : Location} {rest : List OsBytes} {found : Location}
    (h : fs.walkPieces follow location rest = some found) : fs.Resolves Arrives links location rest found := by
  induction rest generalizing location with
  | nil =>
      rw [walkPieces, Option.some.injEq] at h
      exact .done ⟨rfl, h.symm⟩
  | cons piece rest ih =>
      rw [walkPieces] at h
      split at h
      · cases h
      rename_i hsearch
      replace hsearch : fs.searchable location = true := by simpa using hsearch
      split at h
      · exact .stay hsearch ‹_› (ih h)
      rename_i hskip
      split at h
      · subst piece
        exact .up hsearch (ih h)
      rename_i hup
      have hname : IsName piece := ⟨fun h => hskip (.inl h), fun h => hskip (.inr h), hup⟩
      split at h
      · cases h
      · rename_i target hnode
        split at h
        · cases h
        · obtain ⟨fewer, rfl, hrest⟩ := hfollow _ _ _ h
          exact .follow hsearch hname hnode ‹_› hrest
      · rename_i node hlink hnode
        exact .down hsearch hname ⟨node, hnode, fun target h => hlink target (by rw [h])⟩ (ih h)

theorem resolves_of_walk {links : Nat} {location : Location} {rest : List OsBytes} {found : Location}
    (h : fs.walk links location rest = some found) : fs.Resolves Arrives links location rest found := by
  induction links generalizing location rest found with
  | zero => exact resolves_of_walkPieces (fun _ _ _ h => by cases h) h
  | succ links ih => exact resolves_of_walkPieces (fun _ _ _ h => ⟨links, rfl, ih h⟩) h

theorem walk_of_resolves {links : Nat} {location : Location} {rest : List OsBytes} {found : Location}
    (h : fs.Resolves Arrives links location rest found) : fs.walk links location rest = some found := by
  induction h with
  | @done links location rest found h =>
      obtain ⟨rfl, rfl⟩ := h
      cases links <;> rfl
  | @stay links location piece rest found hsearch hskip _ ih =>
      cases links <;> rw [walk, walkPieces, hsearch] <;> simpa [hskip, walk] using ih
  | @up links location rest found hsearch _ ih =>
      cases links <;> rw [walk, walkPieces, hsearch] <;> simpa [dotDot, dot, walk] using ih
  | @down links location piece rest found hsearch hname hnode _ ih =>
      obtain ⟨node, hnode, hlink⟩ := hnode
      obtain ⟨hnil, hdot, hup⟩ := hname
      cases links <;> rw [walk, walkPieces, hsearch, hnode] <;> cases node <;>
        simp_all [walk]
  | @follow links location piece rest found target hsearch hname hnode htarget _ ih =>
      obtain ⟨hnil, hdot, hup⟩ := hname
      rw [walk, walkPieces, hsearch, hnode]
      simpa [hnil, hdot, hup, htarget] using ih

theorem resolves_of_landPieces {links : Nat} {follow : Location → List OsBytes → Option Location}
    (hfollow : ∀ location rest found, follow location rest = some found →
      ∃ fewer, links = fewer + 1 ∧ fs.Resolves fs.Opens fewer location rest found)
    {location : Location} {rest : List OsBytes} {found : Location}
    (h : fs.landPieces follow location rest = some found) : fs.Resolves fs.Opens links location rest found := by
  induction rest generalizing location with
  | nil => cases h
  | cons piece rest ih =>
      rw [landPieces] at h
      split at h
      · cases h
      rename_i hsearch
      replace hsearch : fs.searchable location = true := by simpa using hsearch
      split at h
      · exact .stay hsearch ‹_› (ih h)
      rename_i hskip
      split at h
      · subst piece
        exact .up hsearch (ih h)
      rename_i hup
      have hname : IsName piece := ⟨fun h => hskip (.inl h), fun h => hskip (.inr h), hup⟩
      split at h
      · rename_i hnode
        split at h
        · subst rest
          cases h
          exact .done ⟨piece, rfl, rfl, hsearch, hname, .inl hnode⟩
        · cases h
      · rename_i target hnode
        split at h
        · cases h
        · obtain ⟨fewer, rfl, hrest⟩ := hfollow _ _ _ h
          exact .follow hsearch hname hnode ‹_› hrest
      · rename_i hnode
        split at h
        · subst rest
          cases h
          exact .done ⟨piece, rfl, rfl, hsearch, hname, .inr hnode⟩
        · exact .down hsearch hname ⟨_, hnode, nofun⟩ (ih h)
      · rename_i hnode
        exact .down hsearch hname ⟨_, hnode, nofun⟩ (ih h)

theorem resolves_of_land {links : Nat} {location : Location} {rest : List OsBytes} {found : Location}
    (h : fs.land links location rest = some found) : fs.Resolves fs.Opens links location rest found := by
  induction links generalizing location rest found with
  | zero => exact resolves_of_landPieces (fun _ _ _ h => by cases h) h
  | succ links ih => exact resolves_of_landPieces (fun _ _ _ h => ⟨links, rfl, ih h⟩) h

theorem land_of_resolves {links : Nat} {location : Location} {rest : List OsBytes} {found : Location}
    (h : fs.Resolves fs.Opens links location rest found) : fs.land links location rest = some found := by
  induction h with
  | @done links location rest found h =>
      obtain ⟨name, rfl, rfl, hsearch, ⟨hnil, hdot, hup⟩, hnode | hnode⟩ := h <;>
        cases links <;> simp [land, landPieces, hsearch, hnil, hdot, hup, hnode]
  | @stay links location piece rest found hsearch hskip _ ih =>
      cases links <;> rw [land, landPieces, hsearch] <;> simpa [hskip, land] using ih
  | @up links location rest found hsearch _ ih =>
      cases links <;> rw [land, landPieces, hsearch] <;> simpa [dotDot, dot, land] using ih
  | @down links location piece rest found hsearch hname hnode hrest ih =>
      obtain ⟨node, hnode, hlink⟩ := hnode
      obtain ⟨hnil, hdot, hup⟩ := hname
      have hne : rest ≠ [] := by
        rintro rfl
        cases hrest with
        | done h => obtain ⟨name, hone, -⟩ := h; cases hone
      cases links <;> rw [land, landPieces, hsearch, hnode] <;> cases node <;>
        simp_all [land]
  | @follow links location piece rest found target hsearch hname hnode htarget _ ih =>
      obtain ⟨hnil, hdot, hup⟩ := hname
      rw [land, landPieces, hsearch, hnode]
      simpa [hnil, hdot, hup, htarget] using ih

namespace Resolves

variable {ends : Location → List OsBytes → Location → Prop} {links more : Nat} {location found : Location}
  {rest : List OsBytes}

theorem of_le (h : fs.Resolves ends links location rest found) (hle : links ≤ more) :
    fs.Resolves ends more location rest found := by
  induction h generalizing more with
  | done h => exact .done h
  | stay hsearch hskip _ ih => exact .stay hsearch hskip (ih hle)
  | up hsearch _ ih => exact .up hsearch (ih hle)
  | down hsearch hname hnode _ ih => exact .down hsearch hname hnode (ih hle)
  | follow hsearch hname hnode htarget _ ih =>
      obtain ⟨more, rfl⟩ : ∃ fewer, more = fewer + 1 := ⟨more - 1, by omega⟩
      exact .follow hsearch hname hnode htarget (ih (by omega))

theorem split_nil {qs : List OsBytes} (h : fs.Resolves ends links location rest found) (hrest : rest = [] ++ qs) :
    ∃ dir fewer, fewer ≤ links ∧ fs.Resolves Arrives links location [] dir ∧ fs.Resolves ends fewer dir qs found := by
  rw [List.nil_append] at hrest
  subst hrest
  exact ⟨location, links, le_rfl, .done ⟨rfl, rfl⟩, h⟩

theorem split (ps : List OsBytes) {qs : List OsBytes}
    (hends : ∀ location rest found, ends location rest found → rest.length ≤ qs.length)
    (h : fs.Resolves ends links location rest found) (hrest : rest = ps ++ qs) :
    ∃ dir fewer, fewer ≤ links ∧ fs.Resolves Arrives links location ps dir ∧
      fs.Resolves ends fewer dir qs found := by
  induction h generalizing ps with
  | @done links location rest found h =>
      have hlength := hends _ _ _ h
      subst rest
      have hnil : ps = [] := List.eq_nil_of_length_eq_zero (by rw [List.length_append] at hlength; omega)
      subst ps
      exact ⟨location, links, le_rfl, .done ⟨rfl, rfl⟩, .done h⟩
  | @stay links location piece rest found hsearch hskip h ih =>
      cases ps with
      | nil => exact split_nil (.stay hsearch hskip h) hrest
      | cons p ps =>
          rw [List.cons_append, List.cons.injEq] at hrest
          obtain ⟨dir, fewer, hle, hps, hqs⟩ := ih ps hrest.2
          exact ⟨dir, fewer, hle, hrest.1 ▸ .stay hsearch hskip hps, hqs⟩
  | @up links location rest found hsearch h ih =>
      cases ps with
      | nil => exact split_nil (.up hsearch h) hrest
      | cons p ps =>
          rw [List.cons_append, List.cons.injEq] at hrest
          obtain ⟨dir, fewer, hle, hps, hqs⟩ := ih ps hrest.2
          exact ⟨dir, fewer, hle, hrest.1 ▸ .up hsearch hps, hqs⟩
  | @down links location piece rest found hsearch hname hnode h ih =>
      cases ps with
      | nil => exact split_nil (.down hsearch hname hnode h) hrest
      | cons p ps =>
          rw [List.cons_append, List.cons.injEq] at hrest
          obtain ⟨dir, fewer, hle, hps, hqs⟩ := ih ps hrest.2
          exact ⟨dir, fewer, hle, hrest.1 ▸ .down hsearch hname hnode hps, hqs⟩
  | @follow links location piece rest found target hsearch hname hnode htarget h ih =>
      cases ps with
      | nil => exact split_nil (.follow hsearch hname hnode htarget h) hrest
      | cons p ps =>
          rw [List.cons_append, List.cons.injEq] at hrest
          obtain ⟨dir, fewer, hle, hps, hqs⟩ := ih (pieces target ++ ps) (by rw [hrest.2, List.append_assoc])
          exact ⟨dir, fewer, by omega, hrest.1 ▸ .follow hsearch hname hnode htarget hps, hqs⟩

theorem append {ps qs : List OsBytes} {dir : Location} (h : fs.Resolves Arrives links location ps dir)
    (hqs : fs.Resolves ends more dir qs found) : fs.Resolves ends (links + more) location (ps ++ qs) found := by
  induction h with
  | done h =>
      obtain ⟨rfl, rfl⟩ := h
      exact hqs.of_le (by omega)
  | stay hsearch hskip _ ih => exact .stay hsearch hskip (ih hqs)
  | up hsearch _ ih => exact .up hsearch (ih hqs)
  | down hsearch hname hnode _ ih => exact .down hsearch hname hnode (ih hqs)
  | @follow links location piece rest found target hsearch hname hnode htarget _ ih =>
      have := ih hqs
      rw [List.append_assoc] at this
      rw [Nat.add_right_comm]
      exact .follow hsearch hname hnode htarget this

theorem thin (ps qs : List OsBytes)
    (hends : ∀ location rest found, ends location rest found → ∀ p ∈ rest, p ≠ [] ∧ p ≠ dot)
    (h : fs.Resolves ends links location rest found) (hrest : rest = ps ++ qs) :
    fs.Resolves ends links location (ps ++ qs.filter fun p => p ≠ [] ∧ p ≠ dot) found := by
  induction h generalizing ps qs with
  | @done links location rest found h =>
      subst rest
      have hkeep : qs.filter (fun p => decide (p ≠ [] ∧ p ≠ dot)) = qs :=
        List.filter_eq_self.mpr fun p hp => by simpa using hends _ _ _ h p (by simp [hp])
      rw [hkeep]
      exact .done h
  | @stay links location piece rest found hsearch hskip _ ih =>
      cases ps with
      | nil =>
          obtain rfl : piece :: rest = qs := hrest
          have hdrop : ¬ (piece ≠ [] ∧ piece ≠ dot) := by rcases hskip with h | h <;> simp [h]
          rw [List.filter_cons_of_neg (by simpa using hdrop)]
          exact ih [] _ rfl
      | cons p ps =>
          rw [List.cons_append, List.cons.injEq] at hrest
          exact hrest.1 ▸ .stay hsearch hskip (ih ps qs hrest.2)
  | @up links location rest found hsearch _ ih =>
      cases ps with
      | nil =>
          obtain rfl : dotDot :: rest = qs := hrest
          rw [List.filter_cons_of_pos (by decide)]
          exact .up hsearch (ih [] _ rfl)
      | cons p ps =>
          rw [List.cons_append, List.cons.injEq] at hrest
          exact hrest.1 ▸ .up hsearch (ih ps qs hrest.2)
  | @down links location piece rest found hsearch hname hnode _ ih =>
      cases ps with
      | nil =>
          obtain rfl : piece :: rest = qs := hrest
          rw [List.filter_cons_of_pos (by simpa using ⟨hname.1, hname.2.1⟩)]
          exact .down hsearch hname hnode (ih [] _ rfl)
      | cons p ps =>
          rw [List.cons_append, List.cons.injEq] at hrest
          exact hrest.1 ▸ .down hsearch hname hnode (ih ps qs hrest.2)
  | @follow links location piece rest found target hsearch hname hnode htarget _ ih =>
      cases ps with
      | nil =>
          obtain rfl : piece :: rest = qs := hrest
          rw [List.filter_cons_of_pos (by simpa using ⟨hname.1, hname.2.1⟩)]
          exact .follow hsearch hname hnode htarget (ih _ _ rfl)
      | cons p ps =>
          rw [List.cons_append, List.cons.injEq] at hrest
          have := ih (pieces target ++ ps) qs (by rw [hrest.2, List.append_assoc])
          rw [List.append_assoc] at this
          exact hrest.1 ▸ .follow hsearch hname hnode htarget this

/-- Where a path leads to something, an `open` of it leads to the same. -/
theorem eq_of_opens {opened : Location} (h : fs.Resolves Arrives links location rest found)
    (hopen : fs.Resolves fs.Opens more location rest opened) : found = opened := by
  induction h generalizing more with
  | @done links location rest found h =>
      obtain ⟨rfl, rfl⟩ := h
      cases hopen with
      | done h =>
          obtain ⟨name, hnil, -⟩ := h
          cases hnil
  | @stay links location piece rest found hsearch hskip _ ih =>
      have hname : ¬ IsName piece := fun h => hskip.elim h.1 h.2.1
      cases hopen with
      | done h =>
          obtain ⟨name, hone, -, -, hn, -⟩ := h
          cases hone
          exact absurd hn hname
      | stay _ _ h => exact ih h
      | up => exact absurd hskip (by decide)
      | down _ hn | follow _ hn => exact absurd hn hname
  | @up links location rest found hsearch _ ih =>
      cases hopen with
      | done h =>
          obtain ⟨name, hone, -, -, hn, -⟩ := h
          cases hone
          exact absurd rfl hn.2.2
      | stay _ hskip _ => exact absurd hskip (by decide)
      | up _ h => exact ih h
      | down _ hn | follow _ hn => exact absurd rfl hn.2.2
  | @down links location piece rest found hsearch hname hnode hrest ih =>
      cases hopen with
      | done h =>
          obtain ⟨name, hone, rfl, -⟩ := h
          cases hone
          cases hrest with
          | done h => exact h.2
      | stay _ hskip _ => exact absurd hname fun h => hskip.elim h.1 h.2.1
      | up => exact absurd rfl hname.2.2
      | down _ _ _ h => exact ih h
      | follow _ _ hlink =>
          obtain ⟨node, hnode, hno⟩ := hnode
          rw [hnode, Option.some.injEq] at hlink
          exact absurd hlink (hno _)
  | @follow links location piece rest found target hsearch hname hnode htarget _ ih =>
      cases hopen with
      | done h =>
          obtain ⟨name, hone, rfl, -, -, hnone | hfile⟩ := h <;> cases hone
          · rw [hnode] at hnone
            cases hnone
          · rw [hnode] at hfile
            cases hfile
      | stay _ hskip _ => exact absurd hname fun h => hskip.elim h.1 h.2.1
      | up => exact absurd rfl hname.2.2
      | down _ _ hother =>
          obtain ⟨node, hother, hno⟩ := hother
          rw [hnode, Option.some.injEq] at hother
          exact absurd hother.symm (hno _)
      | follow _ _ hlink _ h =>
          rw [hnode, Option.some.injEq, HostNode.link.injEq] at hlink
          subst hlink
          exact ih h

end Resolves

/-- Everything of `fs` is still there in `fs'`, and what is new is not a link. -/
structure Extends (fs fs' : HostFs) : Prop where
  keeps {location : Location} {node : HostNode} : fs.node location = some node → fs'.node location = some node
  links {location : Location} {target : OsBytes} :
    fs'.node location = some (.link target) → fs.node location = some (.link target)

theorem Extends.refl (fs : HostFs) : fs.Extends fs := ⟨id, id⟩

theorem Extends.trans {fs fs' fs'' : HostFs} (h : fs.Extends fs') (h' : fs'.Extends fs'') : fs.Extends fs'' :=
  ⟨fun hnode => h'.keeps (h.keeps hnode), fun hnode => h.links (h'.links hnode)⟩

theorem Extends.searchable {fs' : HostFs} (h : fs.Extends fs') {location : Location}
    (hsearch : fs.searchable location = true) : fs'.searchable location = true := by
  simp only [HostFs.searchable, Bool.or_eq_true, decide_eq_true_eq] at hsearch ⊢
  apply hsearch.imp_right
  intro hsearch
  split at hsearch
  · rw [h.keeps ‹_›]
    exact hsearch
  · cases hsearch

theorem Resolves.extend {fs' : HostFs} (h : fs.Extends fs') {links : Nat} {location : Location}
    {rest : List OsBytes} {found : Location} (hr : fs.Resolves Arrives links location rest found) :
    fs'.Resolves Arrives links location rest found := by
  induction hr with
  | done h => exact .done h
  | stay hsearch hskip _ ih => exact .stay (h.searchable hsearch) hskip ih
  | up hsearch _ ih => exact .up (h.searchable hsearch) ih
  | down hsearch hname hnode _ ih =>
      obtain ⟨node, hnode, hlink⟩ := hnode
      exact .down (h.searchable hsearch) hname ⟨node, h.keeps hnode, hlink⟩ ih
  | follow hsearch hname hnode htarget _ ih => exact .follow (h.searchable hsearch) hname (h.keeps hnode) htarget ih

def IsClean (piece : OsBytes) : Prop := slash ∉ piece ∧ 0 ∉ piece

variable (fs) in
structure Reached (location : Location) : Prop where
  names : ∀ name ∈ location, IsName name ∧ IsClean name
  search : ∀ above name, above ++ [name] <+: location → fs.searchable above = true
  node : ∀ above name, above ++ [name] <+: location →
    ∃ node, fs.node (above ++ [name]) = some node ∧ ∀ target, node ≠ .link target

theorem Reached.nil : fs.Reached [] where
  names := by simp
  search := by simp
  node := by simp

theorem Reached.of_prefix {above location : Location} (h : fs.Reached location) (hp : above <+: location) :
    fs.Reached above where
  names := fun name hname => h.names name (hp.subset hname)
  search := fun _ _ hq => h.search _ _ (hq.trans hp)
  node := fun _ _ hq => h.node _ _ (hq.trans hp)

theorem Reached.push {location : Location} {name : OsBytes} (h : fs.Reached location)
    (hname : IsName name) (hclean : IsClean name) (hsearch : fs.searchable location = true)
    (hnode : ∃ node, fs.node (location ++ [name]) = some node ∧ ∀ target, node ≠ .link target) :
    fs.Reached (location ++ [name]) where
  names := by
    intro other hother
    rcases List.mem_append.mp hother with hother | hother
    · exact h.names other hother
    · obtain rfl := List.mem_singleton.mp hother
      exact ⟨hname, hclean⟩
  search := by
    intro above other hp
    rcases List.prefix_concat_iff.mp hp with heq | hp
    · obtain ⟨rfl, -⟩ := List.append_inj' heq rfl
      exact hsearch
    · exact h.search above other hp
  node := by
    intro above other hp
    rcases List.prefix_concat_iff.mp hp with heq | hp
    · rw [heq]
      exact hnode
    · exact h.node above other hp

theorem mem_pieces {path piece : OsBytes} (h : piece ∈ pieces path) : slash ∉ piece ∧ piece ⊆ path := by
  rw [pieces] at h
  induction path generalizing piece with
  | nil =>
      obtain rfl : piece = [] := by simpa using h
      simp
  | cons byte path ih =>
      rw [List.splitOn_cons_eq_if_modifyHead] at h
      split at h
      · rcases List.mem_cons.mp h with rfl | h
        · simp
        · exact ⟨(ih h).1, fun _ hb => List.mem_cons_of_mem _ ((ih h).2 hb)⟩
      · obtain ⟨first, others, hsplit⟩ := List.exists_cons_of_ne_nil (List.splitOn_ne_nil slash path)
        rw [hsplit, List.modifyHead_cons, List.mem_cons] at h
        rcases h with rfl | h
        · obtain ⟨hslash, hsub⟩ := ih (hsplit ▸ List.mem_cons_self : first ∈ path.splitOn slash)
          refine ⟨?_, List.cons_subset_cons _ hsub⟩
          rw [List.mem_cons]
          rintro (rfl | h)
          · simp at *
          · exact hslash h
        · obtain ⟨hslash, hsub⟩ := ih (hsplit ▸ List.mem_cons_of_mem _ h : piece ∈ path.splitOn slash)
          exact ⟨hslash, fun _ hb => List.mem_cons_of_mem _ (hsub hb)⟩

theorem isClean_of_mem_pieces {path : OsBytes} (hnul : 0 ∉ path) {piece : OsBytes} (h : piece ∈ pieces path) :
    IsClean piece :=
  ⟨(mem_pieces h).1, fun h0 => hnul ((mem_pieces h).2 h0)⟩

theorem Resolves.reached (hlinks : ∀ location target, fs.node location = some (.link target) → 0 ∉ target)
    {ends : Location → List OsBytes → Location → Prop} {links : Nat} {location : Location}
    {rest : List OsBytes} {found : Location} (h : fs.Resolves ends links location rest found)
    (hreached : fs.Reached location) (hclean : ∀ piece ∈ rest, IsClean piece) :
    ∃ last left, fs.Reached last ∧ (∀ piece ∈ left, IsClean piece) ∧ ends last left found := by
  induction h with
  | @done links location rest found h => exact ⟨location, rest, hreached, hclean, h⟩
  | stay _ _ _ ih => exact ih hreached fun piece hp => hclean piece (List.mem_cons_of_mem _ hp)
  | up _ _ ih =>
      exact ih (hreached.of_prefix (List.dropLast_prefix _)) fun piece hp => hclean piece (List.mem_cons_of_mem _ hp)
  | down hsearch hname hnode _ ih =>
      exact ih (hreached.push hname (hclean _ List.mem_cons_self) hsearch hnode)
        fun piece hp => hclean piece (List.mem_cons_of_mem _ hp)
  | @follow links location piece rest found target hsearch hname hnode htarget _ ih =>
      apply ih
      · split
        · exact Reached.nil
        · exact hreached
      · intro other hp
        rcases List.mem_append.mp hp with hp | hp
        · exact isClean_of_mem_pieces (hlinks _ _ hnode) hp
        · exact hclean other (List.mem_cons_of_mem _ hp)

end HostFs

end Silo.Shell
