import Silo.Workspace.FileTree

namespace Silo.Workspace

namespace FileTree

variable {t u : FileTree} {p q x : Path} {i j : Inode} {n : Name} {m : Mode}

/-- Every entry is in a directory. -/
def Closed (t : FileTree) : Prop := ∀ n p, t.get (n :: p) ≠ none → ∃ m, t.get p = some (.dir m)

def isClosed (t : FileTree) : Bool :=
  t.all fun e => match e.1 with
    | [] => true
    | _ :: p => t.get p matches some (.dir _)

theorem closed_of_isClosed (h : t.isClosed = true) : t.Closed := by
  intro n p hp
  obtain ⟨i, hi⟩ := Option.ne_none_iff_exists'.mp hp
  have hentry := List.all_eq_true.mp h _ (mem_of_get hi)
  simp only at hentry
  split at hentry
  · exact ⟨_, ‹_›⟩
  · cases hentry

theorem Closed.dir_above (h : t.Closed) {r : Path} (hr : r ≠ []) (hp : t.get (r ++ p) ≠ none) :
    ∃ m, t.get p = some (.dir m) := by
  induction r with
  | nil => exact absurd rfl hr
  | cons n r ih =>
      obtain ⟨m, hm⟩ := h n (r ++ p) hp
      by_cases hnil : r = []
      · subst hnil
        exact ⟨m, hm⟩
      · exact ih hnil (by rw [hm]; exact Option.some_ne_none _)

theorem Closed.none_below (h : t.Closed) (hp : ∀ m, t.get p ≠ some (.dir m)) {r : Path} (hr : r ≠ []) :
    t.get (r ++ p) = none := by
  by_contra hne
  obtain ⟨m, hm⟩ := h.dir_above hr hne
  exact hp m hm

theorem Closed.mem_names (h : t.Closed) {r : Path} (hne : t.get (r ++ n :: p) ≠ none) : n ∈ t.names p := by
  rw [FileTree.mem_names]
  by_cases hr : r = []
  · rwa [hr] at hne
  · obtain ⟨m, hm⟩ := h.dir_above hr hne
    rw [hm]
    exact Option.some_ne_none _

theorem lstat_get (h : t.lstat p = .ok i) : t.get p = some i := by
  rw [lstat] at h
  split at h
  · cases h
  · cases h
  · rename_i hi _
    cases h
    exact hi

theorem readDir_eq {names : List Name} (h : t.readDir p = .ok names) :
    (∃ m, t.get p = some (.dir m)) ∧ names = t.names p := by
  rw [readDir] at h
  split at h
  · cases h
  · rename_i m hm
    split at h
    · cases h
      exact ⟨⟨m, lstat_get hm⟩, rfl⟩
    · cases h
  · cases h

theorem readLink_get {target : OsStr} (h : t.readLink p = .ok target) : t.get p = some (.symlink target) := by
  rw [readLink] at h
  split at h
  · cases h
  · rename_i hl
    cases h
    exact lstat_get hl
  · cases h

theorem openRead_get {bytes : Bytes} (h : t.openRead p = .ok (m, bytes)) : t.get p = some (.file m bytes) := by
  rw [openRead] at h
  split at h
  · cases h
  · rename_i hf
    split at h
    · cases h
      exact lstat_get hf
    · cases h
  · cases h
  · cases h

/-- `u` is `t` with the entry `i` at `p`. -/
structure Put (t : FileTree) (p : Path) (i : Inode) (u : FileTree) : Prop where
  get : ∀ x, u.get x = if p = x then some i else t.get x
  closed : t.Closed → u.Closed

theorem dir_of_reach (h : t.reach (n :: p) = .ok ()) : ∃ m, t.get p = some (.dir m) := by
  rw [reach] at h
  split at h
  · cases h
  · cases h
  · rename_i m hm _
    exact ⟨m, hm⟩
  · cases h

theorem put_new (hp : t.get p = none) (hr : t.reach p = .ok ()) : t.Put p i (t.insert p i) := by
  refine ⟨fun _ => get_insert, fun h n q hq => ?_⟩
  rw [get_insert] at hq
  have hdir : ∃ m, t.get q = some (.dir m) := by
    by_cases hnq : p = n :: q
    · exact dir_of_reach (hnq ▸ hr)
    · rw [if_neg hnq] at hq
      exact h n q hq
  obtain ⟨m, hm⟩ := hdir
  refine ⟨m, (get_insert_of_ne ?_).trans hm⟩
  rintro rfl
  rw [hp] at hm
  cases hm

/-- Another entry in the place of one that is a directory only if the new one is. -/
theorem put_over (hp : t.get p = some j) (hdir : ∀ m, j = .dir m → ∃ m', i = .dir m') : t.Put p i (t.insert p i) := by
  refine ⟨fun _ => get_insert, fun h n q hq => ?_⟩
  rw [get_insert] at hq
  have hsome : t.get (n :: q) ≠ none := by
    by_cases hnq : p = n :: q
    · rw [← hnq, hp]
      exact Option.some_ne_none _
    · rwa [if_neg hnq] at hq
  obtain ⟨m, hm⟩ := h n q hsome
  by_cases hpq : p = q
  · subst hpq
    rw [hp] at hm
    cases hm
    obtain ⟨m', rfl⟩ := hdir m rfl
    exact ⟨m', get_insert_self⟩
  · exact ⟨m, (get_insert_of_ne hpq).trans hm⟩

theorem put_self (hp : t.get p = some i) : t.Put p i t := by
  refine ⟨fun x => ?_, fun h => h⟩
  by_cases hx : p = x
  · rw [if_pos hx, ← hx, hp]
  · rw [if_neg hx]

theorem add_put (h : t.add p i = .ok u) : t.Put p i u := by
  rw [add] at h
  split at h
  · cases h
  · cases h
  · rename_i hnone ha
    cases h
    rw [mayChange] at ha
    split at ha
    · cases ha
    · rename_i hr
      exact put_new hnone hr

theorem mkdir_put (h : t.mkdir p m = .ok u) : ∃ m', t.Put p (.dir m') u := by
  rw [mkdir] at h
  split at h
  · rename_i m' hm
    cases h
    exact ⟨m', put_self (lstat_get hm)⟩
  · cases h
  · exact ⟨m, add_put h⟩

theorem mkdir_existing (hp : t.get p ≠ none) (h : t.mkdir p m = .ok u) : u = t := by
  rw [mkdir] at h
  split at h
  · cases h
    rfl
  · cases h
  · rw [add] at h
    split at h
    · cases h
    · cases h
    · rename_i hnone _
      exact absurd hnone hp

theorem create_put (h : t.create p m = .ok u) : ∃ m', t.Put p (.file m' []) u := by
  rw [create] at h
  split at h
  · rename_i m' bytes hf
    split at h
    · cases h
      exact ⟨m', put_over (lstat_get hf) fun m h => by cases h⟩
    · cases h
  · cases h
  · cases h
  · exact ⟨m, add_put h⟩

def withMode (m : Mode) : Inode → Inode
  | .file _ bytes => .file m bytes
  | .dir _ => .dir m
  | .symlink target => .symlink target

theorem chmod_put (h : t.chmod p m = .ok u) : ∃ i, t.get p = some i ∧ t.Put p (withMode m i) u := by
  rw [chmod] at h
  split at h
  · cases h
  · rename_i m' bytes hf
    cases h
    exact ⟨_, lstat_get hf, put_over (lstat_get hf) fun m h => by cases h⟩
  · rename_i m' hm
    cases h
    exact ⟨_, lstat_get hm, put_over (lstat_get hm) fun _ _ => ⟨m, rfl⟩⟩
  · cases h

theorem write_put {old : Bytes} (h : t.get p = some (.file m old)) (bytes : Bytes) :
    t.Put p (.file m bytes) (t.write p bytes) := by
  rw [write, h]
  exact put_over h fun m h => by cases h

theorem Closed.prune (h : t.Closed) (p : Path) : (t.prune p).Closed := by
  intro n q hq
  rw [get_prune] at hq
  split at hq
  · exact absurd rfl hq
  · rename_i hpq
    obtain ⟨m, hm⟩ := h n q hq
    refine ⟨m, ?_⟩
    rw [get_prune_of_not, hm]
    exact fun hp => hpq (hp.trans (List.suffix_cons n q))

theorem unlink_eq (h : t.unlink p = .ok u) : u = t.prune p := by
  rw [unlink] at h
  split at h
  · cases h
  · cases h
  · cases h
  · cases h
    rfl

theorem rmdir_eq (h : t.rmdir p = .ok u) : u = t.prune p := by
  rw [rmdir] at h
  split at h
  · cases h
  · split at h
    · cases h
      rfl
    · cases h
  · cases h
  · cases h

/-- `rename` took the entry of `p` and all below it, and put it in the place of at most one entry
at `q`. -/
structure Renamed (t : FileTree) (p : Path) (u : FileTree) (q : Path) (t' u' : FileTree) : Prop where
  source : t.get p ≠ none
  taken : t' = t.prune p
  put : u' = t.moved p q ++ u.prune q
  reach : u.reach q = .ok ()
  room : (∃ m, u.get q = some (.dir m)) → u.names q = []

theorem renamed {t' u' : FileTree} (h : t.rename p u q = .ok (t', u')) : t.Renamed p u q t' u' := by
  unfold rename at h
  split at h
  · cases h
  · cases h
  · cases h
  · rename_i i _ _ hi _ hu
    split at h
    · cases h
    split at h
    · cases h
    · rename_i hroom
      cases h
      refine ⟨by rw [lstat_get hi]; exact Option.some_ne_none _, rfl, rfl, ?_, ?_⟩
      · unfold mayChange at hu
        split at hu
        · cases hu
        · assumption
      · rintro ⟨m, hm⟩
        unfold replaceable at hroom
        rw [hm] at hroom
        cases i with
        | dir m' =>
            simp only [ite_eq_left_iff, reduceCtorEq, imp_false, not_not] at hroom
            exact hroom
        | file m' bytes => cases hroom
        | symlink target => cases hroom

theorem Closed.none_below_of_names (h : t.Closed) (hnames : (∃ m, t.get p = some (.dir m)) → t.names p = [])
    {r : Path} (hr : r ≠ []) : t.get (r ++ p) = none := by
  by_contra hne
  obtain ⟨m, hm⟩ := h.dir_above hr hne
  rcases List.eq_nil_or_concat r with rfl | ⟨r', n, rfl⟩
  · exact hr rfl
  · have hn := names_eq_nil.mp (hnames ⟨m, hm⟩) n
    rw [List.concat_eq_append, List.append_assoc] at hne
    by_cases hnil : r' = []
    · subst hnil
      exact hne hn
    · refine hne (h.none_below (fun m hm => ?_) hnil)
      rw [List.singleton_append, hn] at hm
      cases hm

namespace Renamed

variable {t' u' : FileTree}

theorem get_below (h : t.Renamed p u q t' u') (r : Path) : u'.get (r ++ q) = t.get (r ++ p) := by
  rw [h.put, get_append, get_moved_below, get_prune, if_pos (List.suffix_append r q), Option.or_none]

theorem get_of_not (h : t.Renamed p u q t' u') (hx : ¬ q <:+ x) : u'.get x = u.get x := by
  rw [h.put, get_append, get_moved_of_not hx, get_prune_of_not hx, Option.none_or]

theorem none_below (h : t.Renamed p u q t' u') (hu : u.Closed) {r : Path} (hr : t.get (r ++ p) = none) :
    u.get (r ++ q) = none := by
  apply hu.none_below_of_names h.room
  rintro rfl
  exact h.source hr

theorem closed (h : t.Renamed p u q t' u') (ht : t.Closed) (hu : u.Closed) : u'.Closed := by
  intro n x hx
  by_cases hq : q <:+ x
  · obtain ⟨r, rfl⟩ := hq
    have hnx : u'.get (n :: (r ++ q)) = t.get (n :: (r ++ p)) := h.get_below (n :: r)
    rw [hnx] at hx
    obtain ⟨m, hm⟩ := ht n (r ++ p) hx
    exact ⟨m, (h.get_below r).trans hm⟩
  · rw [h.get_of_not hq]
    by_cases hnx : q <:+ n :: x
    · have heq : q = n :: x := by
        rcases List.suffix_cons_iff.mp hnx with heq | hsuffix
        · exact heq
        · exact absurd hsuffix hq
      exact dir_of_reach (heq ▸ h.reach)
    · rw [h.get_of_not hnx] at hx
      exact hu n x hx

end Renamed

end FileTree

end Silo.Workspace
