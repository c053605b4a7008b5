import Mathlib.Data.List.Dedup
import Mathlib.Data.List.Infix

namespace Silo.Workspace

/-- The operating system's strings: UTF-8 text, or bytes that are not UTF-8. -/
inductive OsStr
  | text (s : String)
  | raw (bytes : List UInt8)
  deriving DecidableEq, Repr

def OsStr.IsName : OsStr → Prop
  | .text s => s ≠ "" ∧ '/' ∉ s.toList
  | .raw _ => True

instance : (s : OsStr) → Decidable s.IsName
  | .text s => inferInstanceAs (Decidable (s ≠ "" ∧ '/' ∉ s.toList))
  | .raw _ => isTrue trivial

abbrev Name := { s : OsStr // s.IsName }

/-- A path below some root, innermost name first: the parent of `n :: p` is `p`. -/
abbrev Path := List Name

abbrev Bytes := List UInt8

/-- Permission bits, `mode & 0o7777`. -/
abbrev Mode := BitVec 12

namespace Mode

def canRead (m : Mode) : Bool := m.getLsbD 8
def canWrite (m : Mode) : Bool := m.getLsbD 7
def canSearch (m : Mode) : Bool := m.getLsbD 6

end Mode

inductive Inode
  | file (mode : Mode) (bytes : Bytes)
  | dir (mode : Mode)
  | symlink (target : OsStr)
  deriving DecidableEq, Repr

def Inode.isLink : Inode → Bool
  | .symlink _ => true
  | _ => false

/-- Moving a directory to another parent changes its `..`. -/
def Inode.movable : Inode → Bool
  | .dir m => m.canWrite
  | _ => true

inductive Errno
  | notFound
  | exists
  | notADirectory
  | isADirectory
  | notEmpty
  | accessDenied
  | crossDevice
  | invalid
  | tooDeep
  | failed
  deriving DecidableEq, Repr

/-- The entries below a root, the root itself under `[]`. The first entry for a
path counts. No operation follows a symbolic link: where the system's would go on
at its target, the one here fails. -/
abbrev FileTree := List (Path × Inode)

namespace FileTree

def get : FileTree → Path → Option Inode
  | [], _ => none
  | (q, i) :: t, p => if q = p then some i else get t p

def insert (t : FileTree) (p : Path) (i : Inode) : FileTree := (p, i) :: t

def prune (t : FileTree) (p : Path) : FileTree := t.filter fun e => ¬ p <:+ e.1

def rebase (p q x : Path) : Path := x.take (x.length - p.length) ++ q

def moved (t : FileTree) (p q : Path) : FileTree :=
  (t.filter fun e => p <:+ e.1).map fun e => (rebase p q e.1, e.2)

def childOf (p : Path) : Path → Option Name
  | [] => none
  | n :: q => if q = p then some n else none

def names (t : FileTree) (p : Path) : List Name := (t.filterMap fun e => childOf p e.1).dedup

/-- Every directory above `p` exists and the owner can search it. -/
def reach (t : FileTree) : Path → Except Errno Unit
  | [] => .ok ()
  | _ :: p =>
    match t.reach p, t.get p with
    | .error e, _ => .error e
    | _, none => .error .notFound
    | _, some (.dir m) => if m.canSearch then .ok () else .error .accessDenied
    | _, some _ => .error .notADirectory

/-- The owner may add and remove entries of the directory `p` is in. -/
def writable (t : FileTree) : Path → Bool
  | [] => true
  | _ :: p =>
    match t.get p with
    | some (.dir m) => m.canWrite
    | _ => false

/-- The check every operation that adds or removes the entry `p` makes. -/
def mayChange (t : FileTree) (p : Path) : Except Errno Unit :=
  match t.reach p with
  | .error e => .error e
  | .ok _ => if t.writable p then .ok () else .error .accessDenied

def lstat (t : FileTree) (p : Path) : Except Errno Inode :=
  match t.reach p, t.get p with
  | .error e, _ => .error e
  | _, none => .error .notFound
  | _, some i => .ok i

def readDir (t : FileTree) (p : Path) : Except Errno (List Name) :=
  match t.lstat p with
  | .error e => .error e
  | .ok (.dir m) => if m.canRead then .ok (t.names p) else .error .accessDenied
  | .ok _ => .error .notADirectory

def readLink (t : FileTree) (p : Path) : Except Errno OsStr :=
  match t.lstat p with
  | .error e => .error e
  | .ok (.symlink target) => .ok target
  | .ok _ => .error .invalid

def openRead (t : FileTree) (p : Path) : Except Errno (Mode × Bytes) :=
  match t.lstat p with
  | .error e => .error e
  | .ok (.file m bytes) => if m.canRead then .ok (m, bytes) else .error .accessDenied
  | .ok (.dir _) => .error .isADirectory
  | .ok (.symlink _) => .error .invalid

def add (t : FileTree) (p : Path) (i : Inode) : Except Errno FileTree :=
  match t.get p, t.mayChange p with
  | some _, _ => .error .exists
  | none, .error e => .error e
  | none, .ok _ => .ok (t.insert p i)

/-- `create_dir_all` below a directory that exists. -/
def mkdir (t : FileTree) (p : Path) (m : Mode) : Except Errno FileTree :=
  match t.lstat p with
  | .ok (.dir _) => .ok t
  | .ok _ => .error .exists
  | .error _ => t.add p (.dir m)

/-- Opening for writing with `O_CREAT` and `O_TRUNC`. -/
def create (t : FileTree) (p : Path) (m : Mode) : Except Errno FileTree :=
  match t.lstat p with
  | .ok (.file m' _) => if m'.canWrite then .ok (t.insert p (.file m' [])) else .error .accessDenied
  | .ok (.dir _) => .error .isADirectory
  | .ok (.symlink _) => .error .invalid
  | .error _ => t.add p (.file m [])

/-- Writing through a descriptor: no check, and no effect on a name that is gone. -/
def write (t : FileTree) (p : Path) (bytes : Bytes) : FileTree :=
  match t.get p with
  | some (.file m _) => t.insert p (.file m bytes)
  | _ => t

def chmod (t : FileTree) (p : Path) (m : Mode) : Except Errno FileTree :=
  match t.lstat p with
  | .error e => .error e
  | .ok (.file _ bytes) => .ok (t.insert p (.file m bytes))
  | .ok (.dir _) => .ok (t.insert p (.dir m))
  | .ok (.symlink _) => .error .invalid

def unlink (t : FileTree) (p : Path) : Except Errno FileTree :=
  match t.lstat p, t.mayChange p with
  | .error e, _ => .error e
  | .ok (.dir _), _ => .error .isADirectory
  | _, .error e => .error e
  | _, .ok _ => .ok (t.prune p)

def rmdir (t : FileTree) (p : Path) : Except Errno FileTree :=
  match t.lstat p, t.mayChange p with
  | .error e, _ => .error e
  | .ok (.dir _), .ok _ => if t.names p = [] then .ok (t.prune p) else .error .notEmpty
  | .ok (.dir _), .error e => .error e
  | .ok _, _ => .error .notADirectory

/-- Whether `rename` may put the entry `i` over what the target name holds. -/
def replaceable (t : FileTree) (q : Path) (i : Inode) : Except Errno Unit :=
  match i, t.get q with
  | _, none => .ok ()
  | .dir _, some (.dir _) => if t.names q = [] then .ok () else .error .notEmpty
  | .dir _, some _ => .error .notADirectory
  | _, some (.dir _) => .error .isADirectory
  | _, some _ => .ok ()

/-- `rename` between two trees of one file system. -/
def rename (t : FileTree) (p : Path) (u : FileTree) (q : Path) :
    Except Errno (FileTree × FileTree) :=
  match t.lstat p, t.mayChange p, u.mayChange q with
  | .error e, _, _ => .error e
  | .ok _, .error e, _ => .error e
  | .ok _, .ok _, .error e => .error e
  | .ok i, .ok _, .ok _ =>
    if !i.movable then .error .accessDenied else
    match u.replaceable q i with
    | .error e => .error e
    | .ok _ => .ok (t.prune p, t.moved p q ++ u.prune q)

end FileTree

end Silo.Workspace

namespace Silo.Workspace.FileTree

variable {t u : FileTree} {p q r x : Path} {i : Inode} {n : Name} {m : Mode}

@[simp] theorem get_insert : (t.insert p i).get x = if p = x then some i else t.get x := rfl

theorem get_insert_self : (t.insert p i).get p = some i := by simp

theorem get_insert_of_ne (h : p ≠ x) : (t.insert p i).get x = t.get x := by simp [h]

theorem get_append : (t ++ u).get x = (t.get x).or (u.get x) := by
  induction t with
  | nil => rfl
  | cons e t ih =>
      obtain ⟨q, i⟩ := e
      rw [List.cons_append, get, get]
      split
      · rfl
      · exact ih

theorem get_filter (f : Path → Bool) :
    (FileTree.get (t.filter fun e => f e.1) x) = if f x then t.get x else none := by
  induction t with
  | nil => simp [get]
  | cons e t ih =>
      obtain ⟨q, i⟩ := e
      by_cases hq : f q
      · rw [List.filter_cons_of_pos (by simpa using hq), get, get, ih]
        by_cases hx : q = x
        · subst hx
          simp [hq]
        · simp [hx]
      · rw [List.filter_cons_of_neg (by simpa using hq), ih, get]
        by_cases hx : q = x
        · subst hx
          simp [hq]
        · simp [hx]

theorem get_prune : (t.prune p).get x = if p <:+ x then none else t.get x := by
  have h := get_filter (t := t) (x := x) fun q => ¬ p <:+ q
  rw [prune, h]
  by_cases hx : p <:+ x <;> simp [hx]

theorem get_prune_of_not (h : ¬ p <:+ x) : (t.prune p).get x = t.get x := by
  rw [get_prune, if_neg h]

theorem rebase_append : rebase p q (r ++ p) = r ++ q := by
  simp [rebase]

theorem get_moved_below : (t.moved p q).get (r ++ q) = t.get (r ++ p) := by
  induction t with
  | nil => rfl
  | cons e t ih =>
      obtain ⟨y, i⟩ := e
      rw [moved] at ih ⊢
      by_cases hy : p <:+ y
      · obtain ⟨z, rfl⟩ := hy
        rw [List.filter_cons_of_pos (by simp), List.map_cons, get, get, ih, rebase_append]
        simp
      · rw [List.filter_cons_of_neg (by simpa using hy), ih, get, if_neg]
        rintro rfl
        exact hy (List.suffix_append r p)

theorem get_moved_of_not (h : ¬ q <:+ x) : (t.moved p q).get x = none := by
  induction t with
  | nil => rfl
  | cons e t ih =>
      obtain ⟨y, i⟩ := e
      rw [moved] at ih ⊢
      by_cases hy : p <:+ y
      · obtain ⟨z, rfl⟩ := hy
        rw [List.filter_cons_of_pos (by simp), List.map_cons, get, ih, rebase_append, if_neg]
        rintro rfl
        exact h (List.suffix_append z q)
      · rw [List.filter_cons_of_neg (by simpa using hy), ih]

theorem mem_of_get (h : t.get p = some i) : (p, i) ∈ t := by
  induction t with
  | nil => cases h
  | cons e t ih =>
      obtain ⟨q, j⟩ := e
      rw [get] at h
      split at h
      · rename_i hq
        cases h
        exact hq ▸ List.mem_cons_self
      · exact List.mem_cons_of_mem _ (ih h)

theorem get_isSome_of_mem (h : (p, i) ∈ t) : (t.get p).isSome = true := by
  induction t with
  | nil => cases h
  | cons e t ih =>
      obtain ⟨q, j⟩ := e
      rw [get]
      split
      · rfl
      · rename_i hq
        rcases List.mem_cons.mp h with he | he
        · cases he
          exact absurd rfl hq
        · exact ih he

theorem mem_names : n ∈ t.names p ↔ t.get (n :: p) ≠ none := by
  have hc : ∀ q : Path, childOf p q = some n ↔ q = n :: p := by
    intro q
    cases q with
    | nil => simp [childOf]
    | cons k q =>
        by_cases hq : q = p
        · simp [childOf, hq]
        · simp [childOf, hq]
  simp only [names, List.mem_dedup, List.mem_filterMap, hc]
  constructor
  · rintro ⟨⟨_, i⟩, he, rfl⟩ hnone
    have := get_isSome_of_mem he
    rw [hnone] at this
    cases this
  · intro h
    obtain ⟨i, hi⟩ := Option.ne_none_iff_exists'.mp h
    exact ⟨_, mem_of_get hi, rfl⟩

theorem names_nodup : (t.names p).Nodup := List.nodup_dedup _

theorem names_eq_nil : t.names p = [] ↔ ∀ n, t.get (n :: p) = none := by
  rw [List.eq_nil_iff_forall_not_mem]
  exact forall_congr' fun n => by rw [mem_names, not_not]

/-- A file system: the root is a directory, every entry is in a directory, and the
owner can read all of it. -/
structure Sound (t : FileTree) : Prop where
  root : ∃ m, t.get [] = some (.dir m)
  closed : ∀ n p, t.get (n :: p) ≠ none → ∃ m, t.get p = some (.dir m)
  file : ∀ p m bytes, t.get p = some (.file m bytes) → m.canRead = true
  dir : ∀ p m, t.get p = some (.dir m) → m.canRead = true ∧ m.canSearch = true

theorem Sound.none_below (h : t.Sound) (hp : t.get p = none) (r : Path) : t.get (r ++ p) = none := by
  induction r with
  | nil => exact hp
  | cons n r ih =>
      by_contra hne
      obtain ⟨m, hm⟩ := h.closed n (r ++ p) hne
      rw [ih] at hm
      cases hm

theorem reach_cons (h : t.reach p = .ok ()) (hp : t.get p = some (.dir m)) (hm : m.canSearch = true)
    (n : Name) : t.reach (n :: p) = .ok () := by
  rw [reach, h, hp]
  simp [hm]

theorem Sound.reach_of_get (h : t.Sound) (hp : t.get p ≠ none) : t.reach p = .ok () := by
  induction p with
  | nil => rfl
  | cons n p ih =>
      obtain ⟨m, hm⟩ := h.closed n p hp
      refine reach_cons (ih ?_) hm (h.dir p m hm).2 n
      rw [hm]
      exact Option.some_ne_none _

theorem lstat_of_reach (h : t.reach p = .ok ()) (hi : t.get p = some i) : t.lstat p = .ok i := by
  rw [lstat, h, hi]

theorem Sound.lstat (h : t.Sound) (hi : t.get p = some i) : t.lstat p = .ok i :=
  lstat_of_reach (h.reach_of_get (by rw [hi]; exact Option.some_ne_none _)) hi

theorem Sound.readDir (h : t.Sound) (hm : t.get p = some (.dir m)) :
    t.readDir p = .ok (t.names p) := by
  rw [FileTree.readDir, h.lstat hm]
  simp [(h.dir p m hm).1]

theorem Sound.openRead (h : t.Sound) {bytes : Bytes} (hf : t.get p = some (.file m bytes)) :
    t.openRead p = .ok (m, bytes) := by
  rw [FileTree.openRead, h.lstat hf]
  simp [h.file p m bytes hf]

theorem Sound.readLink (h : t.Sound) {target : OsStr} (hl : t.get p = some (.symlink target)) :
    t.readLink p = .ok target := by
  rw [FileTree.readLink, h.lstat hl]

theorem mayChange_of (hr : t.reach p = .ok ()) (hw : t.writable p = true) : t.mayChange p = .ok () := by
  rw [mayChange, hr]
  simp [hw]

theorem mayChange_cons (hr : t.reach p = .ok ()) (hp : t.get p = some (.dir m))
    (hw : m.canWrite = true) (hs : m.canSearch = true) (n : Name) :
    t.mayChange (n :: p) = .ok () := by
  apply mayChange_of (reach_cons hr hp hs n)
  rw [writable, hp]
  exact hw

theorem add_of_none (hp : t.get p = none) (ha : t.mayChange p = .ok ()) :
    t.add p i = .ok (t.insert p i) := by
  rw [add, hp, ha]

end Silo.Workspace.FileTree
