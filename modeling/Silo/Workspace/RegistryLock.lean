import Silo.Lib.Machine

namespace Silo.Workspace.RegistryLock

open Silo.Lib

/-- Identity stored in the lock file. The pid alone can be recycled; with the
start-time hint it names one process, and processes are indexed by it here. -/
structure LockHolder where
  pid : Nat
  startHint : String
  deriving DecidableEq, Repr

/-- What a read of the lock file returns: a complete record, or the first
bytes of one, which do not parse. -/
inductive Contents
  | truncated (written : Nat)
  | record (holder : LockHolder)
  deriving DecidableEq, Repr

/-- `inode` and `creator` are invisible to the code. They tell apart two files
that bore the lock file's name one after the other. -/
structure LockFile where
  inode : Nat
  creator : LockHolder
  contents : Contents
  deriving DecidableEq, Repr

/-- Where a process stands in `acquire_lock_with` (with the attempts it has
left), in the `remove_if_stale` it calls, or with the lock in its hands. -/
inductive Pc
  | idle
  | opening (left : Nat)
  | writing (inode : Nat)
  | reading (left : Nat)
  | judging (left : Nat) (seen : LockFile)
  | rereading (left : Nat) (seen : LockFile)
  | removing (left : Nat) (seen : LockFile)
  | holding (inode : Nat)
  deriving DecidableEq, Repr

structure Proc where
  alive : Bool
  pc : Pc

structure State where
  file : Option LockFile
  inodes : Nat
  procs : LockHolder → Proc

/-- The choices of one step: what the process does next, whether the operation
fails, how much of the record has reached the disk, and the age check of an
unreadable file, which depends on the wall clock alone. -/
inductive Act
  | acquire (attempts : Nat)
  | run
  | ioError
  | writeSome (written : Nat)
  | age (old : Bool)
  | die
  deriving DecidableEq, Repr

def State.goto (s : State) (p : LockHolder) (pc : Pc) : State :=
  { s with procs := Function.update s.procs p { s.procs p with pc := pc } }

def State.kill (s : State) (p : LockHolder) : State :=
  { s with procs := Function.update s.procs p { s.procs p with alive := false } }

def State.create (s : State) (p : LockHolder) : State :=
  { s with file := some ⟨s.inodes, p, .truncated 0⟩, inodes := s.inodes + 1 }

/-- A write goes to the file that was opened, which may no longer be the one
under the lock file's name. -/
def State.write (s : State) (inode : Nat) (contents : Contents) : State :=
  { s with file := s.file.map fun f => if f.inode = inode then { f with contents := contents } else f }

def State.remove (s : State) : State := { s with file := none }

def retry (left : Nat) : Pc := if left ≤ 1 then .idle else .opening (left - 1)

def next (s : State) : LockHolder × Act → Option State
  | (p, act) =>
    if (s.procs p).alive = false then none else
    match (s.procs p).pc, act with
    | _, .die => some (s.kill p)
    | .idle, .acquire attempts => some (if attempts = 0 then s else s.goto p (.opening attempts))
    | .opening left, .run =>
      match s.file with
      | none => some ((s.create p).goto p (.writing s.inodes))
      | some _ => some (s.goto p (.reading left))
    | .opening _, .ioError => some (s.goto p .idle)
    | .writing inode, .writeSome written => some (s.write inode (.truncated written))
    | .writing inode, .run => some ((s.write inode (.record p)).goto p (.holding inode))
    | .writing inode, .ioError => some (s.goto p (.holding inode))
    | .reading left, .run =>
      match s.file with
      | none => some (s.goto p (retry left))
      | some f => some (s.goto p (.judging left f))
    | .reading left, .ioError => some (s.goto p (retry left))
    | .judging left seen, .run =>
      match seen.contents with
      | .record holder =>
        some (s.goto p (if (s.procs holder).alive then retry left else .rereading left seen))
      | .truncated _ => none
    | .judging left seen, .age old =>
      match seen.contents with
      | .truncated _ => some (s.goto p (if old then .rereading left seen else retry left))
      | .record _ => none
    | .rereading left seen, .run =>
      some (s.goto p (if s.file.any (fun f => f.contents = seen.contents)
        then .removing left seen else retry left))
    | .rereading left _, .ioError => some (s.goto p (retry left))
    | .removing left _, .run => some (s.remove.goto p (retry left))
    | .removing left _, .ioError => some (s.goto p (retry left))
    | .holding _, .run => some (s.remove.goto p .idle)
    | .holding _, .ioError => some (s.goto p .idle)
    | _, _ => none

/-- No lock file and every live process outside `acquire_lock`. -/
def initial (s : State) : Prop := s.file = none ∧ ∀ p, (s.procs p).pc = .idle

def machine : Machine State (LockHolder × Act) := ⟨initial, next⟩

/-- The process has created the lock file and not dropped its `RegistryLock`. -/
def Pc.Owns : Pc → Nat → Prop
  | .writing i, j | .holding i, j => i = j
  | _, _ => False

def State.Holds (s : State) (p : LockHolder) : Prop :=
  (s.procs p).alive = true ∧ ∃ inode, (s.procs p).pc = .holding inode

def MutualExclusion (s : State) : Prop := ∀ p q, s.Holds p → s.Holds q → p = q

/-- While its holder lives, a `RegistryLock`'s file stays under the lock file's
name. -/
def KeepsFile (s : State) : Prop :=
  ∀ p inode, (s.procs p).alive = true → (s.procs p).pc = .holding inode →
    ∃ f, s.file = some f ∧ f.inode = inode

/-- The step is not one of the two that break a live lock: removing another
file than the one found stale, and taking an unreadable file for stale by its
age while its creator lives. -/
def breaksNoLiveLock (s : State) : LockHolder × Act → Bool
  | (p, act) =>
    match (s.procs p).pc, act with
    | .removing _ seen, .run => s.file.all fun f => f.inode = seen.inode
    | .judging _ seen, .age true => !(s.procs seen.creator).alive
    | _, _ => true

def Pc.Saw : Pc → LockFile → Prop
  | .judging _ g, f | .rereading _ g, f | .removing _ g, f => g = f
  | _, _ => False

def Pc.Condemned : Pc → LockFile → Prop
  | .rereading _ g, f | .removing _ g, f => g = f
  | _, _ => False

/-- A step that leaves the lock file alone. The process owns no more than
before, acts on a file it saw or just read, and condemns one only with a verdict. -/
structure Moves (s : State) (p : LockHolder) (act : Act) (pc : Pc) : Prop where
  owns : ∀ i, pc.Owns i → (s.procs p).pc.Owns i
  saw : ∀ f, pc.Saw f → (s.procs p).pc.Saw f ∨ s.file = some f
  condemned : ∀ f, pc.Condemned f → (s.procs p).pc.Condemned f ∨
    ((s.procs p).pc.Saw f ∧ ∃ h, f.contents = .record h ∧ (s.procs h).alive = false) ∨
    ∃ left, (s.procs p).pc = .judging left f ∧ act = .age true

inductive Step (s : State) (p : LockHolder) : Act → State → Prop
  | kill : Step s p .die (s.kill p)
  | stay (act : Act) : Step s p act s
  | move {act : Act} {pc : Pc} : Moves s p act pc → Step s p act (s.goto p pc)
  | create : s.file = none → Step s p .run ((s.create p).goto p (.writing s.inodes))
  | writeSome {inode : Nat} (written : Nat) : (s.procs p).pc = .writing inode →
      Step s p (.writeSome written) (s.write inode (.truncated written))
  | write {inode : Nat} : (s.procs p).pc = .writing inode →
      Step s p .run ((s.write inode (.record p)).goto p (.holding inode))
  | removeStale {left : Nat} {seen : LockFile} : (s.procs p).pc = .removing left seen →
      Step s p .run (s.remove.goto p (retry left))
  | drop {inode : Nat} : (s.procs p).pc = .holding inode →
      Step s p .run (s.remove.goto p .idle)

theorem retry_cases (left : Nat) : retry left = .idle ∨ ∃ n, retry left = .opening n := by
  rw [retry]
  split
  · exact .inl rfl
  · exact .inr ⟨_, rfl⟩

theorem moves_retry (s : State) (p : LockHolder) (act : Act) (left : Nat) :
    Moves s p act (retry left) := by
  rcases retry_cases left with h | ⟨n, h⟩ <;> rw [h] <;>
    exact ⟨fun _ h => h.elim, fun _ h => h.elim, fun _ h => h.elim⟩

theorem step_of_next {s t : State} {p : LockHolder} {act : Act} (h : next s (p, act) = some t) :
    (s.procs p).alive = true ∧ Step s p act t := by
  simp only [next] at h
  split at h
  · cases h
  · rename_i halive
    refine ⟨by simpa using halive, ?_⟩
    split at h
    case h_1 => cases h; exact .kill
    case h_2 =>
      split at h <;> cases h
      · exact .stay _
      · exact .move ⟨fun _ h => h.elim, fun _ h => h.elim, fun _ h => h.elim⟩
    case h_3 =>
      split at h
      · cases h; exact .create ‹_›
      · cases h; exact .move ⟨fun _ h => h.elim, fun _ h => h.elim, fun _ h => h.elim⟩
    case h_4 => cases h; exact .move ⟨fun _ h => h.elim, fun _ h => h.elim, fun _ h => h.elim⟩
    case h_5 inode written hpc => cases h; exact .writeSome _ hpc
    case h_6 inode hpc => cases h; exact .write hpc
    case h_7 inode hpc =>
      cases h
      exact .move ⟨fun _ h => by rw [hpc]; exact h, fun _ h => h.elim, fun _ h => h.elim⟩
    case h_8 =>
      split at h <;> cases h
      · exact .move (moves_retry s p _ _)
      · rename_i f hf
        exact .move ⟨fun _ h => h.elim, fun g hg => .inr (by rw [← show f = g from hg]; exact hf),
          fun _ h => h.elim⟩
    case h_9 => cases h; exact .move (moves_retry s p _ _)
    case h_10 left seen hpc =>
      split at h
      · rename_i holder hseen
        cases h
        split
        · exact .move (moves_retry s p _ _)
        · rename_i hdead
          refine .move ⟨fun _ h => h.elim, fun g hg => .inl (by rw [hpc]; exact hg), fun g hg => .inr (.inl ?_)⟩
          obtain rfl : seen = g := hg
          exact ⟨by rw [hpc]; exact rfl, holder, hseen, by simpa using hdead⟩
      · cases h
    case h_11 left seen old hpc =>
      split at h
      · cases h
        split
        · rename_i hold
          refine .move ⟨fun _ h => h.elim, fun g hg => .inl (by rw [hpc]; exact hg), fun g hg => .inr (.inr ?_)⟩
          obtain rfl : seen = g := hg
          exact ⟨left, hpc, by rw [hold]⟩
        · exact .move (moves_retry s p _ _)
      · cases h
    case h_12 left seen hpc =>
      cases h
      split
      · exact .move ⟨fun _ h => h.elim, fun g hg => .inl (by rw [hpc]; exact hg),
          fun g hg => .inl (by rw [hpc]; exact hg)⟩
      · exact .move (moves_retry s p _ _)
    case h_13 => cases h; exact .move (moves_retry s p _ _)
    case h_14 left seen hpc => cases h; exact .removeStale hpc
    case h_15 => cases h; exact .move (moves_retry s p _ _)
    case h_16 inode hpc => cases h; exact .drop hpc
    case h_17 => cases h; exact .move ⟨fun _ h => h.elim, fun _ h => h.elim, fun _ h => h.elim⟩
    case h_18 => cases h

def LockFile.Honest (f : LockFile) : Prop := ∀ h, f.contents = .record h → h = f.creator

structure Inv (s : State) : Prop where
  owned : ∀ p i, (s.procs p).alive = true → (s.procs p).pc.Owns i →
    ∃ f, s.file = some f ∧ f.inode = i ∧ f.creator = p
  fresh : ∀ f, s.file = some f → f.inode < s.inodes
  honest : ∀ f, s.file = some f → f.Honest
  seen : ∀ p f, (s.procs p).pc.Saw f → f.inode < s.inodes ∧ f.Honest ∧
    ∀ g, s.file = some g → g.inode = f.inode → g.creator = f.creator
  condemned : ∀ p f, (s.procs p).pc.Condemned f → (s.procs f.creator).alive = false

theorem inv_initial {s : State} (h : initial s) : Inv s := by
  obtain ⟨hfile, hidle⟩ := h
  constructor
  · intro p i _ ho; rw [hidle] at ho; exact ho.elim
  · intro f hf; rw [hfile] at hf; cases hf
  · intro f hf; rw [hfile] at hf; cases hf
  · intro p f hs; rw [hidle] at hs; exact hs.elim
  · intro p f hc; rw [hidle] at hc; exact hc.elim

@[simp] theorem goto_alive (s : State) (p q : LockHolder) (pc : Pc) :
    ((s.goto p pc).procs q).alive = (s.procs q).alive := by
  by_cases h : q = p
  · subst h; simp [State.goto]
  · simp [State.goto, h]

@[simp] theorem goto_pc_self (s : State) (p : LockHolder) (pc : Pc) :
    ((s.goto p pc).procs p).pc = pc := by
  simp [State.goto]

theorem goto_pc_of_ne (s : State) {p q : LockHolder} (pc : Pc) (h : q ≠ p) :
    ((s.goto p pc).procs q).pc = (s.procs q).pc := by
  simp [State.goto, h]

theorem kill_pc (s : State) (p q : LockHolder) : ((s.kill p).procs q).pc = (s.procs q).pc := by
  by_cases h : q = p
  · subst h; simp [State.kill]
  · simp [State.kill, h]

theorem alive_of_kill {s : State} {p q : LockHolder} (h : ((s.kill p).procs q).alive = true) :
    (s.procs q).alive = true := by
  by_cases hq : q = p
  · subst hq; simp [State.kill] at h
  · simpa [State.kill, hq] using h

theorem inv_kill {s : State} (h : Inv s) (p : LockHolder) : Inv (s.kill p) where
  owned q i ha ho := h.owned q i (alive_of_kill ha) (by rwa [kill_pc] at ho)
  fresh := h.fresh
  honest := h.honest
  seen q f hs := h.seen q f (by rwa [kill_pc] at hs)
  condemned q f hc := by
    have hdead := h.condemned q f (by rwa [kill_pc] at hc)
    cases ha : ((s.kill p).procs f.creator).alive with
    | false => rfl
    | true => rw [alive_of_kill ha] at hdead; cases hdead

/-- A step that leaves the file alone keeps the invariant, given that the age
rule condemns only files of dead creators. -/
theorem inv_move {s : State} (h : Inv s) {p : LockHolder} {act : Act} {pc : Pc}
    (hm : Moves s p act pc) (hok : breaksNoLiveLock s (p, act) = true) : Inv (s.goto p pc) := by
  constructor
  · intro q i ha ho
    rw [goto_alive] at ha
    by_cases hq : q = p
    · subst hq
      rw [goto_pc_self] at ho
      exact h.owned q i ha (hm.owns i ho)
    · rw [goto_pc_of_ne _ _ hq] at ho
      exact h.owned q i ha ho
  · exact h.fresh
  · exact h.honest
  · intro q f hs
    by_cases hq : q = p
    · subst hq
      rw [goto_pc_self] at hs
      rcases hm.saw f hs with hs | hf
      · exact h.seen q f hs
      · refine ⟨h.fresh f hf, h.honest f hf, fun g hg _ => ?_⟩
        have hg : s.file = some g := hg
        rw [hf] at hg
        rw [Option.some.inj hg]
    · rw [goto_pc_of_ne _ _ hq] at hs
      exact h.seen q f hs
  · intro q f hc
    rw [goto_alive]
    by_cases hq : q = p
    · subst hq
      rw [goto_pc_self] at hc
      rcases hm.condemned f hc with hc | ⟨hs, holder, hrec, hdead⟩ | ⟨left, hpc, hact⟩
      · exact h.condemned q f hc
      · rw [← (h.seen q f hs).2.1 holder hrec]
        exact hdead
      · simpa [breaksNoLiveLock, hpc, hact] using hok
    · rw [goto_pc_of_ne _ _ hq] at hc
      exact h.condemned q f hc

theorem inv_create {s : State} (h : Inv s) (p : LockHolder) (hnone : s.file = none) :
    Inv ((s.create p).goto p (.writing s.inodes)) := by
  -- The new inode is above every inode seen so far, so no process acts on it.
  have hold : ∀ q f, (s.procs q).pc.Saw f → f.inode < s.inodes + 1 ∧ f.Honest ∧
      ∀ g, (s.create p).file = some g → g.inode = f.inode → g.creator = f.creator := by
    intro q f hs
    obtain ⟨hlt, hh, -⟩ := h.seen q f hs
    refine ⟨by omega, hh, ?_⟩
    intro g hg hi
    cases hg
    simp only at hi
    omega
  constructor
  · intro q i ha ho
    rw [goto_alive] at ha
    by_cases hq : q = p
    · subst hq
      rw [goto_pc_self] at ho
      exact ⟨_, rfl, ho, rfl⟩
    · rw [goto_pc_of_ne _ _ hq] at ho
      obtain ⟨f, hf, -⟩ := h.owned q i ha ho
      rw [hnone] at hf
      cases hf
  · intro f hf
    cases hf
    exact Nat.lt_succ_self _
  · intro f hf holder hrec
    cases hf
    cases hrec
  · intro q f hs
    by_cases hq : q = p
    · subst hq; rw [goto_pc_self] at hs; exact hs.elim
    · rw [goto_pc_of_ne _ _ hq] at hs; exact hold q f hs
  · intro q f hc
    rw [goto_alive]
    by_cases hq : q = p
    · subst hq; rw [goto_pc_self] at hc; exact hc.elim
    · rw [goto_pc_of_ne _ _ hq] at hc; exact h.condemned q f hc

theorem write_file {s : State} {i : Nat} {c : Contents} {f : LockFile}
    (hf : (s.write i c).file = some f) :
    ∃ g, s.file = some g ∧ f.inode = g.inode ∧ f.creator = g.creator ∧
      (f.contents = g.contents ∨ g.inode = i ∧ f.contents = c) := by
  obtain ⟨g, hg, rfl⟩ := Option.map_eq_some_iff.mp hf
  refine ⟨g, hg, ?_⟩
  split
  · exact ⟨rfl, rfl, .inr ⟨‹_›, rfl⟩⟩
  · exact ⟨rfl, rfl, .inl rfl⟩

theorem inv_write {s : State} (h : Inv s) {p : LockHolder} {i : Nat} {c : Contents}
    (ha : (s.procs p).alive = true) (hpc : (s.procs p).pc = .writing i)
    (hc : ∀ holder, c = .record holder → holder = p) : Inv (s.write i c) where
  owned q j hq ho := by
    obtain ⟨f, hf, hi, hcr⟩ := h.owned q j hq ho
    refine ⟨if f.inode = i then { f with contents := c } else f, ?_, ?_, ?_⟩
    · simp [State.write, hf]
    · split <;> exact hi
    · split <;> exact hcr
  fresh f hf := by
    obtain ⟨g, hg, hi, -, -⟩ := write_file hf
    rw [hi]
    exact h.fresh g hg
  honest f hf holder hrec := by
    obtain ⟨g, hg, -, hcr, hcon | ⟨hi, hcon⟩⟩ := write_file hf
    · rw [hcr]
      exact h.honest g hg holder (hcon ▸ hrec)
    · -- the file being written is the writer's own
      obtain ⟨f', hf', hi', hcr'⟩ := h.owned p i ha (by rw [hpc]; exact rfl)
      rw [hg] at hf'
      cases hf'
      rw [hcr, hcr']
      exact hc holder (hcon ▸ hrec)
  seen q f hs := by
    obtain ⟨hlt, hh, hsame⟩ := h.seen q f hs
    refine ⟨hlt, hh, ?_⟩
    intro g hg hi
    obtain ⟨g', hg', hi', hcr, -⟩ := write_file hg
    rw [hcr]
    exact hsame g' hg' (hi' ▸ hi)
  condemned := h.condemned

/-- Removing the file keeps the invariant when no live process owns it. -/
theorem inv_remove {s : State} (h : Inv s)
    (hnone : ∀ q i, (s.procs q).alive = true → ¬ (s.procs q).pc.Owns i) : Inv s.remove where
  owned q i ha ho := (hnone q i ha ho).elim
  fresh f hf := by cases hf
  honest f hf := by cases hf
  seen q f hs := by
    obtain ⟨hlt, hh, -⟩ := h.seen q f hs
    exact ⟨hlt, hh, fun g hg => by cases hg⟩
  condemned := h.condemned

theorem moves_idle (s : State) (p : LockHolder) (act : Act) : Moves s p act .idle :=
  ⟨fun _ h => h.elim, fun _ h => h.elim, fun _ h => h.elim⟩

theorem owner_unique {s : State} (h : Inv s) {p q : LockHolder} {i j : Nat}
    (hp : (s.procs p).alive = true) (hpo : (s.procs p).pc.Owns i)
    (hq : (s.procs q).alive = true) (hqo : (s.procs q).pc.Owns j) : p = q := by
  obtain ⟨f, hf, -, rfl⟩ := h.owned p i hp hpo
  obtain ⟨g, hg, -, rfl⟩ := h.owned q j hq hqo
  rw [hf] at hg
  rw [Option.some.inj hg]

theorem inv_step {s t : State} {l : LockHolder × Act} (h : Inv s)
    (hok : breaksNoLiveLock s l = true) (hn : next s l = some t) : Inv t := by
  obtain ⟨p, act⟩ := l
  obtain ⟨ha, hstep⟩ := step_of_next hn
  cases hstep with
  | kill => exact inv_kill h p
  | stay => exact h
  | move hm => exact inv_move h hm hok
  | create hnone => exact inv_create h p hnone
  | writeSome written hpc => exact inv_write h ha hpc (by intro _ hc; cases hc)
  | @write inode hpc =>
      have hw := inv_write h ha hpc (c := .record p) (by intro _ hc; cases hc; rfl)
      have hpc' : ((s.write inode (.record p)).procs p).pc = .writing inode := hpc
      have hm : Moves (s.write inode (.record p)) p .run (.holding inode) :=
        ⟨fun i hi => by rw [hpc']; exact hi, fun _ h => h.elim, fun _ h => h.elim⟩
      exact inv_move hw hm (by simp [breaksNoLiveLock, hpc'])
  | removeStale hpc =>
      -- The file is still the condemned one, so its creator is dead.
      have hr : Inv s.remove := by
        apply inv_remove h
        intro q i hq ho
        obtain ⟨f, hf, -, rfl⟩ := h.owned q i hq ho
        have hsame := hok
        simp only [breaksNoLiveLock, hpc, hf, Option.all_some, decide_eq_true_eq] at hsame
        rw [(h.seen p _ (by rw [hpc]; exact rfl)).2.2 f hf hsame,
          h.condemned p _ (by rw [hpc]; exact rfl)] at hq
        cases hq
      apply inv_move hr (moves_retry _ p .run _)
      have hpc' : (s.remove.procs p).pc = _ := hpc
      simp only [breaksNoLiveLock, hpc']
      rfl
  | drop hpc =>
      have hidle : Inv (s.goto p .idle) := inv_move h (moves_idle s p .run) hok
      apply inv_remove hidle
      intro q i hq ho
      rw [goto_alive] at hq
      by_cases hqp : q = p
      · subst hqp; rw [goto_pc_self] at ho; exact ho
      · rw [goto_pc_of_ne _ _ hqp] at ho
        exact hqp (owner_unique h hq ho ha (by rw [hpc]; exact rfl))

theorem inv_reachable {s : State}
    (h : machine.ReachableUnder (fun s l => breaksNoLiveLock s l = true) s) : Inv s :=
  h.invariant inv_initial inv_step

/-- As long as no breaker removes another file than the one it found stale,
and no live process leaves an unreadable file for a minute, the registry lock
excludes and only its holder removes it. -/
theorem registry_lock_excludes {s : State}
    (h : machine.ReachableUnder (fun s l => breaksNoLiveLock s l = true) s) :
    MutualExclusion s ∧ KeepsFile s := by
  have hi := inv_reachable h
  constructor
  · intro p q ⟨hp, i, hpi⟩ ⟨hq, j, hqj⟩
    exact owner_unique hi hp (by rw [hpi]; exact rfl) hq (by rw [hqj]; exact rfl)
  · intro p i ha hpc
    obtain ⟨f, hf, hi, -⟩ := hi.owned p i ha (by rw [hpc]; exact rfl)
    exact ⟨f, hf, hi⟩

def cold : State := ⟨none, 0, fun _ => ⟨true, .idle⟩⟩

theorem cold_initial : machine.init cold := ⟨rfl, fun _ => rfl⟩

def State.holdsNow (s : State) (p : LockHolder) : Bool :=
  (s.procs p).alive && match (s.procs p).pc with
    | .holding _ => true
    | _ => false

theorem holds_of_holdsNow {s : State} {p : LockHolder} (h : s.holdsNow p = true) : s.Holds p := by
  simp only [State.holdsNow, Bool.and_eq_true] at h
  obtain ⟨ha, hp⟩ := h
  split at hp
  · exact ⟨ha, _, ‹_›⟩
  · cases hp

def crashed : LockHolder := ⟨100, "10:00"⟩
def breaker : LockHolder := ⟨200, "10:01"⟩
def rival : LockHolder := ⟨300, "10:02"⟩

/-- `crashed` dies with the lock; a waiter breaks the stale lock alone. -/
def breakAlone : List (LockHolder × Act) :=
  [(crashed, .acquire 600), (crashed, .run), (crashed, .run), (crashed, .die),
   (breaker, .acquire 600), (breaker, .run), (breaker, .run), (breaker, .run), (breaker, .run),
   (breaker, .run), (breaker, .run), (breaker, .run)]

theorem registry_lock_excludes_break_alone :
    ∃ s, machine.ReachableUnder (fun s l => breaksNoLiveLock s l = true) s ∧ s.Holds breaker ∧
      MutualExclusion s ∧ KeepsFile s := by
  obtain ⟨s, hr, hp⟩ := Machine.exists_of_runChecked breaksNoLiveLock breakAlone
    (fun s => s.holdsNow breaker) cold_initial (by decide)
  exact ⟨s, hr, holds_of_holdsNow hp, registry_lock_excludes hr⟩

/-- Two waiters find the same dead holder. `rival` breaks the lock and takes
it between the second read and the removal of `breaker`. -/
def breakTwice : List (LockHolder × Act) :=
  [(crashed, .acquire 600), (crashed, .run), (crashed, .run), (crashed, .die),
   (breaker, .acquire 600), (breaker, .run), (breaker, .run), (breaker, .run), (breaker, .run),
   (rival, .acquire 600), (rival, .run), (rival, .run), (rival, .run), (rival, .run), (rival, .run),
   (rival, .run), (rival, .run),
   (breaker, .run), (breaker, .run), (breaker, .run)]

theorem registry_lock_broken_twice :
    ¬ ∀ s, machine.Reachable s → MutualExclusion s ∧ KeepsFile s := by
  intro hall
  obtain ⟨s, hr, hp⟩ := Machine.exists_of_run breakTwice
    (fun s => s.holdsNow breaker && s.holdsNow rival) cold_initial (by decide)
  simp only [Bool.and_eq_true] at hp
  have heq := (hall s hr).1 _ _ (holds_of_holdsNow hp.1) (holds_of_holdsNow hp.2)
  exact absurd heq (by decide)

end Silo.Workspace.RegistryLock
