import Silo.Lib.Crash
import Silo.Workspace.Strategy
import Silo.Workspace.TreeChanges

namespace Silo.Workspace

open Silo.Lib

variable {cfg : Config} {F : Prog.Faults FsOp World} {w w' w'' : World} {α : Type} {I : World → Prop}

/-- `w'` differs from `w` in the tree at `pl` at most. -/
structure SameBut (pl : Place) (w w' : World) : Prop where
  others : ∀ pl', pl' ≠ pl → w'.tree pl' = w.tree pl'
  registry : w'.registry = w.registry
  mounted : ∀ id, (w'.containers id).mounted = (w.containers id).mounted
  volume : ∀ id s, pl ≠ .mnt id → (w'.containers id).volume s = (w.containers id).volume s

namespace SameBut

variable {pl pl' : Place} {t : FileTree}

theorem refl (pl : Place) (w : World) : SameBut pl w w := ⟨fun _ _ => rfl, rfl, fun _ => rfl, fun _ _ _ => rfl⟩

theorem trans (h : SameBut pl w w') (h' : SameBut pl w' w'') : SameBut pl w w'' :=
  ⟨fun pl' hne => (h'.others pl' hne).trans (h.others pl' hne), h'.registry.trans h.registry,
    fun id => (h'.mounted id).trans (h.mounted id), fun id s hne => (h'.volume id s hne).trans (h.volume id s hne)⟩

theorem setTree (w : World) (t : FileTree) (pl : Place) : SameBut pl w (w.setTree t pl) := by
  refine ⟨fun _ hne => World.tree_setTree_of_ne hne, World.setTree_registry, fun id => w.setTree_mounted t pl id,
    fun id s hne => ?_⟩
  cases pl with
  | canon => rfl
  | blobs j => exact World.containers_setContainer (·.volume s) rfl
  | data j => exact World.containers_setContainer (·.volume s) rfl
  | mnt j =>
      refine congrArg (Container.volume · s) (World.setContainer_of_ne _ ?_)
      rintro rfl
      exact hne rfl

theorem settable (h : SameBut pl w w') (hpl : w.Settable pl') : w'.Settable pl' := by
  cases pl' with
  | mnt id =>
      change (w'.containers id).mounted ≠ _
      rw [h.mounted id]
      exact hpl
  | _ => trivial

end SameBut

theorem during_read {o : FsOp (Except Errno α)} {v : Except Errno α} {Q : Except WorkspaceError α → World → Prop}
    (ho : o.perform cfg w = (v, w)) (hfailure : ∃ e, o.failure = .error e) (hnow : I w)
    (hfail : ∀ e, Q (.error e) w) (hok : ∀ a, v = .ok a → Q (.ok a) w) :
    (fs o).during (host cfg) F I Q w := by
  refine Io.during_call _ _ hnow fun b _ => ?_
  obtain ⟨e, he⟩ := hfailure
  rcases host_cases cfg o b w with h | h
  · rw [h, he]
    exact ⟨hnow, hfail _⟩
  · rw [h, ho]
    cases v with
    | ok a => exact ⟨hnow, hok a rfl⟩
    | error e => exact ⟨hnow, hfail _⟩

theorem during_update {o : FsOp (Except Errno Unit)} {l : Loc} {f : FileTree → Except Errno FileTree}
    {Q : Except WorkspaceError Unit → World → Prop}
    (ho : o.perform cfg w = w.update l f) (hfailure : ∃ e, o.failure = .error e) (hnow : I w)
    (hfail : ∀ e, Q (.error e) w) (hok : ∀ t, f (w.tree l.place) = .ok t →
      I (w.setTree t l.place) ∧ Q (.ok ()) (w.setTree t l.place)) :
    (fs o).during (host cfg) F I Q w := by
  refine Io.during_call _ _ hnow fun b _ => ?_
  obtain ⟨e, he⟩ := hfailure
  rcases host_cases cfg o b w with h | h
  · rw [h, he]
    exact ⟨hnow, hfail _⟩
  · rw [h, ho]
    rcases w.update_cases l f with ⟨e, -, hu⟩ | ⟨t, ht, hu⟩
    · rw [hu]
      exact ⟨hnow, hfail _⟩
    · rw [hu]
      exact hok t ht

/-- Neither above `dst` nor where `src` has a file or a directory does `dst` have a symbolic link, so
that nothing that is put there goes on at a link's target. -/
structure Unlinked (src dst : Loc) (w : World) : Prop where
  above : ∀ x target, x <:+ dst.path → x ≠ dst.path → (w.tree dst.place).get x ≠ some (.symlink target)
  below : ∀ r i target, (w.tree src.place).get (r ++ src.path) = some i → i.isLink = false →
    (w.tree dst.place).get (r ++ dst.path) ≠ some (.symlink target)

/-- The links of `dst` in `w'` are its own of `w`, or those of `src`. -/
def LinksFrom (src dst : Loc) (w w' : World) : Prop :=
  ∀ x target, (w'.tree dst.place).get x = some (.symlink target) → (w.tree dst.place).get x = some (.symlink target) ∨
    ∃ r, x = r ++ dst.path ∧ (w.tree src.place).get (r ++ src.path) = some (.symlink target)

theorem Unlinked.of_linksFrom {src dst : Loc} (h : Unlinked src dst w) (hlinks : LinksFrom src dst w w')
    (hshrinks : ∀ x, (w'.tree src.place).get x = (w.tree src.place).get x ∨ (w'.tree src.place).get x = none) :
    Unlinked src dst w' := by
  constructor
  · intro x target hx hne hget
    rcases hlinks x target hget with hold | ⟨r, rfl, -⟩
    · exact h.above x target hx hne hold
    · exact hne (hx.eq_of_length_le (by rw [List.length_append]; omega))
  · intro r i target hi hlink hget
    have hold : (w.tree src.place).get (r ++ src.path) = some i := by
      rcases hshrinks (r ++ src.path) with hsame | hnone
      · rw [← hsame, hi]
      · rw [hnone] at hi
        cases hi
    rcases hlinks _ target hget with hdst | ⟨r', hr', hsrc⟩
    · exact h.below r i target hold hlink hdst
    · rw [← List.append_cancel_right hr', hold] at hsrc
      cases hsrc
      cases hlink

/-- What a copy of `src` to `dst`, begun in `w`, may have done by `w'`: entries that `src` has are
others in `dst`. -/
structure Copying (src dst : Loc) (w w' : World) : Prop extends SameBut dst.place w w' where
  closed : (w'.tree dst.place).Closed
  fresh : ∀ x, (∀ r, x = r ++ dst.path → (w.tree src.place).get (r ++ src.path) = none) →
    (w'.tree dst.place).get x = (w.tree dst.place).get x
  links : LinksFrom src dst w w'

/-- The finished copy: `src` laid over what `dst` held. -/
def Overlaid (src dst : Loc) (w w' : World) : Prop :=
  ∀ r, (w'.tree dst.place).get (r ++ dst.path) =
    ((w.tree src.place).get (r ++ src.path)).or ((w.tree dst.place).get (r ++ dst.path))

variable {src dst : Loc} {n : Name} {i : Inode}

namespace Loc

theorem child_path (l : Loc) (n : Name) (r : Path) : r ++ (l.child n).path = (r ++ [n]) ++ l.path := by
  rw [List.append_assoc]
  rfl

theorem child_path_ne {l : Loc} {m n : Name} (hne : m ≠ n) (r r' : Path) :
    r ++ (l.child m).path ≠ r' ++ (l.child n).path := by
  intro h
  have h := List.append_cancel_right ((child_path l m r).symm.trans (h.trans (child_path l n r')))
  exact hne (List.append_singleton_inj.mp h).2

theorem path_ne_child (l : Loc) (n : Name) (r : Path) : l.path ≠ r ++ (l.child n).path := by
  intro h
  have hlen := congrArg List.length h
  rw [child_path, List.length_append, List.length_append] at hlen
  simp at hlen

/-- A path in a directory is the directory's own or that of something below one of its entries. -/
theorem path_cases (l : Loc) (r : Path) : r = [] ∨ ∃ n r', r ++ l.path = r' ++ (l.child n).path ∧ r = r' ++ [n] := by
  rcases List.eq_nil_or_concat r with rfl | ⟨r', n, rfl⟩
  · exact .inl rfl
  · refine .inr ⟨n, r', ?_, List.concat_eq_append⟩
    rw [List.concat_eq_append, child_path]

end Loc

namespace Copying

theorem refl (hdst : (w.tree dst.place).Closed) : Copying src dst w w :=
  ⟨.refl _ _, hdst, fun _ _ => rfl, fun _ _ h => .inl h⟩

theorem unlinked (hne : src.place ≠ dst.place) (h : Copying src dst w w') (hunlinked : Unlinked src dst w) :
    Unlinked src dst w' :=
  hunlinked.of_linksFrom h.links fun x => .inl (by rw [h.others _ hne])

theorem put {t : FileTree} (h : Copying src dst w w') (hset : w.Settable dst.place)
    (hsrc : (w.tree src.place).get src.path ≠ none)
    (hlink : i.isLink = true → (w.tree src.place).get src.path = some i) (ht : (w'.tree dst.place).Put dst.path i t) :
    Copying src dst w (w'.setTree t dst.place) ∧ ∀ x, ((w'.setTree t dst.place).tree dst.place).get x =
      if dst.path = x then some i else (w'.tree dst.place).get x := by
  have htree : (w'.setTree t dst.place).tree dst.place = t := World.tree_setTree (h.settable hset)
  rw [htree]
  refine ⟨⟨h.toSameBut.trans (.setTree ..), ?_, ?_, ?_⟩, ht.get⟩
  · rw [htree]
    exact ht.closed h.closed
  · intro x hx
    rw [htree, ht.get, if_neg, h.fresh x hx]
    rintro rfl
    exact hsrc (hx [] rfl)
  · intro x target hget
    rw [htree, ht.get] at hget
    split at hget
    · next heq =>
        cases hget
        exact .inr ⟨[], heq.symm, hlink rfl⟩
    · exact h.links x target hget

theorem child (hne : src.place ≠ dst.place) (h : Copying src dst w w')
    (hchild : Copying (src.child n) (dst.child n) w' w'') : Copying src dst w w'' := by
  refine ⟨h.toSameBut.trans hchild.toSameBut, hchild.closed, ?_, ?_⟩
  · intro x hx
    refine (hchild.fresh x fun r hr => ?_).trans (h.fresh x hx)
    change (w'.tree src.place).get _ = _
    rw [h.others _ hne, Loc.child_path]
    exact hx (r ++ [n]) (hr.trans (Loc.child_path dst n r))
  · intro x target hget
    rcases hchild.links x target hget with hold | ⟨r, hr, hlink⟩
    · exact h.links x target hold
    · change (w'.tree src.place).get _ = _ at hlink
      rw [h.others _ hne, Loc.child_path] at hlink
      exact .inr ⟨r ++ [n], hr.trans (Loc.child_path dst n r), hlink⟩

/-- Once `dst` holds the entry of `src`, which is no directory, the copy is finished. -/
theorem overlaid (h : Copying src dst w w') (hsrc : (w.tree src.place).Closed)
    (hi : (w.tree src.place).get src.path = some i) (hleaf : ∀ m, i ≠ .dir m)
    (hget : (w'.tree dst.place).get dst.path = some i) : Overlaid src dst w w' := by
  intro r
  by_cases hr : r = []
  · subst hr
    rw [List.nil_append, List.nil_append, hget, hi]
    rfl
  · have hbelow : (w.tree src.place).get (r ++ src.path) = none := by
      refine hsrc.none_below (fun m hm => ?_) hr
      rw [hi] at hm
      cases hm
      exact hleaf m rfl
    rw [hbelow, Option.none_or]
    refine h.fresh _ fun r' hr' => ?_
    rw [← List.append_cancel_right hr']
    exact hbelow

end Copying

/-- The copy of the directory `src` at a time when the entries `done` of it are copied. -/
structure CopiedOf (src dst : Loc) (done : List Name) (w w' : World) : Prop extends Copying src dst w w' where
  dir : ∃ m, (w'.tree dst.place).get dst.path = some (.dir m)
  copied : ∀ n ∈ done, Overlaid (src.child n) (dst.child n) w w'
  rest : ∀ n ∉ done, ∀ r, (w'.tree dst.place).get (r ++ (dst.child n).path) =
    (w.tree dst.place).get (r ++ (dst.child n).path)

namespace CopiedOf

variable {done : List Name}

theorem begin {m : Mode} (h : Copying src dst w w')
    (hget : ∀ x, (w'.tree dst.place).get x = if dst.path = x then some (.dir m) else (w.tree dst.place).get x) :
    CopiedOf src dst [] w w' := by
  refine ⟨h, ⟨m, (hget dst.path).trans (if_pos rfl)⟩, fun n hn => ?_, fun n _ r => ?_⟩
  · cases hn
  · exact (hget _).trans (if_neg (Loc.path_ne_child dst n r))

theorem child (hne : src.place ≠ dst.place) (h : CopiedOf src dst done w w') (hn : n ∉ done)
    (hchild : Copying (src.child n) (dst.child n) w' w'') (hn' : Overlaid (src.child n) (dst.child n) w' w'') :
    CopiedOf src dst (done ++ [n]) w w'' := by
  have hother : ∀ m, m ≠ n → ∀ r, (w''.tree dst.place).get (r ++ (dst.child m).path) =
      (w'.tree dst.place).get (r ++ (dst.child m).path) :=
    fun m hm r => hchild.fresh _ fun r' hr' => absurd hr' (Loc.child_path_ne hm r r')
  refine ⟨h.toCopying.child hne hchild, ?_, fun m hm r => ?_, fun m hm r => ?_⟩
  · obtain ⟨m, hm⟩ := h.dir
    exact ⟨m, (hchild.fresh _ fun r hr => absurd hr (Loc.path_ne_child dst n r)).trans hm⟩
  · by_cases hmn : m = n
    · subst hmn
      refine (hn' r).trans ?_
      change ((w'.tree src.place).get _).or ((w'.tree dst.place).get _) = _
      rw [h.others _ hne, h.rest m hn]
      rfl
    · have hdone : m ∈ done := by
        rcases List.mem_append.mp hm with hm | hm
        · exact hm
        · exact absurd (List.mem_singleton.mp hm) hmn
      exact (hother m hmn r).trans (h.copied m hdone r)
  · have hmn : m ≠ n := by
      rintro rfl
      exact hm (List.mem_append.mpr (.inr List.mem_cons_self))
    exact (hother m hmn r).trans (h.rest m (fun hd => hm (List.mem_append.mpr (.inl hd))) r)

/-- With every entry copied and the directory's own entry set, the directory is. -/
theorem overlaid {m : Mode} (h : CopiedOf src dst ((w.tree src.place).names src.path) w w')
    (hsrc : (w.tree src.place).Closed) (hm : (w.tree src.place).get src.path = some (.dir m))
    (hself : (w''.tree dst.place).get dst.path = some (.dir m))
    (hbelow : ∀ x, dst.path ≠ x → (w''.tree dst.place).get x = (w'.tree dst.place).get x) :
    Overlaid src dst w w'' := by
  intro r
  rcases Loc.path_cases dst r with rfl | ⟨n, r', hr, rfl⟩
  · rw [List.nil_append, List.nil_append, hself, hm]
    rfl
  · rw [hr, hbelow _ (Loc.path_ne_child dst n r'), ← Loc.child_path src]
    by_cases hn : n ∈ (w.tree src.place).names src.path
    · exact h.copied n hn r'
    · have hgone : (w.tree src.place).get (r' ++ (src.child n).path) = none := by
        by_contra hne
        exact hn (hsrc.mem_names hne)
      rw [hgone, Option.none_or]
      exact h.rest n hn r'

end CopiedOf

namespace Strategy

/-- A copy that failed may be left as it is at any moment. -/
def CopyEnds (src dst : Loc) (w : World) (r : Except WorkspaceError Unit) (w' : World) : Prop :=
  r = .ok () → Overlaid src dst w w'

/-- One operation of a copy, on the entry of `dst` itself, which leaves an entry with `P` there. -/
theorem during_put {o : FsOp (Except Errno Unit)} {f : FileTree → Except Errno FileTree} {P : Inode → Prop}
    {Q : Except WorkspaceError Unit → World → Prop} (hset : w.Settable dst.place)
    (hsrc : (w.tree src.place).get src.path ≠ none)
    (hlink : ∀ i, P i → i.isLink = true → (w.tree src.place).get src.path = some i) (h : Copying src dst w w')
    (ho : o.perform cfg w' = w'.update dst f) (hfailure : ∃ e, o.failure = .error e)
    (hf : ∀ t, f (w'.tree dst.place) = .ok t → ∃ i, P i ∧ (w'.tree dst.place).Put dst.path i t)
    (hfail : ∀ e, Q (.error e) w')
    (hok : ∀ v i, P i → Copying src dst w v → (∀ x, (v.tree dst.place).get x =
      if dst.path = x then some i else (w'.tree dst.place).get x) → Q (.ok ()) v) :
    (fs o).during (host cfg) F (Copying src dst w) Q w' := by
  refine during_update ho hfailure h hfail fun t ht => ?_
  obtain ⟨i, hi, hput⟩ := hf t ht
  obtain ⟨hnext, hget⟩ := h.put hset hsrc (hlink i hi) hput
  exact ⟨hnext, hok _ i hi hnext hget⟩

theorem copyFile_during {m : Mode} {bytes : Bytes} (hset : w.Settable dst.place)
    (hsrc : (w.tree src.place).Closed) (hi : (w.tree src.place).get src.path = some (.file m bytes))
    (h : Copying src dst w w') (hread : (w'.tree src.place) = w.tree src.place) :
    (copyFile src dst).during (host cfg) F (Copying src dst w) (CopyEnds src dst w) w' := by
  have hsome : (w.tree src.place).get src.path ≠ none := by
    rw [hi]
    exact Option.some_ne_none _
  have hfail : ∀ {v : World} (e : WorkspaceError), CopyEnds src dst w (.error e) v := fun _ h => by cases h
  rw [copyFile]
  refine (Io.during_bind ..).mpr (during_read rfl ⟨_, rfl⟩ h hfail ?_)
  rintro ⟨m', bytes'⟩ hopen
  have heq := FileTree.openRead_get hopen
  rw [hread, hi] at heq
  cases heq
  refine (Io.during_bind ..).mpr (during_put (P := fun i => ∃ m, i = .file m []) hset hsome
    (by rintro _ ⟨m, rfl⟩ ⟨⟩) h (by rw [FsOp.perform]) ⟨_, rfl⟩ ?_ hfail ?_)
  · intro t ht
    obtain ⟨m₁, hput⟩ := FileTree.create_put ht
    exact ⟨_, ⟨m₁, rfl⟩, hput⟩
  rintro v₁ _ ⟨m₁, rfl⟩ h₁ hx₁
  have hg₁ := (hx₁ dst.path).trans (if_pos rfl)
  refine (Io.during_bind ..).mpr (during_put (P := fun i => i = .file m []) hset hsome
    (by rintro _ rfl ⟨⟩) h₁ (by rw [FsOp.perform]) ⟨_, rfl⟩ ?_ hfail ?_)
  · intro t ht
    obtain ⟨i, hget, hput⟩ := FileTree.chmod_put ht
    rw [hg₁] at hget
    cases hget
    exact ⟨_, rfl, hput⟩
  rintro v₂ _ rfl h₂ hx₂
  have hg₂ := (hx₂ dst.path).trans (if_pos rfl)
  refine during_put (P := fun i => i = .file m bytes) hset hsome (by rintro _ rfl ⟨⟩) h₂ (by rw [FsOp.perform])
    ⟨_, rfl⟩ ?_ hfail ?_
  · intro t ht
    cases ht
    exact ⟨_, rfl, FileTree.write_put hg₂ bytes⟩
  rintro v₃ _ rfl h₃ hx₃ _
  exact h₃.overlaid hsrc hi (fun m h => by cases h) ((hx₃ dst.path).trans (if_pos rfl))

/-- The loop over the entries of a directory, all but those of `exclude`. -/
theorem copyAll_during {f : Name → Host Unit} {names : List Name} (exclude : List Name)
    {Q : Except WorkspaceError Unit → World → Prop}
    (hne : src.place ≠ dst.place) (hnodup : names.Nodup)
    (hf : ∀ n ∉ exclude, ∀ v, Copying src dst w v →
      (f n).during (host cfg) F (Copying (src.child n) (dst.child n) v) (CopyEnds (src.child n) (dst.child n) v) v)
    (hskip : ∀ n ∈ exclude, f n = pure ())
    (hfail : ∀ v e, Copying src dst w v → Q (.error e) v)
    (hok : ∀ v, CopiedOf src dst (names.filter fun n => n ∉ exclude) w v → Q (.ok ()) v)
    (h : CopiedOf src dst [] w w') : (Io.forEach f names).during (host cfg) F (Copying src dst w) Q w' := by
  refine Io.during_forEach (fun before => CopiedOf src dst (before.filter fun n => n ∉ exclude) w)
    ?_ hok (fun _ _ h => h.toCopying) h
  intro before n after hnames v hv
  by_cases hn : n ∈ exclude
  · rw [hskip n hn]
    refine ⟨hv.toCopying, ?_⟩
    rw [List.filter_append, List.filter_cons_of_neg (by simpa using hn), List.filter_nil, List.append_nil]
    exact hv
  · refine Io.during_mono (fun v' hv' => hv.toCopying.child hne hv') ?_ (hf n hn v hv.toCopying)
    rintro (e | _) v' hchild hends
    · exact hfail v' e (hv.toCopying.child hne hchild)
    · have hnew : n ∉ before.filter fun n => n ∉ exclude := by
        intro hmem
        have hbefore := List.mem_of_mem_filter hmem
        rw [hnames] at hnodup
        exact (List.nodup_append.mp hnodup).2.2 n hbefore n List.mem_cons_self rfl
      have hnext := hv.child hne hnew hchild (hends rfl)
      rw [List.filter_append, List.filter_cons_of_pos (by simpa using hn), List.filter_nil]
      exact hnext

theorem copyEntry_during (hne : src.place ≠ dst.place) (depth : Nat) (hset : w.Settable dst.place)
    (hsrc : (w.tree src.place).Closed) (hdst : (w.tree dst.place).Closed) :
    (copyEntry depth src dst).during (host cfg) F (Copying src dst w) (CopyEnds src dst w) w := by
  induction depth generalizing src dst w with
  | zero => exact ⟨.refl hdst, fun h => by cases h⟩
  | succ depth ih =>
      have hnow : Copying src dst w w := .refl hdst
      have hfail : ∀ {v : World} (e : WorkspaceError), CopyEnds src dst w (.error e) v := fun _ h => by cases h
      rw [copyEntry]
      refine (Io.during_bind ..).mpr (during_read rfl ⟨_, rfl⟩ hnow hfail fun i hi => ?_)
      have hget := FileTree.lstat_get hi
      have hsome : (w.tree src.place).get src.path ≠ none := by
        rw [hget]
        exact Option.some_ne_none _
      cases i with
      | file m bytes => exact copyFile_during hset hsrc hget hnow rfl
      | symlink target =>
          refine (Io.during_bind ..).mpr (during_read rfl ⟨_, rfl⟩ hnow hfail fun target' htarget => ?_)
          have heq := FileTree.readLink_get htarget
          rw [hget] at heq
          cases heq
          refine during_put (P := fun i => i = .symlink target) hset hsome (fun _ hi _ => hi ▸ hget) hnow
            (by rw [FsOp.perform]) ⟨_, rfl⟩ (fun t ht => ⟨_, rfl, FileTree.add_put ht⟩) hfail ?_
          rintro v _ rfl hv hv' _
          exact hv.overlaid hsrc hget (fun m h => by cases h) ((hv' dst.path).trans (if_pos rfl))
      | dir m =>
          refine (Io.during_bind ..).mpr (during_put (P := fun i => ∃ m, i = .dir m) hset hsome
            (by rintro _ ⟨m, rfl⟩ ⟨⟩) hnow (by rw [FsOp.perform]) ⟨_, rfl⟩ ?_ hfail ?_)
          · intro t ht
            obtain ⟨m', hput⟩ := FileTree.mkdir_put ht
            exact ⟨_, ⟨m', rfl⟩, hput⟩
          rintro v _ ⟨m', rfl⟩ hv hv'
          refine (Io.during_bind ..).mpr (during_read rfl ⟨_, rfl⟩ hv hfail fun names hnames => ?_)
          have hnames := (FileTree.readDir_eq hnames).2
          rw [hv.others _ hne] at hnames
          refine (Io.during_bind ..).mpr (copyAll_during [] hne (hnames ▸ FileTree.names_nodup)
            (fun n _ v hv => ih hne (hv.settable hset) ?_ hv.closed) ?_ (fun v e _ => hfail e) ?_ (.begin hv hv'))
          · change (v.tree src.place).Closed
            rw [hv.others _ hne]
            exact hsrc
          · intro n hn
            cases hn
          intro v₁ hv₁
          refine during_update (by rw [FsOp.perform]) ⟨_, rfl⟩ hv₁.toCopying hfail fun t ht => ?_
          obtain ⟨i, hi, hput⟩ := FileTree.chmod_put ht
          obtain ⟨m₁, hm₁⟩ := hv₁.dir
          rw [hm₁] at hi
          cases hi
          obtain ⟨hv₂, hx⟩ := hv₁.toCopying.put hset hsome (by rintro ⟨⟩) hput
          refine ⟨hv₂, fun _ => ?_⟩
          have hall : CopiedOf src dst ((w.tree src.place).names src.path) w v₁ := by
            simpa [hnames] using hv₁
          exact hall.overlaid hsrc hget ((hx dst.path).trans (if_pos rfl)) fun x hx' => (hx x).trans (if_neg hx')

theorem copyContentsExcluding_during {exclude : List Name} (hne : src.place ≠ dst.place)
    (hset : w.Settable dst.place) (hsrc : (w.tree src.place).Closed) (hdst : (w.tree dst.place).Closed)
    (hroot : (w.tree src.place).get src.path ≠ none) :
    (copyContentsExcluding cfg src dst exclude).during (host cfg) F (Copying src dst w) (fun r w' => r = .ok () →
      CopiedOf src dst (((w.tree src.place).names src.path).filter fun n => n ∉ exclude) w w') w := by
  have hnow : Copying src dst w w := .refl hdst
  rw [copyContentsExcluding]
  refine (Io.during_bind ..).mpr (during_put (P := fun i => ∃ m, i = .dir m) hset hroot
    (by rintro _ ⟨m, rfl⟩ ⟨⟩) hnow (by rw [FsOp.perform]) ⟨_, rfl⟩ ?_ (fun _ h => by cases h) ?_)
  · intro t ht
    obtain ⟨m, hput⟩ := FileTree.mkdir_put ht
    exact ⟨_, ⟨m, rfl⟩, hput⟩
  rintro v _ ⟨m, rfl⟩ hv hv'
  refine (Io.during_bind ..).mpr (during_read rfl ⟨_, rfl⟩ hv (fun _ h => by cases h) fun names hnames => ?_)
  have hnames := (FileTree.readDir_eq hnames).2
  rw [hv.others _ hne] at hnames
  subst hnames
  refine copyAll_during exclude hne FileTree.names_nodup (fun n hn v hv => ?_) (fun n hn => if_pos hn)
    (fun _ _ _ h => by cases h) (fun v hv _ => hv) (.begin hv hv')
  have hplaces : (src.child n).place ≠ (dst.child n).place := hne
  have hclosed : (v.tree (src.child n).place).Closed := by
    change (v.tree src.place).Closed
    rw [hv.others _ hne]
    exact hsrc
  rw [if_neg hn]
  exact copyEntry_during hplaces cfg.depth (hv.settable hset) hclosed hv.closed

/-- Whatever fails and whenever it is stopped, a copy changes `dst` only where `src` has an entry, and
`src` not at all, and never meets a link; when it goes through, `src` is laid over what `dst` held, but
for `exclude`. -/
theorem copyContentsExcluding_overlays {exclude : List Name} (hne : src.place ≠ dst.place)
    (hset : w.Settable dst.place) (hsrc : (w.tree src.place).Closed) (hdst : (w.tree dst.place).Closed)
    (hunlinked : Unlinked src dst w) (hroot : (w.tree src.place).get src.path ≠ none) (fs : List Bool) :
    (∀ w' ∈ Prog.moments (host cfg) (copyContentsExcluding cfg src dst exclude) fs w,
      Copying src dst w w' ∧ Unlinked src dst w') ∧
      ((Prog.run (host cfg) (copyContentsExcluding cfg src dst exclude) fs w).1 = .ok () →
        CopiedOf src dst (((w.tree src.place).names src.path).filter fun n => n ∉ exclude) w
          (Prog.run (host cfg) (copyContentsExcluding cfg src dst exclude) fs w).2.2) := by
  have hduring : (copyContentsExcluding cfg src dst exclude).during (host cfg) Prog.anyFault (Copying src dst w)
      (fun r w' => r = .ok () →
        CopiedOf src dst (((w.tree src.place).names src.path).filter fun n => n ∉ exclude) w w') w :=
    copyContentsExcluding_during hne hset hsrc hdst hroot
  have hadmits := Prog.admits_of_forall (H := host cfg) (F := Prog.anyFault) (fun _ _ _ _ => trivial)
    (copyContentsExcluding cfg src dst exclude) fs w
  refine ⟨fun w' hw' => ?_, Prog.run_of_during hduring hadmits⟩
  have hcopying := Prog.moments_of_during hduring hadmits w' hw'
  exact ⟨hcopying, hcopying.unlinked hne hunlinked⟩

end Strategy

/-- A host whose state directory is on another file system than the workspace. -/
def server : Config where
  path := .text "/srv/project"
  nested := false
  strategy := .plainDir
  strategyHint := none
  linux := true
  sameFs := false
  depth := 64
  umask := 0o022#12
  umask_owner := umask_usual
  volumes := ⟨fun _ => [([], .dir 0o755#12)], fun _ t => t⟩
  ids _ := "0c1d2e3f"
  sha256 _ := ⟨"e3b0c44298fc1c149afbf4c8996fb92427ae41e4649b934ca495991b7852b855", digest_empty⟩
  lossy _ := ""
  unified _ _ := ""

def project : FileTree := [([⟨.text "notes", by decide⟩], .file 0o644#12 [104, 105]), ([], .dir 0o755#12)]

theorem project_closed : project.Closed := FileTree.closed_of_isClosed (by decide)

def emptyDir : FileTree := [([], .dir 0o755#12)]

theorem emptyDir_closed : emptyDir.Closed := FileTree.closed_of_isClosed (by decide)

/-- Before the contents of the workspace are moved. -/
def unmoved : World := ⟨project, fun _ => { data := emptyDir }, none, fun _ => false, 0⟩

theorem unlinked_of_emptyDir {src dst : Loc} {w : World} (hdst : w.tree dst.place = emptyDir) :
    Unlinked src dst w := by
  have hlink : ∀ x target, emptyDir.get x ≠ some (.symlink target) := by
    intro x target hget
    have hmem := FileTree.mem_of_get hget
    simp [emptyDir] at hmem
  rw [← hdst] at hlink
  exact ⟨fun x target _ _ => hlink x target, fun r i target _ _ => hlink _ target⟩

theorem copyContentsExcluding_unmoved :
    (∀ w' ∈ Prog.moments (host server) (Strategy.copyContentsExcluding server Strategy.canonDir
        (Strategy.dataDir "0c1d2e3f") []) [] unmoved,
      Copying Strategy.canonDir (Strategy.dataDir "0c1d2e3f") unmoved w' ∧
        Unlinked Strategy.canonDir (Strategy.dataDir "0c1d2e3f") w') ∧
      ((Prog.run (host server) (Strategy.copyContentsExcluding server Strategy.canonDir (Strategy.dataDir "0c1d2e3f") [])
          [] unmoved).1 = .ok () →
        CopiedOf Strategy.canonDir (Strategy.dataDir "0c1d2e3f")
          (((unmoved.tree .canon).names []).filter fun n => n ∉ ([] : List Name)) unmoved
          (Prog.run (host server) (Strategy.copyContentsExcluding server Strategy.canonDir (Strategy.dataDir "0c1d2e3f")
            []) [] unmoved).2.2) := by
  have hplaces : Strategy.canonDir.place ≠ (Strategy.dataDir "0c1d2e3f").place := by decide
  have hset : unmoved.Settable (Strategy.dataDir "0c1d2e3f").place := trivial
  exact Strategy.copyContentsExcluding_overlays hplaces hset project_closed emptyDir_closed
    (unlinked_of_emptyDir rfl) (by decide) []

end Silo.Workspace
