import Silo.Workspace.Copies

namespace Silo.Workspace

open Silo.Lib

variable {cfg : Config} {F : Prog.Faults FsOp World} {w w' w'' : World} {I : World → Prop}
variable {l src dst : Loc} {n : Name}

theorem Loc.child_of_suffix {x : Path} (h : (l.child n).path <:+ x) : l.path <:+ x :=
  (List.suffix_cons n l.path).trans h

/-- What a removal of `l`, begun in `w`, may have done by `w'`: entries at and below `l` are gone. -/
structure Removing (l : Loc) (w w' : World) : Prop extends SameBut l.place w w' where
  closed : (w'.tree l.place).Closed
  gone : ∀ x, (w'.tree l.place).get x = (w.tree l.place).get x ∨
    (w'.tree l.place).get x = none ∧ l.path <:+ x

namespace Removing

theorem refl (h : (w.tree l.place).Closed) : Removing l w w := ⟨.refl _ _, h, fun _ => .inl rfl⟩

theorem trans (h : Removing l w w') (h' : Removing l w' w'') : Removing l w w'' := by
  refine ⟨h.toSameBut.trans h'.toSameBut, h'.closed, fun x => ?_⟩
  rcases h'.gone x with hx | hx
  · rw [hx]
    exact h.gone x
  · exact .inr hx

theorem parent (h : Removing (l.child n) w w') : Removing l w w' := by
  refine ⟨h.toSameBut, h.closed, fun x => ?_⟩
  rcases h.gone x with hx | ⟨hx, hsuffix⟩
  · exact .inl hx
  · exact .inr ⟨hx, Loc.child_of_suffix hsuffix⟩

theorem prune (h : Removing l w w') (hset : w.Settable l.place) :
    Removing l w (w'.setTree ((w'.tree l.place).prune l.path) l.place) ∧
      ∀ r, ((w'.setTree ((w'.tree l.place).prune l.path) l.place).tree l.place).get (r ++ l.path) = none := by
  rw [World.tree_setTree (h.settable hset)]
  have hnone : ∀ {x}, l.path <:+ x → ((w'.tree l.place).prune l.path).get x = none := by
    intro x hx
    rw [FileTree.get_prune, if_pos hx]
  refine ⟨⟨h.toSameBut.trans (.setTree ..), ?_, fun x => ?_⟩, fun r => hnone (List.suffix_append r l.path)⟩
  · rw [World.tree_setTree (h.settable hset)]
    exact h.closed.prune _
  · rw [World.tree_setTree (h.settable hset)]
    by_cases hx : l.path <:+ x
    · exact .inr ⟨hnone hx, hx⟩
    · rw [FileTree.get_prune_of_not hx]
      exact h.gone x

end Removing

namespace Strategy

def RemoveEnds (l : Loc) (r : Except WorkspaceError Unit) (w' : World) : Prop :=
  r = .ok () → ∀ r', (w'.tree l.place).get (r' ++ l.path) = none

theorem unlink_during (hset : w.Settable l.place) (h : Removing l w w') :
    (fs (.unlink l)).during (host cfg) F (Removing l w) (RemoveEnds l) w' := by
  refine during_update (by rw [FsOp.perform]) ⟨_, rfl⟩ h (fun _ h => by cases h) fun t ht => ?_
  have heq := FileTree.unlink_eq ht
  subst heq
  exact ⟨(h.prune hset).1, fun _ => (h.prune hset).2⟩

theorem rmdir_during (hset : w.Settable l.place) (h : Removing l w w') :
    (fs (.rmdir l)).during (host cfg) F (Removing l w) (RemoveEnds l) w' := by
  refine during_update (by rw [FsOp.perform]) ⟨_, rfl⟩ h (fun _ h => by cases h) fun t ht => ?_
  split at ht
  · cases ht
  · have heq := FileTree.rmdir_eq ht
    subst heq
    exact ⟨(h.prune hset).1, fun _ => (h.prune hset).2⟩

theorem removeDirAll_during (depth : Nat) (hset : w.Settable l.place) (h : (w.tree l.place).Closed) :
    (removeDirAll depth l).during (host cfg) F (Removing l w) (RemoveEnds l) w := by
  induction depth generalizing l w with
  | zero => exact ⟨.refl h, fun h => by cases h⟩
  | succ depth ih =>
      have hfail : ∀ {v : World} (e : WorkspaceError), RemoveEnds l (.error e) v := fun _ h => by cases h
      rw [removeDirAll]
      refine (Io.during_bind ..).mpr (during_read rfl ⟨_, rfl⟩ (.refl h) hfail fun names _ => ?_)
      refine (Io.during_bind ..).mpr (Io.during_forEach (fun _ => Removing l w) ?_
        (fun v hv => rmdir_during hset hv) (fun _ _ hv => hv) (.refl h))
      intro _ n _ _ v hv
      have hpass : ∀ {x : Host Unit} {Q : Except WorkspaceError Unit → World → Prop},
          x.during (host cfg) F (Removing (l.child n) v) (RemoveEnds (l.child n)) v →
          (∀ e v', Q (.error e) v') → (∀ v', Removing l w v' → Q (.ok ()) v') →
          x.during (host cfg) F (Removing l w) Q v := by
        intro x Q hx herror hdone
        refine Io.during_mono (fun v' hv' => hv.trans hv'.parent) ?_ hx
        rintro (e | _) v' hv' _
        · exact herror e v'
        · exact hdone v' (hv.trans hv'.parent)
      have hset' : v.Settable (l.child n).place := hv.settable hset
      refine (Io.during_bind ..).mpr (during_read rfl ⟨_, rfl⟩ hv hfail fun i _ => ?_)
      cases i with
      | dir m => exact hpass (ih hset' hv.closed) (fun _ _ => hfail _) fun _ h => h
      | file m bytes => exact hpass (unlink_during hset' (.refl hv.closed)) (fun _ _ => hfail _) fun _ h => h
      | symlink target => exact hpass (unlink_during hset' (.refl hv.closed)) (fun _ _ => hfail _) fun _ h => h

theorem removeEntry_during (hset : w.Settable l.place) (h : (w.tree l.place).Closed) :
    (removeEntry cfg l).during (host cfg) F (Removing l w) (RemoveEnds l) w := by
  rw [removeEntry]
  refine (Io.during_bind ..).mpr (during_read rfl ⟨_, rfl⟩ (.refl h) (fun _ h => by cases h) fun i _ => ?_)
  cases i with
  | dir m => exact removeDirAll_during cfg.depth hset h
  | file m bytes => exact unlink_during hset (.refl h)
  | symlink target => exact unlink_during hset (.refl h)

end Strategy

/-- What a move of `src` to `dst`, begun in `w`, may have done by `w'`. Every entry of `src` stands
where it stood, or in `dst`; and only where `src` has an entry, `dst` has another one. -/
structure Moving (src dst : Loc) (w w' : World) : Prop where
  others : ∀ pl, pl ≠ src.place → pl ≠ dst.place → w'.tree pl = w.tree pl
  registry : w'.registry = w.registry
  mounted : ∀ id, (w'.containers id).mounted = (w.containers id).mounted
  closedSrc : (w'.tree src.place).Closed
  closedDst : (w'.tree dst.place).Closed
  shrinks : ∀ x, (w'.tree src.place).get x = (w.tree src.place).get x ∨
    (w'.tree src.place).get x = none ∧ src.path <:+ x
  kept : ∀ r i, (w.tree src.place).get (r ++ src.path) = some i →
    (w'.tree src.place).get (r ++ src.path) = some i ∨ (w'.tree dst.place).get (r ++ dst.path) = some i
  fresh : ∀ x, (∀ r, x = r ++ dst.path → (w.tree src.place).get (r ++ src.path) = none) →
    (w'.tree dst.place).get x = (w.tree dst.place).get x
  links : LinksFrom src dst w w'

namespace Moving

theorem refl (hsrc : (w.tree src.place).Closed) (hdst : (w.tree dst.place).Closed) : Moving src dst w w :=
  ⟨fun _ _ _ => rfl, rfl, fun _ => rfl, hsrc, hdst, fun _ => .inl rfl, fun _ _ h => .inl h, fun _ _ => rfl,
    fun _ _ h => .inl h⟩

theorem unlinked (h : Moving src dst w w') (hunlinked : Unlinked src dst w) : Unlinked src dst w' := by
  refine hunlinked.of_linksFrom h.links fun x => ?_
  rcases h.shrinks x with hsame | ⟨hnone, -⟩
  · exact .inl hsame
  · exact .inr hnone

theorem settable (h : Moving src dst w w') {pl : Place} (hpl : w.Settable pl) : w'.Settable pl := by
  cases pl with
  | mnt id =>
      change (w'.containers id).mounted ≠ _
      rw [h.mounted id]
      exact hpl
  | _ => trivial

theorem trans (h : Moving src dst w w') (h' : Moving src dst w' w'') : Moving src dst w w'' where
  others pl hs hd := (h'.others pl hs hd).trans (h.others pl hs hd)
  registry := h'.registry.trans h.registry
  mounted id := (h'.mounted id).trans (h.mounted id)
  closedSrc := h'.closedSrc
  closedDst := h'.closedDst
  shrinks x := by
    rcases h'.shrinks x with hx | hx
    · rw [hx]
      exact h.shrinks x
    · exact .inr hx
  kept r i hi := by
    rcases h.shrinks (r ++ src.path) with hsame | ⟨hnone, -⟩
    · exact h'.kept r i (hsame.trans hi)
    · -- the entry is gone from `src`, so nothing touches it in `dst` any more
      have hdst := (h.kept r i hi).resolve_left (by rw [hnone]; rintro ⟨⟩)
      refine .inr ((h'.fresh _ fun r' hr' => ?_).trans hdst)
      rw [← List.append_cancel_right hr']
      exact hnone
  fresh x hx := by
    refine (h'.fresh x fun r hr => ?_).trans (h.fresh x hx)
    rcases h.shrinks (r ++ src.path) with hsame | ⟨hnone, -⟩
    · exact hsame.trans (hx r hr)
    · exact hnone
  links x target hget := by
    rcases h'.links x target hget with hold | ⟨r, hr, hlink⟩
    · exact h.links x target hold
    · rcases h.shrinks (r ++ src.path) with hsame | ⟨hnone, -⟩
      · exact .inr ⟨r, hr, hsame ▸ hlink⟩
      · rw [hnone] at hlink
        cases hlink

theorem parent (h : Moving (src.child n) (dst.child n) w w') : Moving src dst w w' where
  others := h.others
  registry := h.registry
  mounted := h.mounted
  closedSrc := h.closedSrc
  closedDst := h.closedDst
  shrinks x := by
    rcases h.shrinks x with hx | ⟨hx, hsuffix⟩
    · exact .inl hx
    · exact .inr ⟨hx, Loc.child_of_suffix hsuffix⟩
  kept r i hi := by
    rcases h.shrinks (r ++ src.path) with hx | ⟨-, r', hr'⟩
    · exact .inl (hx.trans hi)
    · have hr : r = r' ++ [n] := by
        rw [Loc.child_path] at hr'
        exact (List.append_cancel_right hr').symm
      subst hr
      rw [← Loc.child_path] at hi ⊢
      rw [← Loc.child_path]
      exact h.kept r' i hi
  fresh x hx := h.fresh x fun r hr => by
    rw [Loc.child_path]
    exact hx _ (hr.trans (Loc.child_path dst n r))
  links x target hget := by
    rcases h.links x target hget with hold | ⟨r, hr, hlink⟩
    · exact .inl hold
    · rw [Loc.child_path] at hr hlink
      exact .inr ⟨r ++ [n], hr, hlink⟩

theorem of_copying (hne : src.place ≠ dst.place) (hsrc : (w.tree src.place).Closed) (h : Copying src dst w w') :
    Moving src dst w w' := by
  have heq := h.others src.place hne
  refine ⟨fun pl _ hd => h.others pl hd, h.registry, h.mounted, ?_, h.closed, ?_, ?_, h.fresh, h.links⟩
  · rw [heq]
    exact hsrc
  · exact fun x => .inl (by rw [heq])
  · exact fun r i hi => .inl (by rw [heq]; exact hi)

theorem of_removing (hne : src.place ≠ dst.place) (h : Copying src dst w w') (hover : Overlaid src dst w w')
    (h' : Removing src w' w'') : Moving src dst w w'' := by
  have hsrc := h.others src.place hne
  have hdst := h'.others dst.place hne.symm
  refine ⟨fun pl hs hd => (h'.others pl hs).trans (h.others pl hd), h'.registry.trans h.registry,
    fun id => (h'.mounted id).trans (h.mounted id), h'.closed, ?_, ?_, ?_, ?_, ?_⟩
  · rw [hdst]
    exact h.closed
  · intro x
    rcases h'.gone x with hx | hx
    · exact .inl (hx.trans (by rw [hsrc]))
    · exact .inr hx
  · intro r i hi
    rw [hdst, hover r, hi]
    exact .inr rfl
  · intro x hx
    rw [hdst]
    exact h.fresh x hx
  · intro x target hget
    rw [hdst] at hget
    exact h.links x target hget

theorem of_renamed {t u : FileTree} (hne : src.place ≠ dst.place) (hset : w.Settable src.place)
    (hset' : w.Settable dst.place) (hsrc : (w.tree src.place).Closed) (hdst : (w.tree dst.place).Closed)
    (h : (w.tree src.place).Renamed src.path (w.tree dst.place) dst.path t u) :
    Moving src dst w ((w.setTree t src.place).setTree u dst.place) ∧
      ∀ r, (((w.setTree t src.place).setTree u dst.place).tree src.place).get (r ++ src.path) = none := by
  have ht : ((w.setTree t src.place).setTree u dst.place).tree src.place = t := by
    rw [World.tree_setTree_of_ne hne, World.tree_setTree hset]
  have hu : ((w.setTree t src.place).setTree u dst.place).tree dst.place = u :=
    World.tree_setTree (hset'.setTree t src.place)
  have hnone : ∀ x, src.path <:+ x → t.get x = none := by
    intro x hx
    rw [h.taken, FileTree.get_prune, if_pos hx]
  rw [ht]
  refine ⟨?_, fun r => hnone _ (List.suffix_append r src.path)⟩
  refine ⟨fun pl hs hd => ?_, by simp, fun id => ?_, ?_, ?_, ?_, ?_, ?_, ?_⟩
  · rw [World.tree_setTree_of_ne hd, World.tree_setTree_of_ne hs]
  · rw [World.setTree_mounted, World.setTree_mounted]
  · rw [ht, h.taken]
    exact hsrc.prune _
  · rw [hu]
    exact h.closed hsrc hdst
  · intro x
    rw [ht]
    by_cases hx : src.path <:+ x
    · exact .inr ⟨hnone x hx, hx⟩
    · rw [h.taken, FileTree.get_prune_of_not hx]
      exact .inl rfl
  · intro r i hi
    rw [hu, h.get_below r]
    exact .inr hi
  · intro x hx
    rw [hu]
    by_cases hq : dst.path <:+ x
    · obtain ⟨r, rfl⟩ := hq
      have hr := hx r rfl
      rw [h.get_below r, hr, h.none_below hdst hr]
    · exact h.get_of_not hq
  · intro x target hget
    rw [hu] at hget
    by_cases hq : dst.path <:+ x
    · obtain ⟨r, rfl⟩ := hq
      exact .inr ⟨r, rfl, (h.get_below r).symm.trans hget⟩
    · exact .inl ((h.get_of_not hq).symm.trans hget)

end Moving

theorem Moving.none_of_none (h : Moving src dst w w') {x : Path} (hx : (w.tree src.place).get x = none) :
    (w'.tree src.place).get x = none := by
  rcases h.shrinks x with hsame | ⟨hnone, -⟩
  · exact hsame.trans hx
  · exact hnone

namespace Strategy

theorem rename_during {Q : Except WorkspaceError Unit → World → Prop} (hne : src.place ≠ dst.place) (hnow : I w)
    (hfail : ∀ e, Q (.error e) w)
    (hok : ∀ t u, (w.tree src.place).Renamed src.path (w.tree dst.place) dst.path t u →
      I ((w.setTree t src.place).setTree u dst.place) ∧ Q (.ok ()) ((w.setTree t src.place).setTree u dst.place)) :
    (fs (.rename src dst)).during (host cfg) F I Q w := by
  refine Io.during_call _ _ hnow fun b _ => ?_
  rcases host_cases cfg (.rename src dst) b w with h | h
  · rw [h]
    exact ⟨hnow, hfail _⟩
  · rw [h, FsOp.perform, World.rename]
    split
    · exact ⟨hnow, hfail _⟩
    · split
      · exact ⟨hnow, hfail _⟩
      · rename_i t u hr
        exact hok t u (FileTree.renamed hr)

theorem moveEntry_during (hne : src.place ≠ dst.place) (hset : w.Settable src.place) (hset' : w.Settable dst.place)
    (hsrc : (w.tree src.place).Closed) (hdst : (w.tree dst.place).Closed) :
    (moveEntry cfg src dst).during (host cfg) F (Moving src dst w) (RemoveEnds src) w := by
  rw [moveEntry]
  refine (Io.during_bind ..).mpr ((Io.during_attempt ..).mpr (rename_during hne (.refl hsrc hdst) (fun _ => ?_)
    fun t u h => ?_))
  · refine (Io.during_bind ..).mpr (Io.during_mono (fun v hv => .of_copying hne hsrc hv) ?_
      (copyEntry_during hne cfg.depth hset' hsrc hdst))
    rintro (e | _) v hv hover
    · intro h
      cases h
    · have hclosed : (v.tree src.place).Closed := by
        rw [hv.others src.place hne]
        exact hsrc
      exact Io.during_mono (fun v' hv' => .of_removing hne hv (hover rfl) hv') (fun _ _ _ h => h)
        (removeEntry_during (hv.settable hset) hclosed)
  · have hmoved := Moving.of_renamed hne hset hset' hsrc hdst h
    exact ⟨hmoved.1, hmoved.1, fun _ => hmoved.2⟩

/-- Everything in `src` is moved. -/
def MoveEnds (src : Loc) (r : Except WorkspaceError Unit) (w' : World) : Prop :=
  r = .ok () → ∀ n r', (w'.tree src.place).get (r' ++ (src.child n).path) = none

/-- A move that was begun in `w`, perhaps stopped and begun again, goes on in `w'`. -/
theorem moveContents_during (hne : src.place ≠ dst.place) (hset : w.Settable src.place)
    (hset' : w.Settable dst.place) (h : Moving src dst w w' ∧ (w'.tree src.place).get src.path ≠ none) :
    (moveContents cfg src dst).during (host cfg) F
      (fun v => Moving src dst w v ∧ (v.tree src.place).get src.path ≠ none) (MoveEnds src) w' := by
  have hfail : ∀ {v : World} (e : WorkspaceError), MoveEnds src (.error e) v := fun _ h => by cases h
  rw [moveContents]
  have hbegin : (fs (.createDirAll dst)).during (host cfg) F (Copying src dst w')
      (fun r v => r = .ok () → Copying src dst w' v) w' := by
    refine during_put (P := fun i => ∃ m, i = .dir m) (h.1.settable hset') h.2 (by rintro _ ⟨m, rfl⟩ ⟨⟩)
      (.refl h.1.closedDst) (by rw [FsOp.perform]) ⟨_, rfl⟩ (fun t ht => ?_) (fun _ h => by cases h)
      (fun v _ _ hv _ _ => hv)
    obtain ⟨m, hput⟩ := FileTree.mkdir_put ht
    exact ⟨_, ⟨m, rfl⟩, hput⟩
  have hkept : ∀ v, Copying src dst w' v → Moving src dst w v ∧ (v.tree src.place).get src.path ≠ none := by
    intro v hv
    refine ⟨h.1.trans (.of_copying hne h.1.closedSrc hv), ?_⟩
    rw [hv.others _ hne]
    exact h.2
  refine (Io.during_bind ..).mpr (Io.during_mono hkept ?_ hbegin)
  rintro (e | _) v hv hcreated
  · exact hfail e
  refine (Io.during_bind ..).mpr (during_read rfl ⟨_, rfl⟩ (hkept v hv) hfail fun names hnames => ?_)
  obtain ⟨hroot', hstart⟩ : (v.tree src.place).get src.path ≠ none ∧ Moving src dst w v :=
    ⟨(hkept v hv).2, (hkept v hv).1⟩
  refine Io.during_forEach (fun before v' => Moving src dst w v' ∧ (v'.tree src.place).get src.path ≠ none ∧
    Moving src dst v v' ∧ ∀ n ∈ before, ∀ r, (v'.tree src.place).get (r ++ (src.child n).path) = none)
    ?_ ?_ (fun _ _ h => ⟨h.1, h.2.1⟩) ⟨hstart, hroot', .refl hstart.closedSrc hstart.closedDst, fun _ h => by cases h⟩
  · rintro before n after - v₁ ⟨hw₁, hroot₁, hv₁, hdone⟩
    have hpart : ∀ {v₂}, Moving (src.child n) (dst.child n) v₁ v₂ →
        Moving src dst w v₂ ∧ (v₂.tree src.place).get src.path ≠ none := by
      intro v₂ h₂
      refine ⟨hw₁.trans h₂.parent, ?_⟩
      rcases h₂.shrinks src.path with hsame | ⟨-, r, hr⟩
      · rwa [show (v₂.tree src.place).get src.path = (v₁.tree src.place).get src.path from hsame]
      · exact absurd hr.symm (Loc.path_ne_child src n r)
    have hplaces : (src.child n).place ≠ (dst.child n).place := hne
    refine Io.during_mono (fun v₂ h₂ => hpart h₂) ?_
      (moveEntry_during hplaces (hw₁.settable hset) (hw₁.settable hset') hw₁.closedSrc hw₁.closedDst)
    rintro (e | _) v₂ h₂ hn
    · exact hfail e
    · refine ⟨(hpart h₂).1, (hpart h₂).2, hv₁.trans h₂.parent, fun m hm r => ?_⟩
      rcases List.mem_append.mp hm with hm | hm
      · exact h₂.none_of_none (hdone m hm r)
      · cases List.mem_singleton.mp hm
        exact hn rfl r
  · rintro v₁ ⟨-, -, hv₁, hdone⟩ - n r
    by_cases hn : n ∈ names
    · exact hdone n hn r
    · refine hv₁.none_of_none ?_
      by_contra hne
      exact hn ((FileTree.readDir_eq hnames).2 ▸ hstart.closedSrc.mem_names hne)

/-- Moves of `src` to `dst`, each stopped at any moment and with any failures, lose nothing and never
meet a link; and when one goes through, all is in `dst`. -/
theorem stopped_moves_lose_nothing (hne : src.place ≠ dst.place) (hset : w.Settable src.place)
    (hset' : w.Settable dst.place) (hsrc : (w.tree src.place).Closed) (hdst : (w.tree dst.place).Closed)
    (hunlinked : Unlinked src dst w) (hroot : (w.tree src.place).get src.path ≠ none)
    (h : Relation.ReflTransGen (Prog.Leaves (host cfg) Prog.anyFault (moveContents cfg src dst)) w w') :
    Moving src dst w w' ∧ Unlinked src dst w' ∧ ∀ fs, (Prog.run (host cfg) (moveContents cfg src dst) fs w').1 = .ok () →
      ∀ n r i, (w.tree src.place).get (r ++ (src.child n).path) = some i →
        ((Prog.run (host cfg) (moveContents cfg src dst) fs w').2.2.tree dst.place).get (r ++ (dst.child n).path) =
          some i := by
  have hduring : ∀ v, Moving src dst w v ∧ (v.tree src.place).get src.path ≠ none →
      (moveContents cfg src dst).during (host cfg) Prog.anyFault
        (fun v => Moving src dst w v ∧ (v.tree src.place).get src.path ≠ none) (MoveEnds src) v :=
    fun v hv => moveContents_during hne hset hset' hv
  have hreach : Moving src dst w w' ∧ (w'.tree src.place).get src.path ≠ none := by
    have hsteps : Relation.ReflTransGen (fun v v' => ∃ _ : Unit, Prog.Leaves (host cfg) Prog.anyFault
        (moveContents cfg src dst) v v') w w' :=
      Relation.ReflTransGen.mono (fun _ _ hstep => ⟨(), hstep⟩) _ _ h
    have hbegin : Moving src dst w w ∧ (w.tree src.place).get src.path ≠ none := ⟨.refl hsrc hdst, hroot⟩
    refine Prog.reruns_of_during (I := fun v => Moving src dst w v ∧ (v.tree src.place).get src.path ≠ none)
      (fun _ v hv => ?_) hbegin hsteps
    exact Prog.during_mono (fun _ h => h) (fun _ _ _ _ => trivial) (hduring v hv)
  refine ⟨hreach.1, hreach.1.unlinked hunlinked, fun fs hok n r i hi => ?_⟩
  have hadmits := Prog.admits_of_forall (H := host cfg) (F := Prog.anyFault) (fun _ _ _ _ => trivial)
    (moveContents cfg src dst) fs w'
  have hends := Prog.run_of_during (hduring w' hreach) hadmits
  have hlast := (Prog.leaves_of_during (hduring w' hreach) (Prog.leaves_run hadmits)).1
  rw [Loc.child_path] at hi ⊢
  refine (hlast.kept _ i hi).resolve_left ?_
  rw [← Loc.child_path, hends hok n r]
  rintro ⟨⟩

end Strategy

theorem stopped_move_of_unmoved :
    let move := Strategy.moveContents server Strategy.canonDir (Strategy.dataDir "0c1d2e3f")
    let stopped := (Prog.run (host server) move [false, false, false, false, false, false, true] unmoved).2.2
    Moving Strategy.canonDir (Strategy.dataDir "0c1d2e3f") unmoved stopped ∧
      Unlinked Strategy.canonDir (Strategy.dataDir "0c1d2e3f") stopped ∧ ∀ fs, (Prog.run (host server) move fs stopped).1 = .ok () →
        ∀ n r i, (unmoved.tree .canon).get (r ++ [n]) = some i →
          ((Prog.run (host server) move fs stopped).2.2.tree (.data "0c1d2e3f")).get (r ++ [n]) = some i := by
  intro move stopped
  have hplaces : Strategy.canonDir.place ≠ (Strategy.dataDir "0c1d2e3f").place := by decide
  have hset : unmoved.Settable Strategy.canonDir.place := trivial
  have hset' : unmoved.Settable (Strategy.dataDir "0c1d2e3f").place := trivial
  have hadmits := Prog.admits_of_forall (H := host server) (F := Prog.anyFault) (fun _ _ _ _ => trivial) move
    [false, false, false, false, false, false, true] unmoved
  exact Strategy.stopped_moves_lose_nothing hplaces hset hset' project_closed emptyDir_closed
    (unlinked_of_emptyDir rfl) (by decide) (.single (Prog.leaves_run hadmits))

end Silo.Workspace
