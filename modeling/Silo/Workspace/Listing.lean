import Silo.Lib.Prog
import Silo.Workspace.FileTree
import Silo.Workspace.Diff
import Silo.Workspace.World

namespace Silo.Workspace

open Silo.Lib

namespace Tree

variable {t : Tree} {path k : String} {entry : TreeEntry}

theorem get_insert_self : (t.insert path entry).get path = some entry := by
  induction t with
  | nil => simp [insert, get]
  | cons e t ih =>
      obtain ⟨k, v⟩ := e
      rw [insert]
      split
      · simp [get]
      · next hk =>
          split
          · simp [get]
          · rw [get, if_neg hk, ih]

theorem get_insert_of_ne (h : path ≠ k) : (t.insert path entry).get k = t.get k := by
  induction t with
  | nil => simp [insert, get, h]
  | cons e t ih =>
      obtain ⟨l, v⟩ := e
      rw [insert]
      split
      · next hl => rw [get, get, if_neg h, if_neg (hl ▸ h)]
      · split
        · rw [get, if_neg h]
        · rw [get, get, ih]

theorem mem_keys_iff : path ∈ t.map (·.1) ↔ ∃ entry, t.get path = some entry := by
  induction t with
  | nil => simp [get]
  | cons e t ih =>
      obtain ⟨l, v⟩ := e
      by_cases hl : l = path
      · simp [get, hl]
      · simp [get, hl, Ne.symm hl, ih]

def Sorted (t : Tree) : Prop := t.Pairwise fun a b => a.1 < b.1

theorem mem_keys_insert : k ∈ (t.insert path entry).map (·.1) ↔ k = path ∨ k ∈ t.map (·.1) := by
  rw [mem_keys_iff, mem_keys_iff]
  by_cases h : path = k
  · subst h
    simp [get_insert_self]
  · simp [get_insert_of_ne h, Ne.symm h]

theorem Sorted.insert (h : t.Sorted) (path : String) (entry : TreeEntry) : (t.insert path entry).Sorted := by
  induction t with
  | nil => simp [Tree.insert, Sorted]
  | cons e t ih =>
      obtain ⟨l, v⟩ := e
      obtain ⟨hl, ht⟩ := List.pairwise_cons.mp h
      rw [Tree.insert]
      split
      · next hpath =>
          apply List.pairwise_cons.mpr
          refine ⟨?_, ht⟩
          intro e he
          exact hpath ▸ hl e he
      · next hne =>
          split
          · next hlt =>
              apply List.pairwise_cons.mpr
              refine ⟨?_, h⟩
              intro e he
              rcases List.mem_cons.mp he with rfl | he
              · exact hlt
              · exact String.lt_trans hlt (hl e he)
          · next hnlt =>
              apply List.pairwise_cons.mpr
              refine ⟨?_, ih ht⟩
              intro e he
              rcases mem_keys_insert.mp (List.mem_map_of_mem he) with hpath | hmem
              · rw [hpath]
                exact (Std.lt_trichotomy l path).resolve_right fun h => h.elim hne hnlt
              · obtain ⟨e', he', heq⟩ := List.mem_map.mp hmem
                exact heq ▸ hl e' he'

end Tree

namespace Path

/-- The names of the path are text. -/
def Textual (p : Path) : Prop := texts p ≠ none

/-- The text of a path, in a manifest. -/
def key (p : Path) : String := "/".intercalate ((texts p).getD [])

theorem toText_of_textual {p : Path} (h : p.Textual) : toText p = .ok p.key := by
  rw [toText, key]
  cases hp : texts p with
  | none => exact absurd hp h
  | some ss => rfl

theorem texts_cons {n : Name} {p : Path} {ss : List String} (h : texts (n :: p) = some ss) :
    ∃ s ss', n.1 = .text s ∧ texts p = some ss' ∧ ss = ss' ++ [s] := by
  rw [texts] at h
  split at h
  · next s ss' hn hp =>
      cases h
      exact ⟨s, ss', hn, hp, rfl⟩
  · cases h

theorem texts_injective {p q : Path} {ss : List String} (hp : texts p = some ss) (hq : texts q = some ss) :
    p = q := by
  induction p generalizing q ss with
  | nil =>
      cases hp
      cases q with
      | nil => rfl
      | cons m q =>
          obtain ⟨s, ss', -, -, hss⟩ := texts_cons hq
          simp at hss
  | cons n p ih =>
      obtain ⟨s, ss', hn, hp', rfl⟩ := texts_cons hp
      cases q with
      | nil => simp [texts] at hq
      | cons m q =>
          obtain ⟨s', ss'', hm, hq', hss⟩ := texts_cons hq
          obtain ⟨rfl, hs⟩ := List.append_inj' hss rfl
          cases hs
          rw [ih hp' hq', Subtype.ext (hn.trans hm.symm)]

theorem texts_names {p : Path} {ss : List String} (h : texts p = some ss) : ∀ s ∈ ss, '/' ∉ s.toList := by
  induction p generalizing ss with
  | nil =>
      cases h
      simp
  | cons n p ih =>
      obtain ⟨s, ss', hn, hp, rfl⟩ := texts_cons h
      intro s' hs'
      rcases List.mem_append.mp hs' with hs' | hs'
      · exact ih hp s' hs'
      · have hname : (OsStr.text s).IsName := hn ▸ n.2
        rw [List.mem_singleton.mp hs']
        exact hname.2

theorem texts_ne_nil {p : Path} {ss : List String} (h : texts p = some ss) (hp : p ≠ []) : ss ≠ [] := by
  cases p with
  | nil => exact absurd rfl hp
  | cons n p =>
      obtain ⟨s, ss', -, -, rfl⟩ := texts_cons h
      simp

theorem key_injective {p q : Path} (hp : p.Textual) (hq : q.Textual) (hp0 : p ≠ []) (hq0 : q ≠ [])
    (h : p.key = q.key) : p = q := by
  obtain ⟨ss, hss⟩ := Option.ne_none_iff_exists'.mp hp
  obtain ⟨ss', hss'⟩ := Option.ne_none_iff_exists'.mp hq
  have hsplit : ∀ {p : Path} {ss : List String}, texts p = some ss → p ≠ [] →
      p.key.toList.splitOn '/' = ss.map String.toList := by
    intro p ss hs hp0
    rw [key, hs, Option.getD_some, String.toList_intercalate]
    apply List.splitOn_intercalate
    · intro l hl
      obtain ⟨s, hs', rfl⟩ := List.mem_map.mp hl
      exact texts_names hs s hs'
    · simpa using texts_ne_nil hs hp0
  have hmap : ss.map String.toList = ss'.map String.toList := by
    rw [← hsplit hss hp0, ← hsplit hss' hq0, h]
  have heq : ss = ss' := List.map_injective_iff.mpr (fun a b => String.toList_inj.mp) hmap
  exact texts_injective hss (heq ▸ hss')

end Path

namespace FileTree

/-- Names and link targets are text. -/
structure Textual (t : FileTree) : Prop where
  names : ∀ p, t.get p ≠ none → p.Textual
  targets : ∀ p target, t.get p = some (.symlink target) → ∃ s, target = .text s

theorem Sound.dir_above {t : FileTree} (h : t.Sound) {r p : Path} (hget : t.get (r ++ p) ≠ none) (hr : r ≠ []) :
    ∃ mode, t.get p = some (.dir mode) := by
  induction r with
  | nil => exact absurd rfl hr
  | cons n r ih =>
      obtain ⟨mode, hmode⟩ := h.closed n (r ++ p) hget
      cases r with
      | nil => exact ⟨mode, hmode⟩
      | cons m r =>
          apply ih
          · rw [hmode]
            exact Option.some_ne_none _
          · simp

def Within (t : FileTree) (p : Path) (depth : Nat) : Prop := ∀ r, t.get (r ++ p) ≠ none → r.length ≤ depth

theorem Within.child {t : FileTree} {p : Path} {depth : Nat} (h : t.Within p (depth + 1)) (n : Name) :
    t.Within (n :: p) depth := by
  intro r hr
  have hlen := h (r ++ [n]) (by simpa using hr)
  simpa using hlen

end FileTree

namespace Snapshot

variable (cfg : Config) (t : FileTree)

def linkText : OsStr → String
  | .text s => s
  | .raw _ => ""

def recordOf : Inode → TreeEntry
  | .file mode bytes => .file (cfg.sha256 bytes).1 bytes.length (some (mode.setWidth 32))
  | .dir mode => .dir (some (mode.setWidth 32))
  | .symlink target => .symlink (linkText target)

/-- What a walk of the tree below `dir` adds to the records. -/
def listing : Nat → Tree → Path → Tree
  | 0, tree, _ => tree
  | depth + 1, tree, dir => (t.names dir).foldl (fun tree n =>
      match t.get (n :: dir) with
      | none => tree
      | some (.dir mode) => listing depth (tree.insert (Path.key (n :: dir)) (recordOf cfg (.dir mode))) (n :: dir)
      | some node => tree.insert (Path.key (n :: dir)) (recordOf cfg node)) tree

/-- The part of the walk that begins at the entry `p`. -/
def visit (depth : Nat) (tree : Tree) (p : Path) : Tree :=
  match t.get p with
  | none => tree
  | some (.dir mode) => listing cfg t depth (tree.insert p.key (recordOf cfg (.dir mode))) p
  | some node => tree.insert p.key (recordOf cfg node)

theorem listing_succ (depth : Nat) (tree : Tree) (dir : Path) :
    listing cfg t (depth + 1) tree dir =
      (t.names dir).foldl (fun tree n => visit cfg t depth tree (n :: dir)) tree := rfl

variable {cfg t} {tree : Tree} {depth : Nat} {k : String}

theorem sorted_listing (hs : tree.Sorted) (depth : Nat) (dir : Path) : (listing cfg t depth tree dir).Sorted := by
  induction depth generalizing tree dir with
  | zero => exact hs
  | succ depth ih =>
      rw [listing_succ]
      induction t.names dir generalizing tree with
      | nil => exact hs
      | cons n ns ihns =>
          rw [List.foldl_cons]
          apply ihns
          rw [visit]
          split
          · exact hs
          · exact ih (hs.insert _ _) _
          · exact hs.insert _ _

theorem get_listing_of_ne {dir : Path} (hk : ∀ r, r ≠ [] → t.get (r ++ dir) ≠ none → Path.key (r ++ dir) ≠ k) :
    (listing cfg t depth tree dir).get k = tree.get k := by
  induction depth generalizing tree dir with
  | zero => rfl
  | succ depth ih =>
      rw [listing_succ]
      have hvisit : ∀ (tree : Tree) (n : Name), (visit cfg t depth tree (n :: dir)).get k = tree.get k := by
        intro tree n
        have hkey : t.get (n :: dir) ≠ none → Path.key (n :: dir) ≠ k := fun h => hk [n] (by simp) h
        rw [visit]
        split
        · rfl
        · next mode hget =>
            rw [ih, Tree.get_insert_of_ne (hkey (by rw [hget]; exact Option.some_ne_none _))]
            intro r _ hr
            have hne := hk (r ++ [n]) (by simp) (by simpa using hr)
            simpa using hne
        · next node _ hget =>
            exact Tree.get_insert_of_ne (hkey (by rw [hget]; exact Option.some_ne_none _))
      induction t.names dir generalizing tree with
      | nil => rfl
      | cons n ns ihns => rw [List.foldl_cons, ihns, hvisit]

theorem get_visit_of_ne {p : Path} (hk : ∀ r, t.get (r ++ p) ≠ none → Path.key (r ++ p) ≠ k) :
    (visit cfg t depth tree p).get k = tree.get k := by
  have hkey : t.get p ≠ none → p.key ≠ k := hk []
  rw [visit]
  split
  · rfl
  · next mode hget =>
      rw [get_listing_of_ne fun r _ hr => hk r hr,
        Tree.get_insert_of_ne (hkey (by rw [hget]; exact Option.some_ne_none _))]
  · next node _ hget => exact Tree.get_insert_of_ne (hkey (by rw [hget]; exact Option.some_ne_none _))

theorem key_ne_of_name_ne (ht : t.Textual) {dir r r' : Path} {n m : Name} (hnm : n ≠ m)
    (hr : t.get (r ++ n :: dir) ≠ none) (hr' : t.get (r' ++ m :: dir) ≠ none) :
    Path.key (r ++ n :: dir) ≠ Path.key (r' ++ m :: dir) := by
  intro h
  have heq := Path.key_injective (ht.names _ hr) (ht.names _ hr') (by simp) (by simp) h
  have hlist : (r ++ [n]) ++ dir = (r' ++ [m]) ++ dir := by simpa using heq
  have hlast := (List.append_inj' (List.append_cancel_right hlist) rfl).2
  exact hnm (List.singleton_inj.mp hlast)

theorem get_listing (ht : t.Textual) (hs : t.Sound) {dir r : Path} {node : Inode} (hwithin : t.Within dir depth)
    (hr : r ≠ []) (hnode : t.get (r ++ dir) = some node) :
    (listing cfg t depth tree dir).get (Path.key (r ++ dir)) = some (recordOf cfg node) := by
  induction depth generalizing tree dir r with
  | zero =>
      have hlen := hwithin r (by rw [hnode]; exact Option.some_ne_none _)
      exact absurd (List.length_eq_zero_iff.mp (Nat.le_zero.mp hlen)) hr
  | succ depth ih =>
      obtain ⟨r', n, rfl⟩ : ∃ r' n, r = r' ++ [n] := ⟨_, _, (List.dropLast_append_getLast hr).symm⟩
      have hpath : r' ++ [n] ++ dir = r' ++ n :: dir := by simp
      rw [hpath] at hnode ⊢
      have hsome : t.get (r' ++ n :: dir) ≠ none := by
        rw [hnode]
        exact Option.some_ne_none _
      -- the entry that the walk takes on its way to `r'`
      have hvisit : ∀ tree : Tree,
          (visit cfg t depth tree (n :: dir)).get (Path.key (r' ++ n :: dir)) = some (recordOf cfg node) := by
        intro tree
        rw [visit]
        cases hr' : r' with
        | nil =>
            rw [hr', List.nil_append] at hnode
            rw [hnode, List.nil_append]
            cases node with
            | dir mode =>
                simp only
                rw [get_listing_of_ne, Tree.get_insert_self]
                intro r hr hget heq
                have hdir : t.get (n :: dir) ≠ none := by
                  rw [hnode]
                  exact Option.some_ne_none _
                have happ := Path.key_injective (ht.names _ hget) (ht.names _ hdir) (by simp) (by simp) heq
                exact hr (by simpa using happ)
            | file mode bytes => exact Tree.get_insert_self
            | symlink target => exact Tree.get_insert_self
        | cons m r'' =>
            obtain ⟨mode, hmode⟩ := hs.dir_above hsome (by simp [hr'])
            rw [hmode]
            simp only
            rw [← hr']
            exact ih (hwithin.child n) (by simp [hr']) hnode
      have hmem : n ∈ t.names dir := by
        rw [FileTree.mem_names]
        by_contra hnone
        exact hsome (hs.none_below hnone r')
      have hnodup := t.names_nodup (p := dir)
      rw [listing_succ]
      -- the names before and after `n` have keys of their own
      obtain ⟨before, after, hsplit⟩ := List.append_of_mem hmem
      rw [hsplit] at hnodup ⊢
      rw [List.foldl_append, List.foldl_cons]
      have hafter : n ∉ after := by
        have hcons := (List.nodup_append.mp hnodup).2.1
        exact (List.nodup_cons.mp hcons).1
      have hrest : ∀ (ms : List Name) (tree : Tree), n ∉ ms →
          (ms.foldl (fun tree m => visit cfg t depth tree (m :: dir)) tree).get (Path.key (r' ++ n :: dir)) =
            tree.get (Path.key (r' ++ n :: dir)) := by
        intro ms
        induction ms with
        | nil => exact fun tree _ => rfl
        | cons m ms ihms =>
            intro tree hm
            rw [List.foldl_cons, ihms _ (fun h => hm (List.mem_cons_of_mem _ h)), get_visit_of_ne]
            intro r hr
            apply key_ne_of_name_ne ht _ hr hsome
            rintro rfl
            exact hm List.mem_cons_self
      rw [hrest after _ hafter, hvisit]

end Snapshot

end Silo.Workspace
