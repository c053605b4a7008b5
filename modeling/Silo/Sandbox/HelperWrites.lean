import Silo.Sandbox.HelperFiles

namespace Silo.Sandbox

open Silo.Shell Silo.Shell.HostFs

/-- A path by way of two names below a directory that is there, with no link at either. -/
structure Below (cwd : Location) (fs : HostFs) (path : OsBytes) (dir : Location) (up name : OsBytes) : Prop where
  base : ∃ base, path = base ++ slash :: up ++ slash :: name ∧
    fs.Resolves Arrives maxLinks (startOf cwd (isAbsolute path)) (pieces base) dir
  no_nul : 0 ∉ path
  up_name : IsName up ∧ IsClean up
  name_name : IsName name ∧ IsClean name
  up_plain : ∀ target, fs.node (dir ++ [up]) ≠ some (.link target)
  name_plain : ∀ target, fs.node (dir ++ [up] ++ [name]) ≠ some (.link target)

theorem pieces_append_slash (a b : OsBytes) (hb : slash ∉ b) : pieces (a ++ slash :: b) = pieces a ++ [b] := by
  rw [pieces, pieces, List.splitOn_append_cons_self, List.splitOn_eq_singleton hb]

namespace Below

variable {cwd : Location} {refuses : Location → Bool} {fs made : HostFs} {path : OsBytes} {dir : Location}
  {up name : OsBytes}

theorem compOf_name {piece : OsBytes} (h : IsName piece) : PathBuf.compOf piece = some (.normal piece) := by
  obtain ⟨hnil, hdot, hup⟩ := h
  simp [PathBuf.compOf, hnil, hdot, hup]

theorem pieces_path (h : Below cwd fs path dir up name) {base : OsBytes}
    (hpath : path = base ++ slash :: up ++ slash :: name) : pieces path = pieces base ++ [up] ++ [name] := by
  rw [hpath, pieces_append_slash _ _ h.name_name.2.1, pieces_append_slash _ _ h.up_name.2.1]

theorem ofBytes_path (h : Below cwd fs path dir up name) {base : OsBytes}
    (hpath : path = base ++ slash :: up ++ slash :: name) :
    (PathBuf.ofBytes path).comps = (PathBuf.ofBytes base).comps ++ [PathComp.normal up, .normal name] := by
  obtain ⟨first, others, hbase⟩ := List.exists_cons_of_ne_nil (List.splitOn_ne_nil slash base)
  have hpieces : pieces base = first :: others := hbase
  have hcomps : (pieces path).filterMap PathBuf.compOf =
      (pieces base).filterMap PathBuf.compOf ++ [PathComp.normal up, .normal name] := by
    rw [h.pieces_path hpath, List.filterMap_append, List.filterMap_append]
    simp [compOf_name h.up_name.1, compOf_name h.name_name.1]
  have hhead : (pieces path).head? = (pieces base).head? := by
    rw [h.pieces_path hpath, hpieces]
    rfl
  simp only [PathBuf.ofBytes, hhead, hcomps]
  split <;> simp

/-- The components of the path, and where those before the two names lead. -/
theorem comps_path (h : Below cwd fs path dir up name) : ∃ comps : List PathComp,
    (PathBuf.ofBytes path).comps = (.normal name :: .normal up :: comps).reverse ∧
      PathBuf.Spelled (.normal up :: comps) ∧
      fs.Resolves Arrives maxLinks (startOf cwd (isAbsolute path)) (written comps) dir := by
  obtain ⟨base, hpath, hbase⟩ := h.base
  have hspelled := PathBuf.spelled_ofBytes h.no_nul
  have hcomps := h.ofBytes_path hpath
  refine ⟨(PathBuf.ofBytes base).comps.reverse, by rw [hcomps]; simp, ?_, ?_⟩
  · intro comp hcomp
    apply hspelled comp
    rw [hcomps]
    rcases List.mem_cons.mp hcomp with rfl | hcomp
    · simp
    · exact List.mem_append_left _ (List.mem_reverse.mp hcomp)
  · rw [written, List.reverse_reverse]
    apply hbase.comps
    rintro location rest found ⟨rfl, -⟩ p hp
    cases hp

/-- Making the parent makes the directory of the first name, or nothing. -/
theorem createDirAll_cases (h : Below cwd fs path dir up name) {comps : List PathComp}
    (hs : PathBuf.Spelled (.normal up :: comps))
    (hdir : fs.Resolves Arrives maxLinks (startOf cwd (isAbsolute path)) (written comps) dir)
    (hmade : fs.createDirAll cwd refuses (isAbsolute path) (.normal up :: comps) = .ok made) :
    made = fs ∨ (fs.node (dir ++ [up]) = none ∧ made = fs.add (dir ++ [up]) (.dir true)) := by
  obtain hmkdir | ⟨-, rfl⟩ | ⟨above, habove, hmkdir | ⟨-, rfl⟩⟩ := HostFs.createDirAll_cases hmade
  · obtain ⟨other, found, hother, hfound, -, hnone, rfl⟩ := mkdir_cases hmkdir
    cases hother
    obtain rfl := hdir.unique hfound
    exact .inr ⟨hnone, rfl⟩
  · exact .inl rfl
  · obtain rfl := createDirAll_of_resolves (fun comp hcomp => hs comp (List.mem_cons_of_mem _ hcomp)) habove hdir
    obtain ⟨other, found, hother, hfound, -, hnone, rfl⟩ := mkdir_cases hmkdir
    cases hother
    obtain rfl := hdir.unique hfound
    exact .inr ⟨hnone, rfl⟩
  · exact .inl (createDirAll_of_resolves (fun comp hcomp => hs comp (List.mem_cons_of_mem _ hcomp)) habove hdir)

theorem lands (h : Below cwd fs path dir up name) (hext : fs.Extends made)
    {location : Location}
    (hland : made.land maxLinks (startOf cwd (isAbsolute path)) (pieces path) = some location) :
    location = dir ++ [up] ++ [name] := by
  obtain ⟨base, hpath, hbase⟩ := h.base
  have hopens := resolves_of_land hland
  rw [h.pieces_path hpath, List.append_assoc] at hopens
  obtain ⟨found, fewer, -, hfound, hrest⟩ := hopens.split (pieces base) (fun _ _ _ ⟨one, hone, _⟩ => by simp [hone]) rfl
  obtain rfl := hfound.unique (hbase.extend hext)
  have hlast := hrest.step (fun ⟨one, hone, _⟩ => by simp at hone) h.up_name.1
    fun target htarget => h.up_plain target (hext.links htarget)
  obtain ⟨-, -, ⟨hlocation, -⟩ | ⟨target, -, -, hlink, -⟩⟩ := hlast.opens_last
  · exact hlocation
  · exact absurd (hext.links hlink) (h.name_plain target)

theorem extends_made (h : Below cwd fs path dir up name)
    (hmade : made = fs ∨ (fs.node (dir ++ [up]) = none ∧ made = fs.add (dir ++ [up]) (.dir true))) :
    fs.Extends made := by
  rcases hmade with rfl | ⟨hnone, rfl⟩
  · exact Extends.refl _
  · exact extends_add (.inl hnone) nofun

end Below

namespace HelperHost

variable {h : HelperHost} {disk : Disk} {path : String} {dir : Location} {up name : OsBytes}

theorem createParent_of_below (hb : Below h.cwd disk.fs (pathBytes path) dir up name) :
    ∃ comps, PathBuf.Spelled (.normal up :: comps) ∧
      disk.fs.Resolves Arrives maxLinks (startOf h.cwd (isAbsolute (pathBytes path))) (written comps) dir ∧
      h.createParent disk path =
        disk.fs.createDirAll h.cwd h.refuses (isAbsolute (pathBytes path)) (.normal up :: comps) := by
  obtain ⟨comps, hcomps, hs, hdir⟩ := hb.comps_path
  refine ⟨comps, hs, hdir, ?_⟩
  have hparent : (PathBuf.ofBytes (pathBytes path)).parent =
      some ⟨isAbsolute (pathBytes path), (.normal up :: comps).reverse⟩ := by
    rw [PathBuf.parent, hcomps, if_neg (by simp)]
    simp [PathBuf.ofBytes]
  have hnul : 0 ∉ PathBuf.bytes ⟨isAbsolute (pathBytes path), (.normal up :: comps).reverse⟩ :=
    PathBuf.Spelled.no_nul (fun comp hcomp => hs comp (List.mem_reverse.mp hcomp)) _
  rw [createParent, hparent]
  dsimp only
  rw [if_neg (by simp), if_neg hnul, List.reverse_reverse]

/-- The state of the directories once the parent of the path has been asked for. -/
def Made (disk : Disk) (dir : Location) (up : OsBytes) (made : HostFs) : Prop :=
  made = disk.fs ∨ (disk.fs.node (dir ++ [up]) = none ∧ made = disk.fs.add (dir ++ [up]) (.dir true))

theorem made_of_createParent (hb : Below h.cwd disk.fs (pathBytes path) dir up name) {made : HostFs}
    (hmade : h.createParent disk path = .ok made ∨ h.createParent disk path = .error made) : Made disk dir up made := by
  obtain ⟨comps, hs, hdir, hparent⟩ := createParent_of_below hb
  rw [hparent] at hmade
  rcases hmade with hmade | hmade
  · exact hb.createDirAll_cases hs hdir hmade
  · exact .inl (createDirAll_error_of_resolves hs hmade hdir)

/-- What `write_file` can do with a path of two names below a directory. -/
theorem writeFile_cases (hb : Below h.cwd disk.fs (pathBytes path) dir up name) {contentB64 : String}
    {content : List UInt8} (hcontent : h.unb64 contentB64 = .ok content) :
    ∃ made, Made disk dir up made ∧
      ((∃ message, h.writeFile disk path contentB64 false = (.error message, { disk with fs := made })) ∨
        (∃ message room, h.writeFile disk path contentB64 false =
          (.error message, { disk with fs := made }.put (dir ++ [up] ++ [name]) (content.take room))) ∨
        h.writeFile disk path contentB64 false =
          (.ok (.written (UInt64.ofNat content.length)), { disk with fs := made }.put (dir ++ [up] ++ [name]) content)) := by
  rw [writeFile, hcontent]
  dsimp only
  cases hmade : h.createParent disk path with
  | error made => exact ⟨made, made_of_createParent hb (.inr hmade), .inl ⟨_, rfl⟩⟩
  | ok made =>
      have hm := made_of_createParent hb (.inl hmade)
      refine ⟨made, hm, ?_⟩
      dsimp only
      cases hopen : h.openFile { disk with fs := made } path with
      | none => exact .inl ⟨_, rfl⟩
      | some location =>
          rw [openFile] at hopen
          split at hopen
          · cases hopen
          split at hopen
          · rename_i found hland
            split at hopen <;> cases hopen
            obtain rfl := hb.lands (hb.extends_made hm) hland
            simp only [Bool.false_eq_true, false_and, if_false, writeAll, List.nil_append]
            cases hroom : h.room (dir ++ [up] ++ [name]) with
            | some room => exact .inr (.inl ⟨_, room, rfl⟩)
            | none => exact .inr (.inr rfl)
          · cases hopen

theorem Made.node {made : HostFs} (h : Made disk dir up made) {other : Location} (hne : other ≠ dir ++ [up]) :
    made.node other = disk.fs.node other := by
  rcases h with rfl | ⟨-, rfl⟩
  · rfl
  · exact add_node_of_ne hne

/-- The write goes to the file below the directory and nowhere else, and when it succeeds the
file holds the content. -/
theorem writeFile_below (hb : Below h.cwd disk.fs (pathBytes path) dir up name) {contentB64 : String}
    {content : List UInt8} (hcontent : h.unb64 contentB64 = .ok content)
    {result : Except String HelperPayload} {after : Disk}
    (hwrite : h.writeFile disk path contentB64 false = (result, after)) :
    (∀ other, other ≠ dir ++ [up] ++ [name] → after.content other = disk.content other) ∧
      (∀ other, other ≠ dir ++ [up] → other ≠ dir ++ [up] ++ [name] → after.fs.node other = disk.fs.node other) ∧
      (∀ payload, result = .ok payload → payload = .written (UInt64.ofNat content.length) ∧
        after.fs.node (dir ++ [up] ++ [name]) = some .file ∧ after.content (dir ++ [up] ++ [name]) = content) := by
  obtain ⟨made, hmade, ⟨message, heq⟩ | ⟨message, room, heq⟩ | heq⟩ := writeFile_cases hb hcontent
  all_goals
    rw [hwrite, Prod.mk.injEq] at heq
    obtain ⟨rfl, rfl⟩ := heq
  · exact ⟨fun _ _ => rfl, fun _ hne _ => hmade.node hne, fun _ h => nomatch h⟩
  · refine ⟨fun _ hne => if_neg hne, fun _ hup hne => ?_, fun _ h => nomatch h⟩
    exact (add_node_of_ne hne).trans (hmade.node hup)
  · refine ⟨fun _ hne => if_neg hne, fun _ hup hne => ?_, ?_⟩
    · exact (add_node_of_ne hne).trans (hmade.node hup)
    · rintro payload ⟨⟩
      exact ⟨rfl, if_pos rfl, if_pos rfl⟩

/-- Nothing is in the way of the file below the directory. -/
structure Clear (h : HelperHost) (disk : Disk) (dir : Location) (up name : OsBytes) : Prop where
  search : disk.fs.searchable dir = true
  up_free : (disk.fs.node (dir ++ [up]) = none ∧ h.refuses (dir ++ [up]) = false) ∨
    disk.fs.node (dir ++ [up]) = some (.dir true)
  name_free : disk.fs.node (dir ++ [up] ++ [name]) = none ∨ disk.fs.node (dir ++ [up] ++ [name]) = some .file
  allowed : h.refuses (dir ++ [up] ++ [name]) = false
  room : h.room (dir ++ [up] ++ [name]) = none

theorem createParent_of_clear (hb : Below h.cwd disk.fs (pathBytes path) dir up name) (hc : h.Clear disk dir up name) :
    ∃ made, h.createParent disk path = .ok made ∧ Made disk dir up made ∧ made.node (dir ++ [up]) = some (.dir true) := by
  obtain ⟨comps, hs, hdir, hparent⟩ := createParent_of_below hb
  rw [hparent, createDirAll, mkdir, walk_of_resolves hdir]
  dsimp only
  rcases hc.up_free with ⟨hnone, hallowed⟩ | hthere
  · rw [hc.search, hnone, hallowed]
    exact ⟨_, rfl, .inr ⟨hnone, rfl⟩, if_pos rfl⟩
  · have hfound : disk.fs.Resolves Arrives maxLinks (startOf h.cwd (isAbsolute (pathBytes path)))
        (written (.normal up :: comps)) (dir ++ [up]) := by
      have hlast : disk.fs.Resolves Arrives 0 dir [up] (dir ++ [up]) :=
        .down hc.search hb.up_name.1 ⟨_, hthere, by rintro _ ⟨⟩⟩ (.done ⟨rfl, rfl⟩)
      rw [written_cons]
      exact hdir.append hlast
    have hisDir : disk.fs.isDir h.cwd ⟨isAbsolute (pathBytes path), (.normal up :: comps).reverse⟩ = true := by
      rw [isDir, (canonicalize_written hs).mpr ⟨.inr (by simp), hfound⟩]
      simp [hthere]
    rw [hthere]
    simp only [Option.isNone_some, Bool.and_false, Bool.false_and, Bool.false_eq_true, if_false, hisDir, if_true]
    exact ⟨_, rfl, .inl rfl, hthere⟩

theorem writeFile_of_clear (hb : Below h.cwd disk.fs (pathBytes path) dir up name) (hc : h.Clear disk dir up name)
    {contentB64 : String} {content : List UInt8} (hcontent : h.unb64 contentB64 = .ok content) :
    (h.writeFile disk path contentB64 false).1 = .ok (.written (UInt64.ofNat content.length)) := by
  obtain ⟨made, hparent, hmade, hthere⟩ := createParent_of_clear hb hc
  obtain ⟨base, hpath, hbase⟩ := hb.base
  have hext := hb.extends_made hmade
  have hnode : made.node (dir ++ [up] ++ [name]) = disk.fs.node (dir ++ [up] ++ [name]) := hmade.node (by simp)
  have hsearch : made.searchable (dir ++ [up]) = true := by simp [searchable, hthere]
  have hopens : made.Resolves made.Opens 0 dir ([up] ++ [name]) (dir ++ [up] ++ [name]) :=
    .down (hext.searchable hc.search) hb.up_name.1 ⟨_, hthere, by rintro _ ⟨⟩⟩
      (.done ⟨name, rfl, rfl, hsearch, hb.name_name.1, by rw [hnode]; exact hc.name_free⟩)
  have hland := land_of_resolves ((hbase.extend hext).append hopens)
  rw [← List.append_assoc, ← hb.pieces_path hpath] at hland
  have hne : ¬ (pathBytes path = [] ∨ 0 ∈ pathBytes path) := by
    rintro (hnil | hnul)
    · rw [hnil] at hpath
      simp at hpath
    · exact hb.no_nul hnul
  have hopen : h.openFile { disk with fs := made } path = some (dir ++ [up] ++ [name]) := by
    rw [openFile, if_neg hne]
    dsimp only
    rw [show maxLinks = maxLinks + 0 from rfl, hland]
    dsimp only
    rw [hc.allowed]
    rfl
  rw [writeFile, hcontent]
  dsimp only
  rw [hparent]
  dsimp only
  rw [hopen]
  dsimp only
  rw [writeAll, hc.room]

end HelperHost

end Silo.Sandbox
