import Silo.Sandbox.Scratch

namespace Silo.Sandbox

open Silo.Lib Silo.Shell.HostFs Gvisor
open Silo.Shell hiding display

namespace Gvisor

def covering (mounts : List Mount) (p : Location) : Option Mount :=
  mounts.reverse.find? fun m => (PathBuf.ofLocation p).startsWith m.place

theorem backing_eq_covering (mounts : List Mount) (p : Location) :
    backing mounts p = (covering mounts p).map fun m => m.backing p := by
  induction mounts using List.reverseRecOn with
  | nil => rfl
  | append_singleton mounts m ih =>
      rw [covering, List.reverse_append, List.reverse_singleton, List.singleton_append, List.find?_cons]
      rw [backing, List.foldl_append, List.foldl_cons, List.foldl_nil, overlay]
      split
      · rename_i hcovers
        rw [hcovers]
        rfl
      · rename_i hcovers
        rw [Bool.eq_false_iff.mpr hcovers]
        exact ih

end Gvisor

namespace Running

variable (running : Running)

def mounts : List Mount := (generateConfig running.spec).mounts

/-- The place on the host of what is at a path of the sandbox. The source of a bind mount is
looked up when it is mounted. -/
def hostPlace (p : Location) : Option Location :=
  match covering running.mounts p with
  | some m =>
    if m.type = "bind" then
      (running.fs.canonicalize [] (Utf8.encode m.source.toList)).map fun source => source ++ p.drop m.place.comps.length
    else none
  | none => none

-- What the file systems of the kernel have at the paths of the sandbox.
variable (kernel : Location → Option HostNode)

/-- The files as the sandboxed process sees them. The way to a mount is there. -/
def inside : HostFs where
  node p :=
    if running.mounts.any fun m => m.place.startsWith (.ofLocation p) && m.place ≠ .ofLocation p then some (.dir true)
    else
      match covering running.mounts p with
      | some m =>
        if m.type = "bind" then
          (running.hostPlace p).bind fun place => if place = [] then some (.dir true) else running.fs.node place
        else kernel p
      | none => none

/-- In the sandbox, the value is the path of something behind which there is this file of the host. -/
def Names (value : String) (file : Location) : Prop :=
  ∃ p, (running.inside kernel).entry workspaceMount (Utf8.encode value.toList) = some p ∧ running.hostPlace p = some file

end Running

def scratchFile (name : String) : Option OsBytes :=
  if name = "HOME" then some homeName
  else if name = "TMPDIR" then some tmpName
  else if name ∈ caEnvVars then some caName
  else none

namespace Running

variable (running : Running) (kernel : Location → Option HostNode)

def EnvNames (env : List (String × String)) : Prop :=
  ∀ entry ∈ env, ∀ file, scratchFile entry.1 = some file → running.Names kernel entry.2 (running.spec.scratch ++ [file])

/-- The variables of the container and of the commands name the files of the scratch space. -/
structure EnvValid : Prop where
  container : running.EnvNames kernel running.spec.env
  exec : running.EnvNames kernel (bashEnv running.scratch)

/-- In the sandbox, a text leads to a directory in which these files are those of the scratch space. -/
def Leads (names : List OsBytes) (text : String) : Prop :=
  ∃ dir, (running.inside kernel).canonicalize workspaceMount (Utf8.encode text.toList) = some dir ∧
    (running.inside kernel).searchable dir = true ∧
      ∀ name ∈ names, running.hostPlace (dir ++ [name]) = some (running.spec.scratch ++ [name])

end Running

section Text

variable {fs : HostFs} {cwd : Location} {path name : OsBytes}

theorem entry_child (hpath : path ≠ []) (hname : IsLast name) (p : Location) :
    fs.entry cwd (path ++ slash :: name) = some p ↔
      ∃ dir, fs.canonicalize cwd path = some dir ∧ fs.searchable dir = true ∧ fs.node (dir ++ [name]) ≠ none ∧
        p = dir ++ [name] := by
  have hnul : 0 ∈ path ++ slash :: name ↔ 0 ∈ path := by
    have hslash : (0 : UInt8) ≠ slash := by decide
    simp [hslash, hname.2.2]
  have hlast : ¬ (name = [] ∨ name = dot ∨ name = dotDot) := by
    rintro (h | h | h)
    · exact hname.1.1 h
    · exact hname.1.2.1 h
    · exact hname.1.2.2 h
  rw [HostFs.entry, canonicalize, pieces_append_slash path name hname.2.1, isAbsolute_append hpath]
  simp only [hnul, hpath, false_or, List.reverse_append, List.reverse_singleton, List.singleton_append, hlast, if_false,
    List.reverse_reverse]
  split
  · simp
  · rw [← startOf]
    cases fs.walk maxLinks (startOf cwd (isAbsolute path)) (pieces path) with
    | none => simp
    | some dir =>
        simp only [Option.some.injEq, exists_eq_left', Bool.and_eq_true, Option.isSome_iff_ne_none, ite_eq_iff]
        constructor
        · rintro (⟨⟨hsearch, hnode⟩, hp⟩ | ⟨-, hp⟩)
          · exact ⟨hsearch, hnode, hp.symm⟩
          · cases hp
        · rintro ⟨hsearch, hnode, rfl⟩
          exact .inl ⟨⟨hsearch, hnode⟩, rfl⟩

/-- Rewriting goes by whole components, so that it can be done before one is added. -/
theorem rewrite_child {root text : String} {name : List Char} (hname : '/' ∉ name)
    (hne : text ++ "/" ++ String.ofList name ≠ root) :
    rewrite root (text ++ "/" ++ String.ofList name) = rewrite root text ++ "/" ++ String.ofList name := by
  have hchild : (text ++ "/" ++ String.ofList name).toList = text.toList ++ '/' :: name := by simp
  have hstart : (root ++ "/").toList = root.toList ++ ['/'] := by simp
  rw [rewrite, if_neg hne, rewrite]
  by_cases hsame : text = root
  · subst text
    have hstrip : stripStart (root ++ "/") (root ++ "/" ++ String.ofList name) = some (String.ofList name) := by
      rw [stripStart, hchild, hstart, List.append_cons, if_pos (by simp)]
      congr 2
      simp
    rw [hstrip, if_pos rfl]
  · rw [if_neg hsame]
    by_cases hbelow : root.toList ++ ['/'] <+: text.toList
    · obtain ⟨rest, hrest⟩ := hbelow
      have htext : stripStart (root ++ "/") text = some (String.ofList rest) := by
        rw [stripStart, hstart, ← hrest, if_pos (by simp)]
        simp
      have hstrip : stripStart (root ++ "/") (text ++ "/" ++ String.ofList name) =
          some (String.ofList rest ++ "/" ++ String.ofList name) := by
        rw [stripStart, hchild, hstart, ← hrest, if_pos (by simp)]
        apply congrArg some
        apply String.toList_inj.mp
        simp
      rw [htext, hstrip]
      apply String.toList_inj.mp
      simp
    · have htext : stripStart (root ++ "/") text = none := by
        rw [stripStart, hstart, if_neg (by simpa using hbelow)]
      have hstrip : stripStart (root ++ "/") (text ++ "/" ++ String.ofList name) = none := by
        rw [stripStart, hchild, hstart, if_neg]
        rw [List.isPrefixOf_iff_prefix]
        intro hwithin
        rw [List.append_cons text.toList] at hwithin
        obtain hle | hle := List.prefix_or_prefix_of_prefix hwithin (List.prefix_append (text.toList ++ ['/']) name)
        · rcases List.prefix_concat_iff.mp hle with heq | hle
          · exact hsame (String.toList_inj.mp (List.append_inj_left' heq rfl).symm)
          · exact hbelow hle
        · obtain ⟨more, hmore⟩ := hle
          rw [← hmore, List.prefix_append_right_inj] at hwithin
          cases more using List.reverseRecOn with
          | nil =>
              rw [List.append_nil] at hmore
              exact hsame (String.toList_inj.mp (List.append_inj_left' hmore rfl))
          | append_singleton more last =>
              rw [← List.append_assoc] at hmore
              obtain rfl : last = '/' := by simpa using (List.append_inj_right' hmore rfl)
              exact hname (hwithin.subset (by simp))
      rw [htext, hstrip]

theorem rewrite_self (root : String) : rewrite root root = scratchDest := if_pos rfl

theorem rewrite_below (root rest : String) : rewrite root (root ++ "/" ++ rest) = scratchDest ++ "/" ++ rest := by
  have hne : root ++ "/" ++ rest ≠ root := by
    intro heq
    have hlength := congrArg (fun text => text.toList.length) heq
    simp only [String.toList_append, List.length_append] at hlength
    have hslash : "/".toList.length = 1 := rfl
    omega
  have hstrip : stripStart (root ++ "/") (root ++ "/" ++ rest) = some rest := by
    rw [stripStart, String.toList_append (s := root ++ "/"), if_pos (by simp), List.drop_left, String.ofList_toList]
  rw [rewrite, if_neg hne, hstrip]

theorem rewrite_apart {root text : String} (hne : text ≠ root) (hbelow : ∀ rest, text ≠ root ++ "/" ++ rest) :
    rewrite root text = text := by
  have hstrip : stripStart (root ++ "/") text = none := by
    rw [stripStart, if_neg]
    rw [List.isPrefixOf_iff_prefix]
    rintro ⟨rest, hrest⟩
    apply hbelow (String.ofList rest)
    apply String.toList_inj.mp
    rw [← hrest, String.toList_append (s := root ++ "/"), String.toList_ofList]
  rw [rewrite, if_neg hne, hstrip]

theorem rewrite_ne_empty {root text : String} (h : text ≠ "") : rewrite root text ≠ "" := by
  have hdest (rest : String) : scratchDest ++ rest ≠ "" := by
    intro hempty
    have hlist := congrArg String.toList hempty
    rw [String.toList_append] at hlist
    exact List.cons_ne_nil _ _ hlist
  rw [rewrite]
  split
  · exact hdest ""
  split
  · rw [String.append_assoc]
    exact hdest _
  · exact h

theorem encode_child (text : String) (name : List Char) :
    Utf8.encode (text ++ "/" ++ String.ofList name).toList = Utf8.encode text.toList ++ slash :: Utf8.encode name := by
  have hchild : (text ++ "/" ++ String.ofList name).toList = text.toList ++ '/' :: name := by simp
  rw [hchild, Utf8.encode_append]
  rfl

theorem display_join (base : OsBytes) {last : OsBytes} (hlast : IsLast last) (name : List Char) :
    display (join (join base last) (Utf8.encode name)) = display (join base last) ++ "/" ++ String.ofList name := by
  have hslash : Utf8.lossy (slash :: Utf8.encode name) = '/' :: name := Utf8.lossy_encode ('/' :: name)
  rw [display, join_join base hlast, Utf8.lossy_append _ (by decide), hslash]
  apply String.toList_inj.mp
  simp [display]

theorem display_ne_empty (h : path ≠ []) : display path ≠ "" := by
  intro hempty
  have hlossy : Utf8.lossy path = [] := by simpa [display] using congrArg String.toList hempty
  apply h
  rw [Utf8.eq_encode_of_lossy path (by simp [hlossy]), hlossy]
  rfl

theorem encode_ne_nil {text : String} (h : text ≠ "") : Utf8.encode text.toList ≠ [] := by
  intro hnil
  exact h (String.toList_inj.mp (Utf8.encode_eq_nil hnil))

theorem encode_displayLocation_append (location : Location) (last : OsBytes) :
    ∃ above, Utf8.encode (displayLocation (location ++ [last])).toList =
      above ++ slash :: Utf8.encode (Utf8.lossy last) := by
  have hbytes (l : Location) : (PathBuf.ofLocation l).bytes = slash :: [slash].intercalate l := by
    simp [PathBuf.ofLocation, PathBuf.bytes, Function.comp_def, PathBuf.compBytes]
  rw [encode_displayLocation, shown, List.map_append, List.map_singleton, hbytes]
  generalize location.map (fun name => Utf8.encode (Utf8.lossy name)) = above
  refine ⟨above.flatMap fun name => slash :: name, ?_⟩
  induction above with
  | nil => simp
  | cons name above ih =>
      obtain ⟨next, rest, hnext⟩ := List.exists_cons_of_ne_nil
        (List.append_ne_nil_of_right_ne_nil above (List.cons_ne_nil (Utf8.encode (Utf8.lossy last)) []))
      rw [hnext] at ih
      rw [List.cons_append, hnext, List.intercalate_cons_cons, List.append_assoc, List.singleton_append, ih]
      simp

end Text

theorem exists_text {name : OsBytes} (h : name ∈ scratchFiles) :
    ∃ text : List Char, name = Utf8.encode text ∧ '/' ∉ text ∧ text.take 2 ≠ ['s', 'i'] := by
  obtain rfl | rfl | rfl : name = homeName ∨ name = tmpName ∨ name = caName := by simpa [scratchFiles] using h
  · exact ⟨"home".toList, rfl, by decide, by decide⟩
  · exact ⟨"tmp".toList, rfl, by decide, by decide⟩
  · exact ⟨"proxy-ca.pem".toList, rfl, by decide, by decide⟩

theorem scratchName_ne (id : ShortId) {text : List Char} (h : text.take 2 ≠ ['s', 'i']) :
    scratchName id ≠ Utf8.encode text := by
  intro heq
  apply h
  rw [← Utf8.encode_injective heq, String.toList_append]
  rfl

theorem scratchName_ne_scratch (id : ShortId) : scratchName id ≠ Utf8.encode "scratch".toList :=
  scratchName_ne id (by decide)

theorem scratchName_ne_file (id : ShortId) {name : OsBytes} (h : name ∈ scratchFiles) : scratchName id ≠ name := by
  obtain ⟨text, rfl, -, hfirst⟩ := exists_text h
  exact scratchName_ne id hfirst

namespace Running

variable {running : Running} {kernel : Location → Option HostNode} {host : HostState}

/-- What has something of the host behind it is that, or a directory on the way to a mount. -/
theorem inside_of_hostPlace (kernel : Location → Option HostNode) {p place : Location} (hplace : running.hostPlace p = some place) :
    (running.inside kernel).node p = some (.dir true) ∨ (running.inside kernel).node p = running.fs.node place := by
  simp only [inside]
  split
  · exact .inl rfl
  rw [hostPlace] at hplace
  split at hplace
  · rename_i m hcovering
    split at hplace
    · rename_i hbind
      rw [if_pos hbind, hostPlace, hcovering]
      dsimp only
      rw [if_pos hbind, hplace, Option.bind_some]
      split
      · exact .inl rfl
      · exact .inr rfl
    · cases hplace
  · cases hplace

theorem inside_node {p place : Location} (hplace : running.hostPlace p = some place)
    (hnode : running.fs.node place ≠ none) : (running.inside kernel).node p ≠ none := by
  obtain heq | heq := inside_of_hostPlace kernel hplace <;> rw [heq]
  · exact Option.some_ne_none _
  · exact hnode

/-- A file of the scratch space is named when the path of its directory leads to one where it is. -/
theorem names_child {text : String} (htext : text ≠ "") {name : List Char} (hname : IsLast (Utf8.encode name))
    (hfile : running.fs.node (running.spec.scratch ++ [Utf8.encode name]) ≠ none) :
    running.Names kernel (text ++ "/" ++ String.ofList name) (running.spec.scratch ++ [Utf8.encode name]) ↔
      running.Leads kernel [Utf8.encode name] text := by
  rw [Names, encode_child]
  constructor
  · rintro ⟨p, hentry, hplace⟩
    obtain ⟨dir, hdir, hsearch, -, rfl⟩ := (entry_child (encode_ne_nil htext) hname p).mp hentry
    exact ⟨dir, hdir, hsearch, by simpa using hplace⟩
  · rintro ⟨dir, hdir, hsearch, hplace⟩
    have hplace := hplace _ (List.mem_singleton_self _)
    refine ⟨dir ++ [Utf8.encode name], ?_, hplace⟩
    rw [entry_child (encode_ne_nil htext) hname]
    exact ⟨dir, hdir, hsearch, inside_node hplace hfile, rfl⟩

theorem leads_iff {names : List OsBytes} {text : String} (hne : names ≠ []) :
    running.Leads kernel names text ↔ ∀ name ∈ names, running.Leads kernel [name] text := by
  constructor
  · rintro ⟨dir, hdir, hsearch, hplaces⟩ name hname
    refine ⟨dir, hdir, hsearch, ?_⟩
    intro other hother
    rw [List.mem_singleton.mp hother]
    exact hplaces name hname
  · intro h
    obtain ⟨first, rest, rfl⟩ := List.exists_cons_of_ne_nil hne
    obtain ⟨dir, hdir, hsearch, -⟩ := h first List.mem_cons_self
    refine ⟨dir, hdir, hsearch, ?_⟩
    intro name hname
    obtain ⟨other, hother, -, hplace⟩ := h name hname
    obtain rfl : dir = other := Option.some.inj (hdir.symm.trans hother)
    exact hplace name (List.mem_singleton_self _)

/-- The value that the scratch space gives for one of its files, as it is and as it is rewritten. -/
theorem names_file (h : Started host running) {name : OsBytes} (hfile : name ∈ scratchFiles) :
    let value := display (join running.scratch.root name)
    let text := display running.scratch.root
    let root := displayLocation running.spec.scratch
    (running.Names kernel value (running.spec.scratch ++ [name]) ↔ running.Leads kernel [name] text) ∧
      (running.Names kernel (rewrite root value) (running.spec.scratch ++ [name]) ↔
        running.Leads kernel [name] (rewrite root text)) := by
  have hlast := isLast_scratchFiles hfile
  have hnode := h.made.files name hfile
  obtain ⟨name, rfl, hslash, -⟩ := exists_text hfile
  obtain ⟨parent, id, dir, hroot, hplace⟩ := h.made.named
  have hid := isLast_scratchName id
  have htext : display running.scratch.root ≠ "" := by
    rw [hroot]
    apply display_ne_empty
    intro hnil
    have hcomps := congrArg (fun path => (PathBuf.ofBytes path).comps) hnil
    rw [ofBytes_join parent hid] at hcomps
    exact absurd hcomps (List.append_ne_nil_of_right_ne_nil _ (List.cons_ne_nil _ _))
  have hvalue : display (join running.scratch.root (Utf8.encode name)) =
      display running.scratch.root ++ "/" ++ String.ofList name := by
    rw [hroot]
    exact display_join parent hid name
  -- the text of the root ends with the name of the scratch space, which is none of its files
  have hne : display running.scratch.root ++ "/" ++ String.ofList name ≠ displayLocation running.spec.scratch := by
    intro heq
    obtain ⟨above, habove⟩ := encode_displayLocation_append dir (scratchName id)
    have hlossy : Utf8.encode (Utf8.lossy (scratchName id)) = scratchName id := by rw [scratchName, Utf8.lossy_encode]
    rw [← hplace, ← heq, encode_child, hlossy] at habove
    have hsame : Utf8.encode name = scratchName id := by
      have hpieces := congrArg pieces habove
      rw [pieces_append_slash _ _ hlast.2.1, pieces_append_slash _ _ hid.2.1] at hpieces
      simpa using List.append_inj_right' hpieces rfl
    exact scratchName_ne_file id hfile hsame.symm
  dsimp only
  rw [hvalue, rewrite_child hslash hne]
  exact ⟨names_child htext hlast hnode, names_child (rewrite_ne_empty htext) hlast hnode⟩

theorem scratchFile_ca : ∀ name ∈ caEnvVars, scratchFile name = some caName := by
  decide

theorem envNames_bash : running.EnvNames kernel (bashEnv running.scratch) ↔
    ∀ name ∈ [homeName, tmpName],
      running.Names kernel (display (join running.scratch.root name)) (running.spec.scratch ++ [name]) := by
  have hhome : scratchFile "HOME" = some homeName := rfl
  have htmp : scratchFile "TMPDIR" = some tmpName := rfl
  simp [EnvNames, bashEnv, hhome, htmp, ScratchSpace.homeDir, ScratchSpace.tmpDir]

theorem envNames_container (address : String) :
    running.EnvNames kernel (containerEnv (running.scratch.sandboxEnv address) running.spec.scratch) ↔
      ∀ name ∈ scratchFiles, running.Names kernel
        (rewrite (displayLocation running.spec.scratch) (display (join running.scratch.root name)))
        (running.spec.scratch ++ [name]) := by
  have hhome : scratchFile "HOME" = some homeName := rfl
  have htmp : scratchFile "TMPDIR" = some tmpName := rfl
  have hother : ∀ name ∈ ["HTTP_PROXY", "HTTPS_PROXY", "ALL_PROXY", "SILO_PROXY_RELAY", "PATH"],
      scratchFile name = none := by decide
  have hca (value : String) : (∀ name ∈ caEnvVars, ∀ file, scratchFile name = some file →
      running.Names kernel value (running.spec.scratch ++ [file])) ↔
        running.Names kernel value (running.spec.scratch ++ [caName]) := by
    constructor
    · intro h
      exact h "SILO_PROXY_CA" List.mem_cons_self caName rfl
    · intro h name hname file hfile
      rw [scratchFile_ca name hname] at hfile
      cases hfile
      exact h
  simp only [List.forall_mem_cons] at hother
  simp only [EnvNames, containerEnv, ScratchSpace.sandboxEnv, List.map_append, List.map_cons, List.map_nil, List.map_map,
    List.forall_mem_append, List.forall_mem_cons, List.forall_mem_map, Function.comp_apply, hother, hhome, htmp, hca,
    scratchFiles, ScratchSpace.homeDir, ScratchSpace.tmpDir, ScratchSpace.caCertPath]
  simp [and_comm, and_left_comm]

/-- The environment is right if and only if the root of the scratch space, as it is spelled
and as it is rewritten, leads in the sandbox to where the files of the scratch space are. -/
theorem envValid_iff (h : Started host running) :
    running.EnvValid kernel ↔
      running.Leads kernel [homeName, tmpName] (display running.scratch.root) ∧
        running.Leads kernel scratchFiles
          (rewrite (displayLocation running.spec.scratch) (display running.scratch.root)) := by
  obtain ⟨address, henv⟩ := h.env
  have hexec : running.EnvNames kernel (bashEnv running.scratch) ↔
      running.Leads kernel [homeName, tmpName] (display running.scratch.root) := by
    rw [envNames_bash, leads_iff (List.cons_ne_nil _ _)]
    have hfile : ∀ name ∈ [homeName, tmpName], name ∈ scratchFiles := by decide
    exact forall₂_congr fun name hname => (names_file h (hfile name hname)).1
  have hcontainer : running.EnvNames kernel running.spec.env ↔ running.Leads kernel scratchFiles
      (rewrite (displayLocation running.spec.scratch) (display running.scratch.root)) := by
    have hne : scratchFiles ≠ [] := List.cons_ne_nil _ _
    rw [henv, envNames_container, leads_iff hne]
    exact forall₂_congr fun name hname => (names_file h hname).2
  constructor
  · rintro ⟨hc, he⟩
    exact ⟨hexec.mp he, hcontainer.mp hc⟩
  · rintro ⟨he, hc⟩
    exact ⟨hcontainer.mpr hc, hexec.mpr he⟩

theorem inside_none {p : Location}
    (h : ∀ m ∈ running.mounts, ∃ location, m.place = .ofLocation location ∧ ¬ location <+: p ∧ ¬ p <+: location) :
    (running.inside kernel).node p = none := by
  have hany : (running.mounts.any fun m => m.place.startsWith (.ofLocation p) && m.place ≠ .ofLocation p) = false := by
    rw [List.any_eq_false]
    intro m hm hcovers
    obtain ⟨location, hplace, -, hbelow⟩ := h m hm
    rw [hplace, Bool.and_eq_true, PathBuf.startsWith_ofLocation] at hcovers
    exact hbelow hcovers.1
  have hcovering : covering running.mounts p = none := by
    rw [covering, List.find?_eq_none]
    intro m hm hcovers
    obtain ⟨location, hplace, habove, -⟩ := h m (List.mem_reverse.mp hm)
    rw [hplace, PathBuf.startsWith_ofLocation] at hcovers
    exact habove hcovers
  simp only [inside]
  rw [hany, hcovering]
  rfl

section Plain

variable {p location : Location}

theorem place_own (hnormal : Normal running.spec.scratch) :
    (rwBind running.spec.scratch (displayLocation running.spec.scratch)).place = .ofLocation (shown running.spec.scratch) := by
  rw [Mount.place, rwBind, ofBytes_displayLocation hnormal]

theorem place_scratchDest : (rwBind running.spec.scratch scratchDest).place = .ofLocation scratchMount := by
  rw [Mount.place, rwBind, encode_scratchDest]
  exact ofBytes_location normal_scratchMount

theorem mounts_reverse : ∃ others, running.mounts.reverse =
    rwBind running.spec.scratch (displayLocation running.spec.scratch) ::
      rwBind running.spec.scratch scratchDest :: others := by
  refine ⟨(specialMounts ++ running.spec.osDirs.map (fun dir => roBind dir (displayLocation dir)) ++
    running.spec.readAllowlist.map (fun dir => roBind dir (displayLocation dir)) ++
      [rwBind running.spec.workspace workspaceDest]).reverse, ?_⟩
  rw [mounts, generateConfig]
  simp only [List.reverse_append, List.reverse_cons, List.reverse_nil, List.nil_append, List.append_assoc,
    List.cons_append]

theorem covering_own (hnormal : Normal running.spec.scratch) (hp : shown running.spec.scratch <+: p) :
    covering running.mounts p = some (rwBind running.spec.scratch (displayLocation running.spec.scratch)) := by
  obtain ⟨others, hothers⟩ := @mounts_reverse running
  rw [covering, hothers, List.find?_cons, place_own hnormal, PathBuf.startsWith_ofLocation.mpr hp]

theorem covering_scratchDest (hnormal : Normal running.spec.scratch) (hp : scratchMount <+: p)
    (hown : ¬ shown running.spec.scratch <+: p) :
    covering running.mounts p = some (rwBind running.spec.scratch scratchDest) := by
  obtain ⟨others, hothers⟩ := @mounts_reverse running
  have hnot : (PathBuf.ofLocation p).startsWith (.ofLocation (shown running.spec.scratch)) = false := by
    rw [Bool.eq_false_iff, Ne, PathBuf.startsWith_ofLocation]
    exact hown
  rw [covering, hothers, List.find?_cons, place_own hnormal, hnot, List.find?_cons, place_scratchDest,
    PathBuf.startsWith_ofLocation.mpr hp]

/-- A mount of the scratch space shows what its source, looked up as a text, is on the host. -/
theorem hostPlace_mount {destination : String}
    (hcovering : covering running.mounts (location ++ p) = some (rwBind running.spec.scratch destination))
    (hplace : (rwBind running.spec.scratch destination).place = .ofLocation location) :
    running.hostPlace (location ++ p) =
      (running.fs.canonicalize [] (Utf8.encode (displayLocation running.spec.scratch).toList)).map fun source => source ++ p := by
  rw [hostPlace, hcovering]
  dsimp only
  have hlength : (PathBuf.ofLocation location).comps.length = location.length := List.length_map _
  have hbind : (rwBind running.spec.scratch destination).type = "bind" := rfl
  rw [if_pos hbind, hplace, hlength, List.drop_left]
  rfl

theorem hostPlace_own (hnormal : Normal running.spec.scratch) (p : Location) :
    running.hostPlace (shown running.spec.scratch ++ p) =
      (running.fs.canonicalize [] (Utf8.encode (displayLocation running.spec.scratch).toList)).map fun source => source ++ p :=
  hostPlace_mount (covering_own hnormal (List.prefix_append _ _)) (place_own hnormal)

theorem inside_dir {place : Location} (hplace : running.hostPlace p = some place)
    (hnode : running.fs.node place = some (.dir true)) : (running.inside kernel).node p = some (.dir true) := by
  obtain heq | heq := inside_of_hostPlace kernel hplace <;> rw [heq]
  exact hnode

theorem searchable_of_node {fs : HostFs} (h : fs.node p = some (.dir true)) : fs.searchable p = true := by
  simp [HostFs.searchable, h]

theorem inside_above (hnormal : Normal running.spec.scratch) (hp : p <+: shown running.spec.scratch)
    (hne : p ≠ shown running.spec.scratch) : (running.inside kernel).node p = some (.dir true) := by
  have hmem : rwBind running.spec.scratch (displayLocation running.spec.scratch) ∈ running.mounts := by
    rw [mounts, generateConfig]
    simp
  have hany : (running.mounts.any fun m => m.place.startsWith (.ofLocation p) && m.place ≠ .ofLocation p) = true := by
    rw [List.any_eq_true]
    refine ⟨_, hmem, ?_⟩
    rw [place_own hnormal, Bool.and_eq_true, PathBuf.startsWith_ofLocation, decide_eq_true_eq]
    exact ⟨hp, fun heq => hne (PathBuf.ofLocation_injective heq).symm⟩
  simp only [inside]
  rw [if_pos hany]

/-- Where the scratch space is mounted at its own path there is no link. -/
theorem inside_own (h : Started host running) (target : OsBytes) :
    (running.inside kernel).node (shown running.spec.scratch) ≠ some (.link target) := by
  have hnormal : Normal running.spec.scratch := h.reached.names
  have hown := hostPlace_own hnormal []
  rw [List.append_nil] at hown
  simp only [inside]
  split
  · exact nofun
  have hbind : (rwBind running.spec.scratch (displayLocation running.spec.scratch)).type = "bind" := rfl
  rw [covering_own hnormal (List.prefix_refl _)]
  dsimp only
  rw [if_pos hbind, hown]
  cases hsource : running.fs.canonicalize [] (Utf8.encode (displayLocation running.spec.scratch).toList) with
  | none => exact nofun
  | some source =>
      have hreached : running.fs.Reached source :=
        h.reached_of_stands HostFs.Reached.nil (resolves_comps_of_canonicalize hsource).1 (stands_of_canonicalize hsource)
      rw [Option.map_some, List.append_nil, Option.bind_some]
      split
      · exact nofun
      · rename_i hne
        obtain ⟨above, name, rfl⟩ := (List.eq_nil_or_concat' source).resolve_left hne
        exact hreached.linkless _ _ (List.prefix_refl _) target

/-- The text of the real location leads in the sandbox to the mount there. -/
theorem canonicalize_own (h : Started host running) {dir : Location}
    (hdir : (running.inside kernel).canonicalize workspaceMount
      (Utf8.encode (displayLocation running.spec.scratch).toList) = some dir) : dir = shown running.spec.scratch := by
  have hnormal : Normal running.spec.scratch := h.reached.names
  have hlinks : (running.inside kernel).Linkless (shown running.spec.scratch) := by
    intro above name hp target
    by_cases hsame : above ++ [name] = shown running.spec.scratch
    · rw [hsame]
      exact inside_own h target
    · rw [inside_above hnormal hp hsame]
      exact nofun
  have hnames : ((shown running.spec.scratch).map PathComp.normal).map PathBuf.compBytes = shown running.spec.scratch := by
    simp [Function.comp_def, PathBuf.compBytes]
  rw [encode_displayLocation] at hdir
  obtain ⟨-, hresolves⟩ := (canonicalize_bytes (spelled_location (normal_shown hnormal)) true).mp hdir
  rw [hnames] at hresolves
  exact hresolves.eq_of_linkless (fun name hname => (normal_shown hnormal name hname).1) hlinks

/-- The text of the real location leads to the scratch space just when it does so on the host. -/
theorem leads_own_iff (h : Started host running) {names : List OsBytes} (hne : names ≠ []) :
    running.Leads kernel names (displayLocation running.spec.scratch) ↔
      running.fs.canonicalize [] (Utf8.encode (displayLocation running.spec.scratch).toList) = some running.spec.scratch := by
  have hnormal : Normal running.spec.scratch := h.reached.names
  constructor
  · rintro ⟨dir, hdir, -, hplaces⟩
    obtain rfl := canonicalize_own h hdir
    obtain ⟨name, rest, rfl⟩ := List.exists_cons_of_ne_nil hne
    have hplace := hplaces name List.mem_cons_self
    rw [hostPlace_own hnormal, Option.map_eq_some_iff] at hplace
    obtain ⟨source, hsource, happend⟩ := hplace
    rw [hsource, List.append_inj_left' happend rfl]
  · intro hsource
    have hown (p : Location) : running.hostPlace (shown running.spec.scratch ++ p) = some (running.spec.scratch ++ p) := by
      rw [hostPlace_own hnormal, hsource]
      rfl
    have hroot : (running.inside kernel).node (shown running.spec.scratch) = some (.dir true) := by
      have := hown []
      rw [List.append_nil, List.append_nil] at this
      exact inside_dir this h.made.root
    have hnode (p : Location) (hp : p <+: shown running.spec.scratch) : (running.inside kernel).node p = some (.dir true) := by
      by_cases hsame : p = shown running.spec.scratch
      · rw [hsame, hroot]
      · exact inside_above hnormal hp hsame
    have hinside : (running.inside kernel).Reached (shown running.spec.scratch) := by
      refine ⟨normal_shown hnormal, ?_, ?_⟩
      · intro above name hp
        exact searchable_of_node (hnode above ((List.prefix_append _ _).trans hp))
      · intro above name hp
        exact ⟨_, hnode _ hp, by rintro _ ⟨⟩⟩
    refine ⟨shown running.spec.scratch, ?_, searchable_of_node hroot, fun name _ => hown [name]⟩
    rw [encode_displayLocation]
    exact canonicalize_location hinside

/-- Below the other mount of the scratch space there is none of its own. -/
theorem not_own_below_scratchMount (h : Started host running) {p : Location}
    (hp : p = [] ∨ ∃ name ∈ scratchFiles, p = [name]) : ¬ shown running.spec.scratch <+: scratchMount ++ p := by
  obtain ⟨-, id, dir, -, hplace⟩ := h.made.named
  have hlossy : Utf8.encode (Utf8.lossy (scratchName id)) = scratchName id := by rw [scratchName, Utf8.lossy_encode]
  intro hprefix
  have hmem : scratchName id ∈ scratchMount ++ p := hprefix.subset (by simp [hplace, shown, hlossy])
  rcases List.mem_append.mp hmem with hscratch | hfile
  · exact scratchName_ne_scratch id (List.mem_singleton.mp hscratch)
  · obtain rfl | ⟨name, hname, rfl⟩ := hp
    · cases hfile
    · exact scratchName_ne_file id hname (List.mem_singleton.mp hfile)

theorem leads_scratchDest (h : Started host running)
    (hsource : running.fs.canonicalize [] (Utf8.encode (displayLocation running.spec.scratch).toList) =
      some running.spec.scratch) : running.Leads kernel scratchFiles scratchDest := by
  have hnormal : Normal running.spec.scratch := h.reached.names
  have hdest (p : Location) (hp : p = [] ∨ ∃ name ∈ scratchFiles, p = [name]) :
      running.hostPlace (scratchMount ++ p) = some (running.spec.scratch ++ p) := by
    rw [hostPlace_mount (covering_scratchDest hnormal (List.prefix_append _ _) (not_own_below_scratchMount h hp))
      place_scratchDest, hsource]
    rfl
  have hmount : (running.inside kernel).node scratchMount = some (.dir true) := by
    have := hdest [] (.inl rfl)
    rw [List.append_nil, List.append_nil] at this
    exact inside_dir this h.made.root
  have hmounted : (running.inside kernel).Reached scratchMount :=
    HostFs.Reached.push HostFs.Reached.nil (normal_scratchMount _ (List.mem_singleton_self _)).1
      (normal_scratchMount _ (List.mem_singleton_self _)).2 rfl ⟨_, hmount, by rintro _ ⟨⟩⟩
  refine ⟨scratchMount, ?_, searchable_of_node hmount, fun name hname => hdest [name] (.inr ⟨name, hname, rfl⟩)⟩
  rw [encode_scratchDest]
  exact canonicalize_location hmounted

theorem canonicalize_shown (h : Started host running) (htext : shown running.spec.scratch = running.spec.scratch) :
    running.fs.canonicalize [] (Utf8.encode (displayLocation running.spec.scratch).toList) = some running.spec.scratch := by
  rw [encode_displayLocation, htext]
  exact canonicalize_location h.reached

end Plain

variable (running kernel) in
/-- How the scratch root may be spelled. -/
inductive Spelled : Prop
  /-- As its real location, which on the host the text leads to. -/
  | real (hspelled : display running.scratch.root = displayLocation running.spec.scratch)
      (hback : running.fs.canonicalize [] (Utf8.encode (display running.scratch.root).toList) = some running.spec.scratch)
  /-- By a text that is not below that of the real location, and that leads in the sandbox to the scratch space too. -/
  | visible (hne : display running.scratch.root ≠ displayLocation running.spec.scratch)
      (hbelow : ∀ rest, display running.scratch.root ≠ displayLocation running.spec.scratch ++ "/" ++ rest)
      (hleads : running.Leads kernel scratchFiles (display running.scratch.root))
  /-- By a text below that of the real location, what is added leading there also from the mount. -/
  | below (rest : String) (hspelled : display running.scratch.root = displayLocation running.spec.scratch ++ "/" ++ rest)
      (hleads : running.Leads kernel [homeName, tmpName] (display running.scratch.root))
      (hmount : running.Leads kernel scratchFiles (scratchDest ++ "/" ++ rest))

theorem Leads.subset {names others : List OsBytes} {text : String} (h : running.Leads kernel names text)
    (hsub : others ⊆ names) : running.Leads kernel others text := by
  obtain ⟨dir, hdir, hsearch, hplaces⟩ := h
  exact ⟨dir, hdir, hsearch, fun name hname => hplaces name (hsub hname)⟩

theorem envValid_iff_spelled (h : Started host running) : running.EnvValid kernel ↔ running.Spelled kernel := by
  rw [envValid_iff h]
  have hfiles : [homeName, tmpName] ⊆ scratchFiles := by decide
  constructor
  · rintro ⟨hexec, hcontainer⟩
    by_cases hspelled : display running.scratch.root = displayLocation running.spec.scratch
    · rw [hspelled, leads_own_iff h (List.cons_ne_nil _ _)] at hexec
      exact .real hspelled (hspelled ▸ hexec)
    by_cases hbelow : ∃ rest, display running.scratch.root = displayLocation running.spec.scratch ++ "/" ++ rest
    · obtain ⟨rest, hrest⟩ := hbelow
      refine .below rest hrest hexec ?_
      rwa [hrest, rewrite_below] at hcontainer
    · have hbelow := not_exists.mp hbelow
      rw [rewrite_apart hspelled hbelow] at hcontainer
      exact .visible hspelled hbelow hcontainer
  · intro hroot
    cases hroot with
    | real hspelled hback =>
        rw [hspelled] at hback ⊢
        rw [rewrite_self]
        exact ⟨(leads_own_iff h (List.cons_ne_nil _ _)).mpr hback, leads_scratchDest h hback⟩
    | visible hne hbelow hleads =>
        rw [rewrite_apart hne hbelow]
        exact ⟨hleads.subset hfiles, hleads⟩
    | below rest hspelled hleads hmount =>
        rw [hspelled, rewrite_below, ← hspelled]
        exact ⟨hleads, hmount⟩

end Running

/-- In a started backend, the environment is right just when the scratch root is spelled as
its real location, or by a text that leads there in the sandbox as well. -/
theorem environment_valid_iff {host : HostState} {refuses : Location → Bool} {tempDir : OsBytes} {ids : List ShortId}
    {config : SandboxConfig} {running : Running} (h : start host refuses tempDir ids config = some running)
    (kernel : Location → Option HostNode) : running.EnvValid kernel ↔ running.Spelled kernel :=
  Running.envValid_iff_spelled (started_of_start h)

section Linked

/-- The directories `r` and `w`, and `t`, which is a link to `r`. -/
def linkedNode (location : Location) : Option HostNode :=
  if location = [[0x72]] ∨ location = [[0x77]] then some (.dir true)
  else if location = [[0x74]] then some (.link [slash, 0x72])
  else none

theorem linkedNode_cases {location : Location} (h : linkedNode location ≠ none) : ∃ name, location = [name] := by
  rw [linkedNode] at h
  split at h
  · rename_i hdir
    exact hdir.elim (fun h => ⟨_, h⟩) fun h => ⟨_, h⟩
  split at h
  · exact ⟨_, ‹_›⟩
  · exact absurd rfl h

def linkedHost : HostState where
  fs := ⟨linkedNode⟩
  process := ⟨[]⟩
  rooted := by
    intro location name h
    obtain ⟨other, hother⟩ := linkedNode_cases h
    exact .inl (List.append_eq_singleton_iff.mp hother |>.elim And.left fun h => absurd h.2 (by simp))
  targets := by
    intro location target h
    simp only [linkedNode] at h
    split at h
    · cases h
    split at h
    · cases h
      decide
    · cases h
  reached := HostFs.Reached.nil

def plainId : ShortId := ⟨"0123456789ab", by decide, by simp⟩

def plainName : OsBytes :=
  [0x73, 0x69, 0x6c, 0x6f, 0x2d, 0x73, 0x63, 0x72, 0x61, 0x74, 0x63, 0x68, 0x2d,
    0x30, 0x31, 0x32, 0x33, 0x34, 0x35, 0x36, 0x37, 0x38, 0x39, 0x61, 0x62]

theorem scratchName_plain : scratchName plainId = plainName := by
  rw [scratchName, String.toList_append]
  rfl

def scratchIn (parent : OsBytes) : OsBytes := parent ++ slash :: plainName

def linkedPlace : Location := [[0x72], plainName]

def linkedParts : List (Location × HostNode) :=
  [(linkedPlace, .dir true), (linkedPlace ++ [homeName], .dir true), (linkedPlace ++ [tmpName], .dir true),
    (linkedPlace ++ [caName], .file), (linkedPlace ++ [Utf8.encode "bin".toList], .dir true),
    (linkedPlace ++ [Utf8.encode "bin".toList, Utf8.encode "silo-helper".toList], .file),
    (linkedPlace ++ [Utf8.encode "helper.sock".toList], .file), (linkedPlace ++ [Utf8.encode "proxy.sock".toList], .file)]

def linkedFs (n : Nat) : HostFs := (linkedParts.take n).foldl (fun fs part => fs.add part.1 part.2) ⟨linkedNode⟩

def anywhere (_ : Location) : Bool := false

def configIn (parent : OsBytes) : SandboxConfig := ⟨some [slash, 0x77], some parent, []⟩

def runningIn (parent : OsBytes) : Running :=
  ⟨linkedFs 8, ⟨scratchIn parent⟩, ⟨[[0x77]], linkedPlace, [], [],
    containerEnv ((ScratchSpace.mk (scratchIn parent)).sandboxEnv ("127.0.0.1:" ++ toString inSandboxProxyPort)) linkedPlace⟩⟩

variable {parent : OsBytes}

theorem create_in (hparent : parent = [slash, 0x72] ∨ parent = [slash, 0x74]) :
    ScratchSpace.create [] anywhere (linkedFs 0) [] [plainId] (some parent) = some (linkedFs 4, ⟨scratchIn parent⟩) := by
  have hdirs : (linkedFs 0).createDirs [] anywhere parent = some (linkedFs 0) := by
    rcases hparent with rfl | rfl <;> rfl
  have hunique : createUnique [] anywhere (linkedFs 0) parent [plainId] = some (linkedFs 1, scratchIn parent) := by
    have hdir : (linkedFs 0).createDir [] anywhere (join parent plainName) = some (linkedFs 1) := by
      rcases hparent with rfl | rfl <;> rfl
    rw [createUnique, scratchName_plain, hdir]
    rcases hparent with rfl | rfl <;> rfl
  have hhome : (linkedFs 1).createDir [] anywhere (join (scratchIn parent) homeName) = some (linkedFs 2) := by
    rcases hparent with rfl | rfl <;> rfl
  have htmp : (linkedFs 2).createDir [] anywhere (join (scratchIn parent) tmpName) = some (linkedFs 3) := by
    rcases hparent with rfl | rfl <;> rfl
  have hca : (linkedFs 3).writeFile [] anywhere (join (scratchIn parent) caName) = some (linkedFs 4) := by
    rcases hparent with rfl | rfl <;> rfl
  have htake : [plainId].take 8 = [plainId] := rfl
  simp only [ScratchSpace.create, Option.getD_some, hdirs, Option.bind_eq_bind, Option.bind_some, htake, hunique,
    ScratchSpace.homeDir, ScratchSpace.tmpDir, ScratchSpace.caCertPath, hhome, htmp, hca]
  rfl

/-- The backend starts with the scratch root `r`, and with its other name `t`. -/
theorem start_in (hparent : parent = [slash, 0x72] ∨ parent = [slash, 0x74]) :
    start linkedHost anywhere [] [plainId] (configIn parent) = some (runningIn parent) := by
  have hfs : linkedHost.fs = linkedFs 0 := rfl
  have hcwd : linkedHost.process.cwd = [] := rfl
  have hworkspace : (linkedFs 0).canonicalize [] [slash, 0x77] = some [[0x77]] := rfl
  have hcanonical : (linkedFs 4).canonicalize [] (scratchIn parent) = some linkedPlace := by
    rcases hparent with rfl | rfl <;> rfl
  have hbin : (linkedFs 4).createDirs [] anywhere (join (scratchIn parent) (Utf8.encode "bin".toList)) =
      some (linkedFs 5) := by
    rcases hparent with rfl | rfl <;> rfl
  have hhelper : (linkedFs 5).writeFile [] anywhere
      (join (join (scratchIn parent) (Utf8.encode "bin".toList)) (Utf8.encode "silo-helper".toList)) =
        some (linkedFs 6) := by
    rcases hparent with rfl | rfl <;> rfl
  have hosDirs : (osDirCandidates.filter fun dir =>
      ((linkedFs 6).canonicalize [] (PathBuf.ofLocation dir).bytes).isSome) = [] := rfl
  have hsocket : (linkedFs 6).bindSocket [] anywhere (join (scratchIn parent) (Utf8.encode "helper.sock".toList)) =
      some (linkedFs 7) := by
    rcases hparent with rfl | rfl <;> rfl
  have hproxy : (linkedFs 7).bindSocket [] anywhere (join (scratchIn parent) (Utf8.encode "proxy.sock".toList)) =
      some (linkedFs 8) := by
    rcases hparent with rfl | rfl <;> rfl
  simp only [start, configIn, hfs, hcwd, Option.bind_eq_bind, Option.bind_some, hworkspace, create_in hparent, hcanonical,
    List.mapM_nil, Option.pure_def, hbin, hhelper, hosDirs, hsocket, hproxy]
  rfl

theorem displayLocation_linkedPlace : displayLocation linkedPlace = display (scratchIn [slash, 0x72]) := rfl

/-- With the scratch root `r` the environment is right. -/
theorem environment_valid_iff_plain : (runningIn [slash, 0x72]).EnvValid fun _ => none := by
  have hstart := start_in (.inl rfl)
  have htext : shown linkedPlace = linkedPlace := by
    have hname : plainName = Utf8.encode "silo-scratch-0123456789ab".toList := rfl
    have hr : Utf8.lossy [0x72] = ['r'] := Utf8.lossy_encode ['r']
    rw [shown, linkedPlace, List.map_cons, List.map_singleton, hr, hname, Utf8.lossy_encode]
    rfl
  exact (environment_valid_iff hstart _).mpr
    (.real displayLocation_linkedPlace.symm (Running.canonicalize_shown (started_of_start hstart) htext))

theorem display_scratchIn : Utf8.encode (display (scratchIn [slash, 0x74])).toList = scratchIn [slash, 0x74] := by
  have htext : scratchIn [slash, 0x74] = Utf8.encode ("/t/".toList ++ "silo-scratch-0123456789ab".toList) := by
    rw [Utf8.encode_append]
    rfl
  rw [display, String.toList_ofList, htext, Utf8.lossy_encode]

theorem place_linked : ∀ m ∈ (runningIn [slash, 0x74]).mounts,
    ∃ location, m.place = .ofLocation location ∧ ¬ location <+: [[0x74]] ∧ ¬ [[0x74]] <+: location := by
  have hspecial : ∀ m ∈ specialMounts,
      ∃ location, m.place = .ofLocation location ∧ ¬ location <+: [[0x74]] ∧ ¬ [[0x74]] <+: location := by
    simp only [specialMounts, List.forall_mem_cons, List.not_mem_nil, false_implies, implies_true, and_true]
    refine ⟨⟨[Utf8.encode "proc".toList], ?_⟩, ⟨[Utf8.encode "dev".toList], ?_⟩,
      ⟨[Utf8.encode "dev".toList, Utf8.encode "pts".toList], ?_⟩,
      ⟨[Utf8.encode "dev".toList, Utf8.encode "shm".toList], ?_⟩, ⟨[Utf8.encode "tmp".toList], ?_⟩⟩ <;> decide
  have hnormal : Normal (runningIn [slash, 0x74]).spec.scratch := (started_of_start (start_in (.inr rfl))).reached.names
  have hown : (shown linkedPlace).take 1 = [[0x72]] := by
    have hlossy : Utf8.lossy [0x72] = ['r'] := Utf8.lossy_encode ['r']
    rw [shown, linkedPlace, List.map_cons, hlossy]
    rfl
  have hmounts : (runningIn [slash, 0x74]).mounts = specialMounts ++
      [rwBind (runningIn [slash, 0x74]).spec.workspace workspaceDest, rwBind (runningIn [slash, 0x74]).spec.scratch scratchDest,
        rwBind (runningIn [slash, 0x74]).spec.scratch (displayLocation (runningIn [slash, 0x74]).spec.scratch)] := rfl
  rw [hmounts, List.forall_mem_append]
  refine ⟨hspecial, ?_⟩
  simp only [List.forall_mem_cons, List.not_mem_nil, false_implies, implies_true, and_true]
  refine ⟨⟨workspaceMount, ?_⟩, ⟨scratchMount, ?_⟩, shown linkedPlace, Running.place_own hnormal, ?_, ?_⟩
  · rw [Mount.place, rwBind, encode_workspaceDest]
    exact ⟨ofBytes_location normal_workspaceMount, by decide, by decide⟩
  · exact ⟨Running.place_scratchDest, by decide, by decide⟩
  · intro hprefix
    have := hprefix.take 1
    rw [hown] at this
    exact absurd this (by decide)
  · intro hprefix
    have := hprefix.take 1
    rw [hown] at this
    exact absurd this (by decide)

/-- In the sandbox there is no link `t`. -/
theorem not_envValid_linked :
    start linkedHost anywhere [] [plainId] (configIn [slash, 0x74]) = some (runningIn [slash, 0x74]) ∧
      ¬ (runningIn [slash, 0x74]).EnvValid fun _ => none := by
  refine ⟨start_in (.inr rfl), ?_⟩
  intro h
  obtain ⟨⟨dir, hdir, -⟩, -⟩ := (Running.envValid_iff (started_of_start (start_in (.inr rfl)))).mp h
  have hnone : ((runningIn [slash, 0x74]).inside fun _ => none).node [[0x74]] = none := Running.inside_none place_linked
  have hroot : Utf8.encode (display (runningIn [slash, 0x74]).scratch.root).toList = slash :: 0x74 :: slash :: plainName :=
    display_scratchIn
  obtain ⟨-, hresolves, -⟩ := resolves_comps_of_canonicalize hdir
  have hpieces : pieces (slash :: 0x74 :: slash :: plainName) = [[], [0x74], plainName] := by decide
  rw [hroot, hpieces] at hresolves
  cases hresolves with
  | done hdone => cases hdone.1
  | down _ hname | follow _ hname => exact absurd rfl hname.1
  | stay _ _ hresolves =>
      cases hresolves with
      | done hdone => cases hdone.1
      | stay _ hskip => exact absurd hskip (by decide)
      | down _ _ hnode =>
          obtain ⟨node, hnode, -⟩ := hnode
          rw [show startOf workspaceMount (isAbsolute (slash :: 0x74 :: slash :: plainName)) = [] from rfl] at hnode
          rw [List.nil_append, hnone] at hnode
          cases hnode
      | follow _ _ hnode =>
          rw [show startOf workspaceMount (isAbsolute (slash :: 0x74 :: slash :: plainName)) = [] from rfl] at hnode
          rw [List.nil_append, hnone] at hnode
          cases hnode

end Linked

end Silo.Sandbox
