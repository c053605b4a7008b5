import Silo.Sandbox.Gvisor
import Silo.Sandbox.HelperWrites
import Silo.Shell.JournalPath

namespace Silo.Sandbox

open Silo.Lib Silo.Shell Silo.Shell.HostFs

/-- `silo_core::short_id()`. -/
structure ShortId where
  text : String
  length : text.length = 12
  hex : ∀ c ∈ text.toList, c.isDigit ∨ c.val.toNat ∈ List.range' 97 6

def homeName : OsBytes := Utf8.encode "home".toList
def tmpName : OsBytes := Utf8.encode "tmp".toList
def caName : OsBytes := Utf8.encode "proxy-ca.pem".toList

def caEnvVars : List String :=
  ["SILO_PROXY_CA", "SSL_CERT_FILE", "CURL_CA_BUNDLE", "GIT_SSL_CAINFO", "NODE_EXTRA_CA_CERTS", "REQUESTS_CA_BUNDLE",
    "CARGO_HTTP_CAINFO"]

/-- A private writable directory for one sandbox, by its path as it was spelled. -/
structure ScratchSpace where
  root : OsBytes

namespace ScratchSpace

def homeDir (s : ScratchSpace) : OsBytes := join s.root homeName
def tmpDir (s : ScratchSpace) : OsBytes := join s.root tmpName
def caCertPath (s : ScratchSpace) : OsBytes := join s.root caName

def sandboxEnv (s : ScratchSpace) (proxyHttpAddr : String) : List (String × String) :=
  let proxy := "http://" ++ proxyHttpAddr
  let ca := Gvisor.display s.caCertPath
  [("HTTP_PROXY", proxy), ("HTTPS_PROXY", proxy), ("ALL_PROXY", proxy)] ++ caEnvVars.map (fun name => (name, ca)) ++
    [("HOME", Gvisor.display s.homeDir), ("TMPDIR", Gvisor.display s.tmpDir)]

end ScratchSpace

/-- The variables that `bash_tool` sets for each command. -/
def bashEnv (scratch : ScratchSpace) : List (String × String) :=
  [("HOME", Gvisor.display scratch.homeDir), ("TMPDIR", Gvisor.display scratch.tmpDir)]

namespace Gvisor

/-- `str::strip_prefix`. -/
def stripStart (start value : String) : Option String :=
  if start.toList.isPrefixOf value.toList then some (String.ofList (value.toList.drop start.toList.length)) else none

/-- How `container_env` rewrites a value, `root` being the text of the scratch root. -/
def rewrite (root value : String) : String :=
  if value = root then scratchDest
  else
    match stripStart (root ++ "/") value with
    | some rest => scratchDest ++ "/" ++ rest
    | none => value

def containerEnv (hostEnv : List (String × String)) (scratchHostRoot : Location) : List (String × String) :=
  let root := displayLocation scratchHostRoot
  hostEnv.map (fun (name, value) => (name, rewrite root value)) ++
    [("SILO_PROXY_RELAY", proxySocketDest ++ ":" ++ toString inSandboxProxyPort), ("PATH", sandboxPath)]

def osDirCandidates : List Location :=
  [["usr"], ["bin"], ["lib"], ["lib64"], ["etc", "ssl"], ["etc", "alternatives"]].map
    fun names => names.map fun name : String => Utf8.encode name.toList

end Gvisor

end Silo.Sandbox

namespace Silo.Shell.HostFs

variable (fs : HostFs) (cwd : Location) (refuses : Location → Bool)

/-- The entry of a directory that a path with a name at its end names; a link there is not
followed. -/
def entry (path : OsBytes) : Option Location :=
  if 0 ∈ path then none
  else
    match (pieces path).reverse with
    | [] => none
    | name :: above =>
      if name = [] ∨ name = dot ∨ name = dotDot then none
      else
        match fs.walk maxLinks (startOf cwd (isAbsolute path)) above.reverse with
        | some dir => if fs.searchable dir && (fs.node (dir ++ [name])).isSome then some (dir ++ [name]) else none
        | none => none

/-- `std::fs::create_dir`. -/
def createDir (path : OsBytes) : Option HostFs :=
  if 0 ∈ path then none else fs.mkdir cwd refuses (isAbsolute path) (PathBuf.ofBytes path).comps.reverse

def createDirs (path : OsBytes) : Option HostFs :=
  if 0 ∈ path then none
  else (fs.createDirAll cwd refuses (isAbsolute path) (PathBuf.ofBytes path).comps.reverse).toOption

/-- `std::fs::write`. -/
def writeFile (path : OsBytes) : Option HostFs :=
  if 0 ∈ path then none
  else
    match fs.land maxLinks (startOf cwd (isAbsolute path)) (pieces path) with
    | some location => if refuses location then none else some (fs.add location .file)
    | none => none

/-- A socket is bound to a path where nothing is. -/
def bindSocket (path : OsBytes) : Option HostFs :=
  if (fs.entry cwd path).isSome then none else fs.writeFile cwd refuses path

end Silo.Shell.HostFs

namespace Silo.Sandbox

open Silo.Lib Silo.Shell Silo.Shell.HostFs

def scratchName (id : ShortId) : OsBytes := Utf8.encode ("silo-scratch-" ++ id.text).toList

section Create

variable (cwd : Location) (refuses : Location → Bool)

def createUnique (fs : HostFs) (parent : OsBytes) : List ShortId → Option (HostFs × OsBytes)
  | [] => none
  | id :: ids =>
    let candidate := join parent (scratchName id)
    match fs.createDir cwd refuses candidate with
    | some made => some (made, candidate)
    | none => if (fs.entry cwd candidate).isSome then createUnique fs parent ids else none

def ScratchSpace.create (fs : HostFs) (tempDir : OsBytes) (ids : List ShortId) (scratchRoot : Option OsBytes) :
    Option (HostFs × ScratchSpace) := do
  let parent := scratchRoot.getD tempDir
  let fs ← fs.createDirs cwd refuses parent
  let (fs, root) ← createUnique cwd refuses fs parent (ids.take 8)
  let space : ScratchSpace := ⟨root⟩
  let fs ← fs.createDir cwd refuses space.homeDir
  let fs ← fs.createDir cwd refuses space.tmpDir
  let fs ← fs.writeFile cwd refuses space.caCertPath
  return (fs, space)

end Create

/-- The paths of the configuration, as they are spelled. -/
structure SandboxConfig where
  workspaceMount : Option OsBytes
  scratchRoot : Option OsBytes
  readAllowlist : List OsBytes

/-- A started backend, and the files of the host. -/
structure Running where
  fs : HostFs
  scratch : ScratchSpace
  spec : Gvisor.GvisorSpec

/-- `GvisorBackend::start`, when everything that it starts comes up. -/
def start (host : HostState) (refuses : Location → Bool) (tempDir : OsBytes) (ids : List ShortId)
    (config : SandboxConfig) : Option Running := do
  let cwd := host.process.cwd
  let workspaceMount ← config.workspaceMount
  let workspace ← host.fs.canonicalize cwd workspaceMount
  let (fs, scratch) ← ScratchSpace.create cwd refuses host.fs tempDir ids config.scratchRoot
  let scratchCanonical ← fs.canonicalize cwd scratch.root
  let readAllowlist ← config.readAllowlist.mapM (fs.canonicalize cwd)
  let binDir := join scratch.root (Utf8.encode "bin".toList)
  let fs ← fs.createDirs cwd refuses binDir
  let fs ← fs.writeFile cwd refuses (join binDir (Utf8.encode "silo-helper".toList))
  let osDirs := Gvisor.osDirCandidates.filter fun dir => (fs.canonicalize cwd (PathBuf.ofLocation dir).bytes).isSome
  let env := Gvisor.containerEnv (scratch.sandboxEnv ("127.0.0.1:" ++ toString Gvisor.inSandboxProxyPort)) scratchCanonical
  let fs ← fs.bindSocket cwd refuses (join scratch.root (Utf8.encode "helper.sock".toList))
  let fs ← fs.bindSocket cwd refuses (join scratch.root (Utf8.encode "proxy.sock".toList))
  return ⟨fs, scratch, ⟨workspace, scratchCanonical, readAllowlist, osDirs, env⟩⟩

section Names

def IsLast (name : OsBytes) : Prop := IsName name ∧ IsClean name

theorem isAbsolute_append {path rest : OsBytes} (h : path ≠ []) : isAbsolute (path ++ rest) = isAbsolute path := by
  obtain ⟨byte, bytes, rfl⟩ := List.exists_cons_of_ne_nil h
  rfl

theorem ofBytes_append_slash (above : OsBytes) {tail : OsBytes} (htail : slash ∉ tail) :
    PathBuf.ofBytes (above ++ slash :: tail) =
      ⟨isAbsolute (above ++ [slash]), (PathBuf.ofBytes above).comps ++ (PathBuf.compOf tail).toList⟩ := by
  obtain ⟨first, others, hfirst⟩ := List.exists_cons_of_ne_nil (List.splitOn_ne_nil slash above)
  have habove : pieces above = first :: others := hfirst
  have hpieces : pieces (above ++ slash :: tail) = first :: (others ++ [tail]) := by
    rw [pieces_append_slash above tail htail, habove, List.cons_append]
  have hroot : isAbsolute (above ++ slash :: tail) = isAbsolute (above ++ [slash]) := by
    rw [List.append_cons, isAbsolute_append (by simp)]
  have htail : [tail].filterMap PathBuf.compOf = (PathBuf.compOf tail).toList := by
    cases hcomp : PathBuf.compOf tail <;> simp [hcomp]
  have hhead : (first :: (others ++ [tail])).head? = (first :: others).head? := rfl
  have hcomps : (first :: (others ++ [tail])).filterMap PathBuf.compOf =
      (first :: others).filterMap PathBuf.compOf ++ (PathBuf.compOf tail).toList := by
    rw [← List.cons_append, List.filterMap_append, htail]
  simp only [PathBuf.ofBytes, hpieces, habove, hroot, hhead, hcomps]
  split <;> rfl

theorem ofBytes_join (base : OsBytes) {name : OsBytes} (hname : IsLast name) :
    PathBuf.ofBytes (join base name) = (PathBuf.ofBytes base).push name := by
  have hcomp : PathBuf.compOf name = some (.normal name) := Below.compOf_name hname.1
  rw [join]
  split
  · subst base
    have hpieces : pieces name = [name] := List.splitOn_eq_singleton hname.2.1
    have hroot : isAbsolute name = false := by
      obtain ⟨byte, bytes, rfl⟩ := List.exists_cons_of_ne_nil hname.1.1
      have hbyte : byte ≠ slash := fun h => hname.2.1 (h ▸ List.mem_cons_self)
      simp [isAbsolute, hbyte]
    have hempty : PathBuf.ofBytes [] = ⟨false, []⟩ := by decide
    rw [hempty, PathBuf.ofBytes, hpieces, hroot]
    simp [hcomp, hname.1.2.1, PathBuf.push]
  · rename_i hbase
    split
    · rename_i hlast
      obtain ⟨above, rfl⟩ := List.getLast?_eq_some_iff.mp hlast
      rw [List.append_assoc, List.singleton_append, ofBytes_append_slash above hname.2.1,
        ofBytes_append_slash above List.not_mem_nil, hcomp]
      simp [PathBuf.push, PathBuf.compOf]
    · rw [ofBytes_append_slash base hname.2.1, hcomp, isAbsolute_append hbase]
      rfl

theorem join_join (base : OsBytes) {name : OsBytes} (hname : IsLast name) (other : OsBytes) :
    join (join base name) other = join base name ++ slash :: other := by
  obtain ⟨start, byte, rfl⟩ := List.eq_nil_or_concat' name |>.resolve_left hname.1.1
  have hbyte : byte ≠ slash := fun h => hname.2.1 (by simp [h])
  have hends : ∃ above, join base (start ++ [byte]) = above ++ [byte] := by
    rw [join]
    split
    · exact ⟨start, rfl⟩
    split
    · exact ⟨base ++ start, by simp⟩
    · exact ⟨base ++ slash :: start, by simp⟩
  obtain ⟨above, habove⟩ := hends
  rw [habove, join, if_neg (by simp), if_neg (by simpa using hbyte)]

end Names

section Created

variable {cwd : Location} {refuses : Location → Bool} {fs made : HostFs} {base name : OsBytes} {place : Location}

def Stands (fs : HostFs) (cwd : Location) (path : OsBytes) (place : Location) : Prop :=
  fs.Resolves Arrives maxLinks (startOf cwd (isAbsolute path)) (written (PathBuf.ofBytes path).comps.reverse) place

theorem Stands.extend (h : Stands fs cwd base place) (hext : fs.Extends made) : Stands made cwd base place :=
  Resolves.extend hext h

theorem Stands.unique {other : Location} (h : Stands fs cwd base place) (h' : Stands fs cwd base other) : place = other :=
  Resolves.unique h h'

theorem stands_of_canonicalize (h : fs.canonicalize cwd base = some place) : Stands fs cwd base place := by
  have hcomps := (resolves_comps_of_canonicalize h).2.2
  rwa [Stands, written, List.reverse_reverse]

theorem isAbsolute_eq (path : OsBytes) : isAbsolute path = (PathBuf.ofBytes path).root := rfl

theorem ofBytes_join_reverse (hname : IsLast name) :
    (PathBuf.ofBytes (join base name)).comps.reverse = .normal name :: (PathBuf.ofBytes base).comps.reverse := by
  rw [ofBytes_join base hname, PathBuf.push, List.reverse_append, List.reverse_singleton, List.singleton_append]

theorem isAbsolute_join (hname : IsLast name) : isAbsolute (join base name) = isAbsolute base := by
  rw [isAbsolute_eq, ofBytes_join base hname]
  rfl

theorem createDir_join (hname : IsLast name) (h : fs.createDir cwd refuses (join base name) = some made) :
    ∃ dir, Stands fs cwd base dir ∧ fs.node (dir ++ [name]) = none ∧ made = fs.add (dir ++ [name]) (.dir true) ∧
      fs.searchable dir = true ∧ Stands made cwd (join base name) (dir ++ [name]) := by
  rw [HostFs.createDir] at h
  split at h
  · cases h
  · rw [ofBytes_join_reverse hname, isAbsolute_join hname] at h
    obtain ⟨other, dir, hother, hdir, hsearch, hnone, rfl⟩ := mkdir_cases h
    cases hother
    refine ⟨dir, hdir, hnone, rfl, hsearch, ?_⟩
    rw [Stands, ofBytes_join_reverse hname, isAbsolute_join hname]
    exact resolves_add_dir hdir hname.1 hsearch hnone

theorem node_add_self (location : Location) (node : HostNode) : (fs.add location node).node location = some node :=
  if_pos rfl

theorem createDir_extends {path : OsBytes} (h : fs.createDir cwd refuses path = some made) : fs.Extends made := by
  rw [HostFs.createDir] at h
  split at h
  · cases h
  · exact mkdir_extends h

theorem no_nul_of_createDir {path : OsBytes} (h : fs.createDir cwd refuses path = some made) : 0 ∉ path := by
  intro hnul
  rw [HostFs.createDir, if_pos hnul] at h
  cases h

theorem createDirs_extends {path : OsBytes} (h : fs.createDirs cwd refuses path = some made) : fs.Extends made := by
  rw [HostFs.createDirs] at h
  split at h
  · cases h
  · generalize hall : fs.createDirAll cwd refuses (isAbsolute path) (PathBuf.ofBytes path).comps.reverse = result at h
    cases result with
    | error above => cases h
    | ok above =>
        cases h
        exact createDirAll_extends hall

/-- A file that is written is where its directory stands, when there is no link in its place. -/
theorem writeFile_join (hname : IsLast name) (hplace : Stands fs cwd base place)
    (hplain : ∀ target, fs.node (place ++ [name]) ≠ some (.link target))
    (h : fs.writeFile cwd refuses (join base name) = some made) : made = fs.add (place ++ [name]) .file := by
  rw [HostFs.writeFile] at h
  split at h
  · cases h
  split at h
  · rename_i found hland
    split at h
    · cases h
    · cases h
      have hopens := (resolves_of_land hland).comps isName_of_mem_opens
      rw [← List.reverse_reverse (PathBuf.ofBytes (join base name)).comps, ofBytes_join_reverse hname,
        isAbsolute_join hname] at hopens
      obtain ⟨dir, fewer, -, hdir, hlast⟩ := hopens.split (written (PathBuf.ofBytes base).comps.reverse)
        length_le_of_opens (written_cons (.normal name) (PathBuf.ofBytes base).comps.reverse)
      obtain rfl := Stands.unique hplace hdir
      obtain ⟨-, -, ⟨hfound, -⟩ | ⟨target, -, -, hlink, -⟩⟩ := hlast.opens_last
      · rw [hfound]
        rfl
      · exact absurd hlink (hplain target)
  · cases h

theorem node_of_opens {links : Nat} {location : Location} {rest : List OsBytes}
    (h : fs.Resolves fs.Opens links location rest place) : fs.node place = none ∨ fs.node place = some .file := by
  induction h with
  | done h =>
      obtain ⟨-, -, -, -, -, hnode⟩ := h
      exact hnode
  | stay _ _ _ ih | up _ _ ih | down _ _ _ _ ih | follow _ _ _ _ _ ih => exact ih

theorem writeFile_extends {path : OsBytes} (h : fs.writeFile cwd refuses path = some made) : fs.Extends made := by
  rw [HostFs.writeFile] at h
  split at h
  · cases h
  split at h
  · rename_i found hland
    split at h
    · cases h
    · cases h
      exact extends_add (node_of_opens (resolves_of_land hland)) fun _ => HostNode.noConfusion
  · cases h

theorem bindSocket_extends {path : OsBytes} (h : fs.bindSocket cwd refuses path = some made) : fs.Extends made := by
  rw [HostFs.bindSocket] at h
  split at h
  · cases h
  · exact writeFile_extends h

theorem createUnique_cases {ids : List ShortId} {root : OsBytes}
    (h : createUnique cwd refuses fs base ids = some (made, root)) :
    ∃ id, root = join base (scratchName id) ∧ fs.createDir cwd refuses root = some made := by
  induction ids with
  | nil => cases h
  | cons id ids ih =>
      rw [createUnique] at h
      split at h
      · cases h
        exact ⟨id, rfl, ‹_›⟩
      split at h
      · exact ih h
      · cases h

theorem rooted_add {dir : Location} (h : fs.Rooted) (hsearch : fs.searchable dir = true)
    (hnone : fs.node (dir ++ [name]) = none) : (fs.add (dir ++ [name]) (.dir true)).Rooted := by
  intro location other hnode
  by_cases hnew : location ++ [other] = dir ++ [name]
  · obtain ⟨rfl, -⟩ := List.append_inj' hnew rfl
    simp only [HostFs.searchable, Bool.or_eq_true, decide_eq_true_eq] at hsearch
    apply hsearch.imp_right
    intro hdir
    split at hdir
    · rename_i search hsearch
      refine ⟨search, ?_⟩
      rw [add_node_of_ne (by simp)]
      exact hsearch
    · cases hdir
  · rw [add_node_of_ne hnew] at hnode
    apply (h location other hnode).imp_right
    rintro ⟨search, hdir⟩
    refine ⟨search, ?_⟩
    rw [add_node_of_ne]
    · exact hdir
    · rintro rfl
      rw [hnone] at hdir
      cases hdir

theorem rooted_mkdir {root : Bool} {comps : List PathComp} (h : fs.Rooted)
    (hmade : fs.mkdir cwd refuses root comps = some made) : made.Rooted := by
  cases comps with
  | nil => cases hmade
  | cons comp rest =>
      obtain ⟨name, dir, -, -, hsearch, hnone, rfl⟩ := mkdir_cases hmade
      exact rooted_add h hsearch hnone

theorem rooted_createDirAll {root : Bool} {comps : List PathComp} (h : fs.Rooted)
    (hmade : fs.createDirAll cwd refuses root comps = .ok made) : made.Rooted := by
  induction comps generalizing made with
  | nil =>
      cases hmade
      exact h
  | cons comp rest ih =>
      obtain hmade | ⟨-, rfl⟩ | ⟨above, habove, hmade | ⟨-, rfl⟩⟩ := HostFs.createDirAll_cases hmade
      · exact rooted_mkdir h hmade
      · exact h
      · exact rooted_mkdir (ih habove) hmade
      · exact ih habove

theorem createDirs_ok {path : OsBytes} (h : fs.createDirs cwd refuses path = some made) :
    fs.createDirAll cwd refuses (isAbsolute path) (PathBuf.ofBytes path).comps.reverse = .ok made := by
  rw [HostFs.createDirs] at h
  split at h
  · cases h
  · generalize fs.createDirAll cwd refuses (isAbsolute path) (PathBuf.ofBytes path).comps.reverse = result at h ⊢
    cases result with
    | error above => cases h
    | ok above =>
        cases h
        rfl

end Created

def scratchFiles : List OsBytes := [homeName, tmpName, caName]

theorem isLast_of_ascii {bytes : List Char} (h : ∀ c ∈ bytes, c ≠ '/' ∧ c ≠ '\x00') (hnil : bytes ≠ [])
    (hdot : bytes ≠ ['.']) (hup : bytes ≠ ['.', '.']) : IsLast (Utf8.encode bytes) := by
  refine ⟨⟨?_, ?_, ?_⟩, ?_, ?_⟩
  · exact fun h => hnil (Utf8.encode_eq_nil h)
  · exact fun h => hdot (Utf8.encode_injective (b := ['.']) h)
  · exact fun h => hup (Utf8.encode_injective (b := ['.', '.']) h)
  · intro hslash
    obtain ⟨c, hc, hnat⟩ := Utf8.mem_encode (by decide) hslash
    exact (h c hc).1 (Char.ext (UInt32.toNat_inj.mp hnat))
  · intro hnul
    obtain ⟨c, hc, hnat⟩ := Utf8.mem_encode (by decide) hnul
    exact (h c hc).2 (Char.ext (UInt32.toNat_inj.mp hnat))

theorem isLast_scratchName (id : ShortId) : IsLast (scratchName id) := by
  have hstart : ("silo-scratch-" ++ id.text).toList = 's' :: ("ilo-scratch-".toList ++ id.text.toList) := by
    rw [String.toList_append]
    rfl
  rw [scratchName]
  apply isLast_of_ascii
  · intro c hc
    rw [String.toList_append] at hc
    rcases List.mem_append.mp hc with hc | hc
    · have hplain : ∀ c ∈ "silo-scratch-".toList, c ≠ '/' ∧ c ≠ '\x00' := by simp
      exact hplain c hc
    · rcases id.hex c hc with hdigit | hletter
      · refine ⟨?_, ?_⟩ <;> rintro rfl <;> revert hdigit <;> decide
      · refine ⟨?_, ?_⟩ <;> rintro rfl <;> revert hletter <;> decide
  all_goals
    rw [hstart]
    simp

theorem isLast_scratchFiles {name : OsBytes} (h : name ∈ scratchFiles) : IsLast name := by
  obtain rfl | rfl | rfl : name = homeName ∨ name = tmpName ∨ name = caName := by simpa [scratchFiles] using h
  · exact ⟨⟨by decide, by decide, by decide⟩, by decide, by decide⟩
  · exact ⟨⟨by decide, by decide, by decide⟩, by decide, by decide⟩
  · exact ⟨⟨by decide, by decide, by decide⟩, by decide, by decide⟩

structure Made (fs : HostFs) (cwd : Location) (space : ScratchSpace) (place : Location) : Prop where
  no_nul : 0 ∉ space.root
  stands : Stands fs cwd space.root place
  named : ∃ parent id dir, space.root = join parent (scratchName id) ∧ place = dir ++ [scratchName id]
  root : fs.node place = some (.dir true)
  files : ∀ name ∈ scratchFiles, fs.node (place ++ [name]) ≠ none

theorem Made.extend {fs fs' : HostFs} {cwd place : Location} {space : ScratchSpace} (h : Made fs cwd space place)
    (hext : fs.Extends fs') : Made fs' cwd space place where
  no_nul := h.no_nul
  stands := h.stands.extend hext
  named := h.named
  root := hext.keeps h.root
  files := by
    intro name hname
    obtain ⟨node, hnode⟩ := Option.ne_none_iff_exists'.mp (h.files name hname)
    rw [hext.keeps hnode]
    exact Option.some_ne_none _

theorem made_of_create {cwd : Location} {refuses : Location → Bool} {fs made : HostFs} {tempDir : OsBytes}
    {ids : List ShortId} {scratchRoot : Option OsBytes} {space : ScratchSpace} (hrooted : fs.Rooted)
    (h : ScratchSpace.create cwd refuses fs tempDir ids scratchRoot = some (made, space)) :
    fs.Extends made ∧ ∃ place, Made made cwd space place := by
  simp only [ScratchSpace.create, Option.bind_eq_bind, Option.bind_eq_some_iff, Option.pure_def, Option.some.injEq,
    Prod.mk.injEq, Prod.exists] at h
  obtain ⟨fs1, hparent, fs2, root, hroot, fs3, hhome, fs4, htmp, fs5, hca, rfl, rfl⟩ := h
  obtain ⟨id, rfl, hdir⟩ := createUnique_cases hroot
  have hrooted1 : fs1.Rooted := rooted_createDirAll hrooted (createDirs_ok hparent)
  obtain ⟨dir, -, hnone, rfl, hsearch, hstands⟩ := createDir_join (isLast_scratchName id) hdir
  generalize hplace : dir ++ [scratchName id] = place at hnone hstands hhome
  have hne : place ≠ [] := by
    rw [← hplace]
    simp
  have hext2 := (createDirs_extends hparent).trans (createDir_extends hdir)
  rw [hplace] at hext2
  have hbelow (name : OsBytes) : fs1.node (place ++ [name]) = none := hrooted1.none_below hne hnone name
  -- the two directories and the file are new
  obtain ⟨at3, hat3, hnone3, rfl, -, -⟩ := createDir_join (isLast_scratchFiles (by simp [scratchFiles])) hhome
  obtain rfl := hstands.unique hat3
  have hext3 := createDir_extends hhome
  obtain ⟨at4, hat4, hnone4, rfl, -, -⟩ := createDir_join (isLast_scratchFiles (by simp [scratchFiles])) htmp
  obtain rfl := (hstands.extend hext3).unique hat4
  have hext4 := createDir_extends htmp
  have hcaName : caName ≠ homeName ∧ caName ≠ tmpName := by decide
  have hfresh : ∀ target, (((fs1.add place (.dir true)).add (place ++ [homeName]) (.dir true)).add
      (place ++ [tmpName]) (.dir true)).node (place ++ [caName]) ≠ some (.link target) := by
    intro target
    rw [add_node_of_ne (by simp [hcaName.2]), add_node_of_ne (by simp [hcaName.1]), add_node_of_ne (by simp), hbelow]
    exact nofun
  have hext5 := writeFile_extends hca
  obtain rfl := writeFile_join (isLast_scratchFiles (by simp [scratchFiles])) ((hstands.extend hext3).extend hext4) hfresh hca
  refine ⟨((hext2.trans hext3).trans hext4).trans hext5, place, no_nul_of_createDir hdir,
    ((hstands.extend hext3).extend hext4).extend hext5, ⟨_, id, dir, rfl, hplace.symm⟩, ?_, ?_⟩
  · exact hext5.keeps (hext4.keeps (hext3.keeps (node_add_self _ _)))
  · intro name hname
    obtain rfl | rfl | rfl : name = homeName ∨ name = tmpName ∨ name = caName := by simpa [scratchFiles] using hname
    · rw [hext5.keeps (hext4.keeps (node_add_self _ _))]
      exact nofun
    · rw [hext5.keeps (node_add_self _ _)]
      exact nofun
    · rw [node_add_self]
      exact nofun

structure Started (host : HostState) (running : Running) : Prop where
  extends_host : host.fs.Extends running.fs
  made : Made running.fs host.process.cwd running.scratch running.spec.scratch
  env : ∃ address, running.spec.env = Gvisor.containerEnv (running.scratch.sandboxEnv address) running.spec.scratch

theorem started_of_start {host : HostState} {refuses : Location → Bool} {tempDir : OsBytes} {ids : List ShortId}
    {config : SandboxConfig} {running : Running} (h : start host refuses tempDir ids config = some running) :
    Started host running := by
  simp only [start, Option.bind_eq_bind, Option.bind_eq_some_iff, Option.pure_def, Option.some.injEq,
    Prod.exists] at h
  obtain ⟨-, -, workspace, -, fs1, scratch, hscratch, canonical, hcanonical, allowlist, -, fs2, hbin, fs3, hhelper, fs4,
    hsocket, fs5, hproxy, rfl⟩ := h
  obtain ⟨hcreated, place, hmade⟩ := made_of_create host.rooted hscratch
  obtain rfl := (stands_of_canonicalize hcanonical).unique hmade.stands
  have hext : fs1.Extends fs5 :=
    (((createDirs_extends hbin).trans (writeFile_extends hhelper)).trans (bindSocket_extends hsocket)).trans
      (bindSocket_extends hproxy)
  exact ⟨hcreated.trans hext, hmade.extend hext, _, rfl⟩

theorem Started.reached_of_stands {host : HostState} {running : Running} (h : Started host running)
    {cwd place : Location} {path : OsBytes} (hcwd : running.fs.Reached cwd) (hnul : 0 ∉ path)
    (hstands : Stands running.fs cwd path place) : running.fs.Reached place := by
  have hspelled := PathBuf.spelled_ofBytes hnul
  obtain ⟨found, left, hfound, -, -, rfl⟩ := Resolves.reached
    (fun location target hlink => host.targets location target (h.extends_host.links hlink)) hstands
      (hcwd.startOf (isAbsolute path)) fun piece hp => by
        obtain ⟨comp, hcomp, rfl⟩ := List.mem_map.mp hp
        exact (hspelled comp (by simpa using hcomp)).1
  exact hfound

theorem Started.reached {host : HostState} {running : Running} (h : Started host running) :
    running.fs.Reached running.spec.scratch :=
  h.reached_of_stands (host.reached.extend h.extends_host) h.made.no_nul h.made.stands

end Silo.Sandbox
