import Mathlib.Algebra.GroupWithZero.Nat
import Silo.Lib.Base64
import Silo.Shell.JournalPath
import Silo.Sandbox.ToolImpl

namespace Silo.Sandbox

open Silo.Core Silo.Harness Silo.Lib Silo.Shell

/-- The files of the sandbox and what they hold. -/
structure Disk where
  fs : HostFs
  content : Location → List UInt8

def Disk.put (disk : Disk) (location : Location) (bytes : List UInt8) : Disk :=
  ⟨disk.fs.add location .file, fun other => if other = location then bytes else disk.content other⟩

/-- What the helper's file operations use besides their arguments: the directory that it works
in, base64, how an error of the system prints, where the system refuses to make or open
something, where writing fails after so many bytes, and how far a file's system can seek (an
offset is an `i64` there). -/
structure HelperHost where
  cwd : Location
  b64 : List UInt8 → String
  unb64 : String → Except String (List UInt8)
  osError : String
  refuses : Location → Bool
  room : Location → Option Nat
  maxOffset : Location → Fin (2 ^ 63)

def readFileCap : Nat := 5 * 1024 * 1024

/-- `Path::parent`, printed: trailing separators and dots go with the last component. -/
def parentText (path : String) : String :=
  let skip := fun piece : List Char => decide (piece = [] ∨ piece = ['.'])
  let above := ((((path.toList.splitOn '/').reverse.dropWhile skip).drop 1).dropWhile skip).reverse
  if above = [] then (if path.startsWith "/" then "/" else if path.startsWith "./" then "." else "")
  else String.ofList (['/'].intercalate above)

namespace HelperHost

variable (h : HelperHost) (disk : Disk)

def pathBytes (path : String) : OsBytes := osBytes (.text path)

def locate (path : String) : Option Location := disk.fs.canonicalize h.cwd (pathBytes path)

def readFile (path : String) (offset limit : Option UInt64) : Except String HelperPayload :=
  match h.locate disk path with
  | none => .error ("cannot open " ++ path ++ ": " ++ h.osError)
  | some location =>
    if h.refuses location then .error ("cannot open " ++ path ++ ": " ++ h.osError)
    else if (h.maxOffset location).val < (offset.getD 0).toNat then
      .error ("cannot seek in " ++ path ++ ": " ++ h.osError)
    else
      match disk.fs.node location with
      | some .file =>
        let cap := match limit with
          | some limit => min limit.toNat readFileCap
          | none => readFileCap
        let content := ((disk.content location).drop (match offset with
          | some offset => offset.toNat
          | none => 0)).take (cap + 1)
        .ok (.file (h.b64 (content.take cap)) (decide (cap < content.length)))
      | _ => .error ("cannot read " ++ path ++ ": " ++ h.osError)

/-- `create_dir_all` of the parent of a path, where it has one. -/
def createParent (path : String) : Except HostFs HostFs :=
  match (PathBuf.ofBytes (pathBytes path)).parent with
  | some parent =>
    if parent = ⟨false, []⟩ then .ok disk.fs
    else if 0 ∈ parent.bytes then .error disk.fs
    else disk.fs.createDirAll h.cwd h.refuses parent.root parent.comps.reverse
  | none => .ok disk.fs

/-- Where an `open` that may create the file finds or makes it. -/
def openFile (path : String) : Option Location :=
  if pathBytes path = [] ∨ 0 ∈ pathBytes path then none
  else
    match disk.fs.land HostFs.maxLinks (startOf h.cwd (isAbsolute (pathBytes path))) (pieces (pathBytes path)) with
    | some location => if h.refuses location then none else some location
    | none => none

/-- What `write_file` does with the file it has opened: it goes on after what is kept of it. -/
def writeAll (path : String) (location : Location) (kept content : List UInt8) :
    Except String HelperPayload × Disk :=
  match h.room location with
  | some room => (.error ("cannot write " ++ path ++ ": " ++ h.osError), disk.put location (kept ++ content.take room))
  | none => (.ok (.written (UInt64.ofNat content.length)), disk.put location (kept ++ content))

def writeFile (path contentB64 : String) (append : Bool) : Except String HelperPayload × Disk :=
  match h.unb64 contentB64 with
  | .error message => (.error message, disk)
  | .ok content =>
    match h.createParent disk path with
    | .error fs =>
      (.error ("cannot create directory " ++ parentText path ++ ": " ++ h.osError), { disk with fs := fs })
    | .ok fs =>
      let disk := { disk with fs := fs }
      match h.openFile disk path with
      | none =>
        (.error (if append then "cannot open " ++ path ++ " for appending: " ++ h.osError
          else "cannot write " ++ path ++ ": " ++ h.osError), disk)
      | some location =>
        let kept := if append ∧ disk.fs.node location = some .file then disk.content location else []
        h.writeAll disk path location kept content

/-- What the helper makes of a request; `others` are the operations that are not about files. -/
def serve (others : HelperOp → Disk → Except String HelperPayload × Disk) (op : HelperOp) (disk : Disk) :
    Except String HelperPayload × Disk :=
  match op with
  | .readFile path offset limit => (h.readFile disk path offset limit, disk)
  | .writeFile path contentB64 append => h.writeFile disk path contentB64 append
  | op => others op disk

end HelperHost

/-- A sandbox with one file, `/f`. -/
def oneFile (bytes : List UInt8) : Disk :=
  ⟨⟨fun location => if location = [[0x66]] then some .file else none⟩, fun _ => bytes⟩

/-- A helper that works in the root, and that nothing is refused. -/
def plainHost : HelperHost where
  cwd := []
  b64 bytes := String.ofList (Base64.encode bytes)
  unb64 text := match Base64.decode text.toList with
    | some bytes => .ok bytes
    | none => .error "invalid base64"
  osError := ""
  refuses _ := false
  room _ := none
  maxOffset _ := ⟨2 ^ 63 - 1, by decide⟩

theorem plainHost_roundtrip (content : List UInt8) : plainHost.unb64 (plainHost.b64 content) = .ok content := by
  simp only [plainHost, String.toList_ofList, Base64.decode_encode]

def ToolEnv.execute {σ : Type} (env : ToolEnv) (answer : HelperOp → σ → Except String HelperPayload × σ)
    (call : ToolCall) (s : σ) : ToolResult × σ :=
  match env.runTool call with
  | .error result => (result, s)
  | .ok (op, after) => (after ((answer op s).1.mapError .helper), (answer op s).2)

end Silo.Sandbox
