import Silo.Workspace.FileTree

namespace Silo.Shell

open Silo.Workspace

abbrev OsBytes := List UInt8

/-- A real location of the host: the names from the root, none of them a link. -/
abbrev Location := List OsBytes

inductive HostNode
  | file
  | dir (search : Bool)
  | link (target : OsBytes)
  deriving DecidableEq, Repr

structure HostFs where
  node : Location → Option HostNode

def slash : UInt8 := 0x2f
def dot : OsBytes := [0x2e]
def dotDot : OsBytes := [0x2e, 0x2e]

def isAbsolute (path : OsBytes) : Bool := path.head? = some slash

def pieces (path : OsBytes) : List OsBytes := path.splitOn slash

namespace HostFs

variable (fs : HostFs)

def searchable (location : Location) : Bool :=
  location = [] || match fs.node location with
    | some (.dir search) => search
    | _ => false

/-- Path resolution up to the next link, which `follow` takes. -/
def walkPieces (follow : Location → List OsBytes → Option Location) :
    Location → List OsBytes → Option Location
  | location, [] => some location
  | location, piece :: rest =>
    if !fs.searchable location then none
    else if piece = [] ∨ piece = dot then walkPieces follow location rest
    else if piece = dotDot then walkPieces follow location.dropLast rest
    else
      match fs.node (location ++ [piece]) with
      | none => none
      | some (.link target) =>
        if target = [] then none
        else follow (if isAbsolute target then [] else location) (pieces target ++ rest)
      | some _ => walkPieces follow (location ++ [piece]) rest

/-- Path resolution through at most so many links. -/
def walk : Nat → Location → List OsBytes → Option Location
  | 0 => fs.walkPieces fun _ _ => none
  | links + 1 => fs.walkPieces (walk links)

def maxLinks : Nat := 40

/-- `std::fs::canonicalize` in a process that works in `cwd`. -/
def canonicalize (cwd : Location) (path : OsBytes) : Option Location :=
  if path = [] ∨ 0 ∈ path then none
  else fs.walk maxLinks (if isAbsolute path then [] else cwd) (pieces path)

theorem canonicalize_of_absolute {path : OsBytes} (h : isAbsolute path = true) (cwd cwd' : Location) :
    fs.canonicalize cwd path = fs.canonicalize cwd' path := by
  rw [canonicalize, canonicalize, if_pos h, if_pos h]

end HostFs

/-- A component of a path, as `Path::components` gives them. -/
inductive PathComp
  | current
  | parent
  | normal (name : OsBytes)
  deriving DecidableEq, Repr

/-- A path by its components, by which paths are compared. -/
structure PathBuf where
  root : Bool
  comps : List PathComp
  deriving DecidableEq, Repr

namespace PathBuf

def compOf (piece : OsBytes) : Option PathComp :=
  if piece = [] ∨ piece = dot then none else if piece = dotDot then some .parent else some (.normal piece)

/-- A relative path keeps a dot in front. -/
def ofBytes (path : OsBytes) : PathBuf :=
  let comps := (pieces path).filterMap compOf
  ⟨isAbsolute path, if (pieces path).head? = some dot then .current :: comps else comps⟩

def compBytes : PathComp → OsBytes
  | .current => dot
  | .parent => dotDot
  | .normal name => name

def bytes (p : PathBuf) : OsBytes :=
  (if p.root then [slash] else []) ++ [slash].intercalate (p.comps.map compBytes)

def ofLocation (location : Location) : PathBuf := ⟨true, location.map .normal⟩

def push (p : PathBuf) (name : OsBytes) : PathBuf := { p with comps := p.comps ++ [.normal name] }

/-- `Path::starts_with`: by whole components. Every path starts with the empty one. -/
def startsWith (p q : PathBuf) : Bool := q = ⟨false, []⟩ || (p.root = q.root && q.comps.isPrefixOf p.comps)

end PathBuf

/-- `Path::join` with a relative path. -/
def join (base rel : OsBytes) : OsBytes :=
  if base = [] then rel else if base.getLast? = some slash then base ++ rel else base ++ slash :: rel

end Silo.Shell
