import Silo.Harness.Record

namespace Silo.Sandbox

inductive HelperOp
  | hello
  | exec (command : String) (cwd : Option String) (env : List (String × String)) (timeoutMs : UInt64)
  | readFile (path : String) (offset limit : Option UInt64)
  | writeFile (path contentB64 : String) (append : Bool)
  | editFile (path old new : String) (replaceAll : Bool)
  | listDir (path : String)
  | cancel (id : UInt64)
  | fetch (url method : String) (headers : List (String × String)) (bodyB64 : Option String)
      (maxBytes : UInt64)
  | shutdown
  deriving DecidableEq, Repr

/-- Only `Exec` requests are cancellable. -/
def HelperOp.isExec : HelperOp → Bool
  | .exec .. => true
  | _ => false

structure HelperRequest where
  id : UInt64
  op : HelperOp
  deriving DecidableEq, Repr

structure DirEntry where
  name : String
  isDir : Bool
  size : UInt64
  deriving DecidableEq, Repr

inductive HelperPayload
  | hello (version : String) (pid : UInt32)
  | exec (exitCode : Int32) (stdout stderr : String) (timedOut truncated cancelled : Bool)
  | file (contentB64 : String) (truncated : Bool)
  | written (bytes : UInt64)
  | edited (replacements : UInt64)
  | dir (entries : List DirEntry)
  | fetched (status : UInt16) (headers : List (String × String)) (bodyB64 : String) (truncated : Bool)
  | ack
  deriving DecidableEq, Repr

structure HelperResponse where
  id : UInt64
  result : Except String HelperPayload
  deriving DecidableEq, Repr

end Silo.Sandbox
