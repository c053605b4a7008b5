import Silo.Lib.Utf8
import Silo.Sandbox.HelperFiles

namespace Silo.Harness

open Silo.Core Silo.Lib Silo.Sandbox Silo.Shell

/-- `Path::file_name` of a text. -/
def fileName (path : String) : Option String :=
  match (path.toList.splitOn '/').reverse.dropWhile fun piece => decide (piece = [] ∨ piece = ['.']) with
  | [] => none
  | last :: _ => if last = ['.', '.'] then none else some (String.ofList last)

def parseSendUserFile (input : Json) : Except String (String × String) :=
  match ((input.get "path").bind Json.asStr).filter (· ≠ "") with
  | none => .error "SendUserFile requires a 'path' string"
  | some path =>
    match fileName path with
    | none => .error ("the path " ++ debugString path ++ " has no file name")
    | some name =>
      match (input.get "content_b64").bind Json.asStr with
      | none => .error "SendUserFile input is missing 'content_b64' (the harness injects the file content)"
      | some contentB64 => .ok (name, contentB64)

abbrev FileOutcome := List EventPayload × Except HarnessError ToolDisposition

def shareFile (agent : AgentId) (call : ToolCall) : FileOutcome :=
  match parseSendUserFile call.input with
  | .error error => ([], .ok (.output "frontend" (.error error)))
  | .ok (name, contentB64) =>
    ([.fileShared name contentB64 (.llm agent)], .ok (.output "frontend" (.ok ("sent " ++ name ++ " to the user"))))

def readCall (call : ToolCall) (path : String) : ToolCall :=
  ⟨call.id ++ "-read", "Read", .object [("path", .string path)]⟩

/-- `run_frontend_tool` of a SendUserFile call, with `runTool` the sandbox's. -/
def sendUserFile (b64 : List UInt8 → String) (runTool : ToolCall → ToolResult) (agent : AgentId) (call : ToolCall) :
    FileOutcome :=
  match (call.input.get "path").bind Json.asStr with
  | none => shareFile agent call
  | some path =>
    match runTool (readCall call path) with
    | .ok output =>
      if output.isError then
        ([], .ok (.output "frontend" (.error ("SendUserFile: cannot read " ++ path ++ ": " ++ output.content))))
      else
        shareFile agent
          { call with input := call.input.insert "content_b64" (.string (b64 output.content.toUTF8.toList)) }
    | .error (.scriptMismatch detail) => ([], .ok (.scriptFailed (SandboxError.scriptMismatch detail).display))
    | .error error => ([.error "sandbox tool Read (SendUserFile)" error.display], .error (.sandbox error))

def realEnv (env : ToolEnv) (host : HelperHost) : ToolEnv :=
  { env with unb64 := host.unb64, lossy := fun bytes => String.ofList (Utf8.lossy bytes) }

/-- A SendUserFile call all the way from the file. -/
def sendFile (env : ToolEnv) (host : HelperHost) (others : HelperOp → Disk → Except String HelperPayload × Disk)
    (disk : Disk) (agent : AgentId) (call : ToolCall) : FileOutcome :=
  sendUserFile host.b64 (fun read => ((realEnv env host).execute (host.serve others) read disk).1) agent call

def rendered (bytes : List UInt8) : String :=
  markTruncated (decide (readFileCap < bytes.length)) (String.ofList (Utf8.lossy (bytes.take readFileCap)))

/-- Nothing is shared and the result is an error, or the one file shared holds the bytes. -/
def Delivers (host : HelperHost) (bytes : List UInt8) (agent : AgentId) (outcome : FileOutcome) : Prop :=
  (outcome.1 = [] ∧ ∃ owner message, outcome.2 = .ok (.output owner (.error message))) ∨
    ∃ name contentB64, outcome.1 = [.fileShared name contentB64 (.llm agent)] ∧ host.unb64 contentB64 = .ok bytes

section

variable {env : ToolEnv} {host : HelperHost} {others : HelperOp → Disk → Except String HelperPayload × Disk}
  {disk : Disk} {agent : AgentId} {call : ToolCall} {path : String} {location : Location}

theorem execute_readCall (hb64 : ∀ content, host.unb64 (host.b64 content) = .ok content)
    (hlocate : host.locate disk (resolvePath env.workspaceMount path) = some location)
    (hnode : disk.fs.node location = some .file) (hallowed : host.refuses location = false) :
    ((realEnv env host).execute (host.serve others) (readCall call path) disk).1 =
      .ok (.ok (rendered (disk.content location))) := by
  have hread : host.readFile disk (resolvePath env.workspaceMount path) none none =
      .ok (.file (host.b64 ((disk.content location).take readFileCap))
        (decide (readFileCap < (disk.content location).length))) := by
    simp only [HelperHost.readFile, hlocate, hallowed, hnode, List.drop_zero, List.take_take, List.length_take]
    have hiff : readFileCap < min (readFileCap + 1) (disk.content location).length ↔
        readFileCap < (disk.content location).length := by omega
    simp [hiff]
  obtain ⟨after, hrun, hafter⟩ : ∃ after, (realEnv env host).runTool (readCall call path) =
        .ok (.readFile (resolvePath env.workspaceMount path) none none, after) ∧
      ∀ contentB64 truncated bytes, host.unb64 contentB64 = .ok bytes →
        after (.ok (.file contentB64 truncated)) = .ok (.ok (markTruncated truncated (String.ofList (Utf8.lossy bytes)))) := by
    refine ⟨_, rfl, fun contentB64 truncated bytes hbytes => ?_⟩
    have hdecode : (realEnv env host).decode contentB64 = .ok bytes := by
      rw [ToolEnv.decode]
      exact congrArg (Except.mapError SandboxError.helper) hbytes
    simp only [hdecode]
    rfl
  have hserve : (host.serve others (.readFile (resolvePath env.workspaceMount path) none none) disk).1 =
      host.readFile disk (resolvePath env.workspaceMount path) none none := rfl
  rw [ToolEnv.execute, hrun]
  dsimp only
  rw [hserve, hread]
  exact hafter _ _ _ (hb64 _)

theorem get_insert (input : Json) (hinput : ∃ fields, input = .object fields) (key : String) (value : Json) :
    (input.insert key value).get key = some value := by
  obtain ⟨fields, rfl⟩ := hinput
  have hnone : (fields.filter fun f => f.1 ≠ key).find? (fun f => f.1 = key) = none := by
    simp
  rw [Json.insert, Json.get, List.find?_append, hnone]
  simp

theorem get_insert_of_ne (input : Json) {key other : String} (hne : other ≠ key) (value : Json) :
    (input.insert key value).get other = input.get other := by
  cases input with
  | object fields =>
      have hkeep : (fields.filter fun f => f.1 ≠ key).find? (fun f => f.1 = other) =
          fields.find? fun f => f.1 = other := by
        rw [List.find?_filter]
        congr 1
        funext f
        by_cases hf : f.1 = other <;> simp [hf, hne]
      rw [Json.insert, Json.get, Json.get, List.find?_append, hkeep]
      simp [hne.symm]
  | _ => rfl

theorem sendFile_eq (hb64 : ∀ content, host.unb64 (host.b64 content) = .ok content)
    (hpath : call.input.get "path" = some (.string path))
    (hlocate : host.locate disk (resolvePath env.workspaceMount path) = some location)
    (hnode : disk.fs.node location = some .file) (hallowed : host.refuses location = false) :
    sendFile env host others disk agent call =
      if path = "" then ([], .ok (.output "frontend" (.error "SendUserFile requires a 'path' string")))
      else
        match fileName path with
        | none => ([], .ok (.output "frontend" (.error ("the path " ++ debugString path ++ " has no file name"))))
        | some name =>
          ([.fileShared name (host.b64 (Utf8.encode (rendered (disk.content location)).toList)) (.llm agent)],
            .ok (.output "frontend" (.ok ("sent " ++ name ++ " to the user")))) := by
  have hinput : ∃ fields, call.input = .object fields := by
    cases hcall : call.input with
    | object fields => exact ⟨fields, rfl⟩
    | _ => rw [hcall] at hpath; cases hpath
  have hbind : (call.input.get "path").bind Json.asStr = some path := by rw [hpath]; rfl
  rw [sendFile, sendUserFile, hbind]
  dsimp only
  rw [execute_readCall hb64 hlocate hnode hallowed]
  simp only [ToolOutput.ok, Bool.false_eq_true, if_false, shareFile, parseSendUserFile,
    get_insert_of_ne _ (by decide : ("path" : String) ≠ "content_b64"), get_insert _ hinput, hpath, Utf8.toList_toUTF8,
    Option.bind_some, Json.asStr]
  by_cases hempty : path = ""
  · subst hempty
    rfl
  · have hfilter : (some path).filter (fun text => decide (text ≠ "")) = some path := by
      simp [Option.filter, hempty]
    rw [if_neg hempty, hfilter]
    cases hname : fileName path <;> simp only [hname]

end

def truncationMark (text : List Char) : List Char :=
  (if ['\n'] <:+ text then [] else ['\n']) ++ "[truncated]".toList

theorem toList_markTruncated (text : List Char) :
    (markTruncated true (String.ofList text)).toList = text ++ truncationMark text := by
  have hends : (String.ofList text).endsWith "\n" = true ↔ ['\n'] <:+ text := by
    have hslice : (String.ofList text).toSlice.endsWith "\n" = true ↔ _ := String.Slice.endsWith_string_iff
    simpa using hslice
  rw [markTruncated, if_pos rfl, truncationMark]
  by_cases h : ['\n'] <:+ text
  · rw [if_pos (hends.mpr h), if_pos h]
    simp
  · rw [if_neg (fun h' => h (hends.mp h')), if_neg h]
    simp

/-- The bytes are their own rendering: a whole text; or a text and the mark of a truncated one,
the text as long as what is read, or with a replacement character where the reading ends. -/
def Faithful (bytes : List UInt8) : Prop :=
  (bytes.length ≤ readFileCap ∧ ∃ text, bytes = Utf8.encode text) ∨
    (readFileCap < bytes.length ∧ ∃ text, bytes = Utf8.encode (text ++ truncationMark text) ∧
      ((Utf8.encode text).length = readFileCap ∨
        ∃ front, text = front ++ [Utf8.replacement] ∧ (Utf8.encode front).length < readFileCap ∧
          readFileCap < (Utf8.encode text).length))

theorem lossy_take_encode {text : List Char} {n : Nat} (hn : n < (Utf8.encode text).length)
    (h : Utf8.lossy ((Utf8.encode text).take n) = text) :
    ∃ front, text = front ++ [Utf8.replacement] ∧ (Utf8.encode front).length < n := by
  obtain ⟨front, c, back, part, rest, htext, hc, hrest, htake⟩ := Utf8.take_encode hn
  rw [htake, Utf8.lossy_encode_append] at h
  by_cases hpart : part = []
  · rw [hpart, Utf8.lossy, List.append_nil] at h
    rw [htext] at h
    simp at h
  · rw [Utf8.lossy_part hc hpart hrest] at h
    refine ⟨front, h.symm, ?_⟩
    have hlength := congrArg List.length htake
    rw [List.length_take, List.length_append] at hlength
    have := List.length_pos_iff.mpr hpart
    omega

theorem lossy_take_replacement {front : List Char} {n : Nat} (hfront : (Utf8.encode front).length < n)
    (hn : n < (Utf8.encode (front ++ [Utf8.replacement])).length) :
    Utf8.lossy ((Utf8.encode (front ++ [Utf8.replacement])).take n) = front ++ [Utf8.replacement] := by
  have hencode : Utf8.encode [Utf8.replacement] = String.utf8EncodeChar Utf8.replacement := by
    simp
  rw [Utf8.encode_append, List.length_append, hencode] at hn
  rw [Utf8.encode_append, List.take_append, List.take_of_length_le (by omega), Utf8.lossy_encode_append, hencode]
  rw [Utf8.lossy_part (List.take_append_drop _ _).symm]
  · rw [Ne, List.take_eq_nil_iff, not_or]
    exact ⟨by omega, String.utf8EncodeChar_ne_nil⟩
  · rw [Ne, List.drop_eq_nil_iff]
    omega

theorem lossy_eq_nil {bytes : List UInt8} (h : Utf8.lossy bytes = []) : bytes = [] := by
  cases bytes with
  | nil => rfl
  | cons byte rest =>
      rw [Utf8.lossy] at h
      split at h <;> cases h

theorem encode_mark_ne_nil (text : List Char) : Utf8.encode (truncationMark text) ≠ [] := by
  intro h
  have hmark := Utf8.encode_eq_nil h
  rw [truncationMark, List.append_eq_nil_iff] at hmark
  exact absurd hmark.2 (by decide)

/-- The cut text is the text itself only where the cut is at its end or in a replacement
character there. -/
theorem cut_of_lossy_take {text : List Char} {mark : List UInt8} (hmark : mark ≠ []) {n : Nat}
    (h : Utf8.lossy ((Utf8.encode text ++ mark).take n) = text) :
    (Utf8.encode text).length = n ∨ ∃ front, text = front ++ [Utf8.replacement] ∧ (Utf8.encode front).length < n ∧
      n < (Utf8.encode text).length := by
  rcases lt_trichotomy n (Utf8.encode text).length with hn | hn | hn
  · rw [List.take_append_of_le_length hn.le] at h
    obtain ⟨front, hfront, hlength⟩ := lossy_take_encode hn h
    exact .inr ⟨front, hfront, hlength, hn⟩
  · exact .inl hn.symm
  · rw [List.take_append, List.take_of_length_le hn.le, Utf8.lossy_encode_append, List.append_right_eq_self] at h
    have hnil := lossy_eq_nil h
    rw [List.take_eq_nil_iff] at hnil
    rcases hnil with hzero | hnil
    · omega
    · exact absurd hnil hmark

theorem lossy_take_of_cut {text : List Char} (mark : List UInt8) {n : Nat}
    (h : (Utf8.encode text).length = n ∨ ∃ front, text = front ++ [Utf8.replacement] ∧ (Utf8.encode front).length < n ∧
      n < (Utf8.encode text).length) :
    Utf8.lossy ((Utf8.encode text ++ mark).take n) = text := by
  rcases h with rfl | ⟨front, rfl, hfront, hn⟩
  · rw [List.take_left, Utf8.lossy_encode]
  · rw [List.take_append_of_le_length hn.le, lossy_take_replacement hfront hn]

theorem encode_rendered_iff (bytes : List UInt8) :
    Utf8.encode (rendered bytes).toList = bytes ↔ Faithful bytes := by
  by_cases hcap : readFileCap < bytes.length
  · rw [rendered, decide_eq_true hcap, toList_markTruncated, Faithful]
    constructor
    · intro h
      refine .inr ⟨hcap, _, h.symm, ?_⟩
      rw [Utf8.encode_append] at h
      apply cut_of_lossy_take (encode_mark_ne_nil _)
      rw [h]
    · rintro (⟨hle, -⟩ | ⟨-, text, hbytes, hcut⟩)
      · omega
      · have htext : Utf8.lossy (bytes.take readFileCap) = text := by
          rw [hbytes, Utf8.encode_append]
          exact lossy_take_of_cut _ hcut
        rw [htext, ← hbytes]
  · have htake : bytes.take readFileCap = bytes := List.take_of_length_le (by omega)
    rw [rendered, decide_eq_false hcap, htake, Faithful, markTruncated, if_neg Bool.false_ne_true, String.toList_ofList]
    constructor
    · exact fun h => .inl ⟨by omega, _, h.symm⟩
    · rintro (⟨-, text, rfl⟩ | ⟨hlt, -⟩)
      · rw [Utf8.lossy_encode]
      · exact absurd hlt hcap

/-- A file that can be read is delivered, or refused, just when its bytes are their own
rendering or the path has no file name. -/
theorem delivers_sendFile_iff {env : ToolEnv} {host : HelperHost}
    {others : HelperOp → Disk → Except String HelperPayload × Disk} {disk : Disk} {agent : AgentId} {call : ToolCall}
    {path : String} {location : Location} (hb64 : ∀ content, host.unb64 (host.b64 content) = .ok content)
    (hpath : call.input.get "path" = some (.string path))
    (hlocate : host.locate disk (resolvePath env.workspaceMount path) = some location)
    (hnode : disk.fs.node location = some .file) (hallowed : host.refuses location = false) :
    Delivers host (disk.content location) agent (sendFile env host others disk agent call) ↔
      path = "" ∨ fileName path = none ∨ Faithful (disk.content location) := by
  rw [sendFile_eq hb64 hpath hlocate hnode hallowed]
  by_cases hempty : path = ""
  · rw [if_pos hempty]
    exact ⟨fun _ => .inl hempty, fun _ => .inl ⟨rfl, _, _, rfl⟩⟩
  · rw [if_neg hempty]
    cases hname : fileName path with
    | none => exact ⟨fun _ => .inr (.inl rfl), fun _ => .inl ⟨rfl, _, _, rfl⟩⟩
    | some name =>
        rw [← encode_rendered_iff]
        simp only [hempty, reduceCtorEq, false_or]
        constructor
        · rintro (⟨hnone, -⟩ | ⟨other, contentB64, hevents, hdecoded⟩)
          · cases hnone
          · cases hevents
            rw [hb64, Except.ok.injEq] at hdecoded
            exact hdecoded
        · intro h
          exact .inr ⟨name, _, rfl, by rw [hb64, h]⟩

def sendCall : ToolCall := ⟨"c", "SendUserFile", .object [("path", .string "/f")]⟩

def fileEnv : ToolEnv := ⟨"/w", "/h", "/t", id, fun _ => .ok [], fun _ => "", id, id, fun _ => ""⟩

theorem locate_oneFile (bytes : List UInt8) :
    plainHost.locate (oneFile bytes) (resolvePath fileEnv.workspaceMount "/f") = some [[0x66]] := by
  have hpath : resolvePath fileEnv.workspaceMount "/f" = "/f" := by
    simp [resolvePath]
  rw [hpath, HelperHost.locate, HelperHost.pathBytes, osBytes, Utf8.toList_toUTF8]
  rfl

theorem delivers_sendFile_letter :
    Delivers plainHost [0x61] 0
      (sendFile fileEnv plainHost (fun _ disk => (.error "", disk)) (oneFile [0x61]) 0 sendCall) :=
  (delivers_sendFile_iff plainHost_roundtrip rfl (locate_oneFile [0x61]) rfl rfl).mpr
    (.inr (.inr (.inl ⟨by decide, ['a'], rfl⟩)))

theorem not_faithful_ff : ¬ Faithful [0xff] := by
  rintro (⟨-, text, htext⟩ | ⟨hlength, -⟩)
  · cases text with
    | nil => cases htext
    | cons c rest =>
        have hlength := congrArg List.length htext
        rw [Utf8.encode_cons, List.length_append, String.length_utf8EncodeChar, List.length_singleton] at hlength
        have hpos := c.utf8Size_pos
        have hone : c.utf8Size = 1 := by omega
        have hrest : Utf8.encode rest = [] := List.eq_nil_of_length_eq_zero (by omega)
        have hascii := Char.utf8Size_eq_one_iff.mp hone
        rw [Utf8.encode_cons, hrest, List.append_nil, String.utf8EncodeChar_eq_singleton hone, List.cons.injEq] at htext
        have hbyte := congrArg UInt8.toNat htext.1
        rw [UInt32.toNat_toUInt8] at hbyte
        have hval : c.val.toNat ≤ 127 := hascii
        rw [Nat.mod_eq_of_lt (by omega)] at hbyte
        have hff : (0xff : UInt8).toNat = 255 := rfl
        omega
  · exact absurd hlength (by decide)

/-- A byte that is not text comes out as three others. -/
theorem not_delivers_sendFile_ff :
    ¬ Delivers plainHost [0xff] 0
      (sendFile fileEnv plainHost (fun _ disk => (.error "", disk)) (oneFile [0xff]) 0 sendCall) := by
  have hname : fileName "/f" = some "f" := by decide
  rw [sendFile_eq plainHost_roundtrip rfl (locate_oneFile [0xff]) rfl rfl, if_neg (by decide), hname]
  rintro (⟨hnone, -⟩ | ⟨name, contentB64, hevents, hdecoded⟩)
  · cases hnone
  · obtain ⟨hshared, -⟩ := List.cons.inj hevents
    cases hshared
    rw [plainHost_roundtrip, Except.ok.injEq] at hdecoded
    exact not_faithful_ff ((encode_rendered_iff [0xff]).mp hdecoded)

end Silo.Harness
