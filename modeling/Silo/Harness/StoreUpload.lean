import Mathlib.Data.List.TakeWhile
import Silo.Lib.Text
import Silo.Lib.Utf8
import Silo.Sandbox.HelperWrites

namespace Silo.Harness

open Silo.Core Silo.Lib Silo.Sandbox Silo.Shell Silo.Shell.HostFs

def isControl (c : Char) : Bool := c.toNat < 0x20 || (0x7f ≤ c.toNat && c.toNat ≤ 0x9f)

def isSeparator (c : Char) : Bool := c = '/' || c = '\\'

def lastPart (text : List Char) : List Char := (text.reverse.takeWhile fun c => !isSeparator c).reverse

def sanitizeFileName (name : String) : String :=
  let last := lastPart name.toList
  let cleaned := last.filter fun c => !isControl c
  let trimmed := trim cleaned
  if trimmed = [] ∨ trimmed = ['.'] ∨ trimmed = ['.', '.'] then "upload" else String.ofList trimmed

/-- The journal's entries for uploads; the agent `harness` is none of the session's. -/
inductive UploadEntry
  | toolExec (agent owner : String) (call : ToolCall) (output : ToolOutput)
  | lifecycle (message : String)

def uploadCall (name contentB64 : String) (counter : Nat) : ToolCall :=
  ⟨"upload-" ++ toString counter, "Write",
    .object [("content_b64", .string contentB64), ("path", .string ("_uploads/" ++ sanitizeFileName name))]⟩

def uploadEntries (fileName : String) (call : ToolCall) : Except SandboxError ToolOutput → List UploadEntry
  | .ok output =>
    [.toolExec "harness" "sandbox" call output,
      .lifecycle (if output.isError then "failed to store client upload _uploads/" ++ fileName
        else "stored client upload as _uploads/" ++ fileName)]
  | .error error => [.lifecycle ("failed to store client upload " ++ fileName ++ ": " ++ error.display)]

/-- `store_upload`, with `runTool` the sandbox's: what it appends to the journal. -/
def storeUpload {σ : Type} (unb64 : String → Except String (List UInt8))
    (runTool : String → ToolCall → σ → Except SandboxError ToolOutput × σ) (name contentB64 : String)
    (counter : Nat) (s : σ) : List UploadEntry × σ :=
  match unb64 contentB64 with
  | .error error => ([.lifecycle ("rejected upload " ++ debugString name ++ ": " ++ error)], s)
  | .ok _ =>
    let call := uploadCall name contentB64 counter
    let (result, s) := runTool "harness" call s
    (uploadEntries (sanitizeFileName name) call result, s)

/-- A name that stands for one entry of a directory. -/
structure IsComponent (c : String) : Prop where
  nonempty : c ≠ ""
  no_separator : ∀ char ∈ c.toList, char ≠ '/' ∧ char ≠ '\\'
  no_control : ∀ char ∈ c.toList, isControl char = false
  ne_dot : c ≠ "."
  ne_dotDot : c ≠ ".."

theorem not_separator_of_mem_lastPart {char : Char} {text : List Char} (h : char ∈ lastPart text) :
    isSeparator char = false := by
  rw [lastPart, List.mem_reverse] at h
  simpa using List.mem_takeWhile_imp h

theorem isComponent_sanitizeFileName (name : String) : IsComponent (sanitizeFileName name) := by
  rw [sanitizeFileName]
  split
  · exact ⟨by decide, by simp, by simp [isControl], by decide, by decide⟩
  · rename_i hplain
    simp only [not_or] at hplain
    have hmem : ∀ char ∈ trim ((lastPart name.toList).filter fun c => !isControl c),
        isSeparator char = false ∧ isControl char = false := by
      intro char hchar
      have hclean := List.mem_filter.mp (mem_of_mem_trim hchar)
      exact ⟨not_separator_of_mem_lastPart hclean.1, by simpa using hclean.2⟩
    constructor
    · simpa using hplain.1
    · intro char hchar
      rw [String.toList_ofList] at hchar
      simpa [isSeparator] using (hmem char hchar).1
    · intro char hchar
      rw [String.toList_ofList] at hchar
      exact (hmem char hchar).2
    · intro h
      exact hplain.2.1 (by simpa using congrArg String.toList h)
    · intro h
      exact hplain.2.2 (by simpa using congrArg String.toList h)

def nameBytes (c : String) : OsBytes := Utf8.encode c.toList

theorem pathBytes_eq (path : String) : HelperHost.pathBytes path = nameBytes path := Utf8.toList_toUTF8 path

theorem nameBytes_append (a b : String) : nameBytes (a ++ b) = nameBytes a ++ nameBytes b := by
  simp [nameBytes]

theorem nameBytes_injective {a b : String} (h : nameBytes a = nameBytes b) : a = b :=
  String.toList_inj.mp (Utf8.encode_injective h)

theorem IsComponent.isName {c : String} (h : IsComponent c) : IsName (nameBytes c) ∧ IsClean (nameBytes c) := by
  refine ⟨⟨?_, ?_, ?_⟩, ?_, ?_⟩
  · exact fun hnil => h.nonempty (nameBytes_injective hnil)
  · exact fun hdot => h.ne_dot (nameBytes_injective hdot)
  · exact fun hdots => h.ne_dotDot (nameBytes_injective hdots)
  · intro hslash
    obtain ⟨char, hchar, hnat⟩ := Utf8.mem_encode (by decide) hslash
    exact (h.no_separator char hchar).1 (Char.ext (UInt32.toNat_inj.mp hnat))
  · intro hnul
    obtain ⟨char, hchar, hnat⟩ := Utf8.mem_encode (by decide) hnul
    have hcontrol : isControl char = true := by
      simp [isControl, hnat]
    rw [h.no_control char hchar] at hcontrol
    cases hcontrol

def uploads : OsBytes := nameBytes "_uploads"

theorem isName_uploads : IsName uploads ∧ IsClean uploads :=
  IsComponent.isName ⟨by decide, by simp, by simp [isControl], by decide, by decide⟩

theorem nameBytes_upload (c : String) : nameBytes ("_uploads/" ++ c) = uploads ++ slash :: nameBytes c := by
  have hprefix : "_uploads/" = "_uploads" ++ "/" := by decide
  have hslash : nameBytes "/" = [slash] := rfl
  rw [nameBytes_append, hprefix, nameBytes_append, hslash, uploads]
  simp

theorem pathBytes_resolvePath (mount c : String) (hmount : mount ≠ "") : ∃ base,
    HelperHost.pathBytes (resolvePath mount ("_uploads/" ++ c)) = base ++ slash :: uploads ++ slash :: nameBytes c ∧
      (nameBytes mount = base ∨ nameBytes mount = base ++ [slash]) := by
  have hrelative : ("_uploads/" ++ c).startsWith "/" = false := by simp
  have hslash : nameBytes "/" = [slash] := rfl
  rw [pathBytes_eq, resolvePath, hrelative]
  simp only [Bool.false_eq_true, if_false, hmount, decide_false, Bool.false_or]
  split
  · rename_i hends
    obtain ⟨front, hfront⟩ : ['/'] <:+ mount.toList := by
      simpa using String.Slice.endsWith_string_iff.mp hends
    have hmount : nameBytes mount = Utf8.encode front ++ [slash] := by
      rw [nameBytes, ← hfront, Utf8.encode_append]
      rfl
    refine ⟨Utf8.encode front, ?_, .inr hmount⟩
    rw [nameBytes_append, nameBytes_upload, hmount]
    simp
  · refine ⟨nameBytes mount, ?_, .inl rfl⟩
    rw [nameBytes_append, nameBytes_append, nameBytes_upload, hslash]
    simp

theorem isAbsolute_append_slash (a b : OsBytes) : isAbsolute (a ++ slash :: b) = isAbsolute (a ++ [slash]) := by
  cases a <;> rfl

theorem below_of_locate {h : HelperHost} {disk : Disk} {mount c : String} {dir : Location}
    (hlocate : h.locate disk mount = some dir) (hc : IsComponent c)
    (hup : ∀ target, disk.fs.node (dir ++ [uploads]) ≠ some (.link target))
    (hname : ∀ target, disk.fs.node (dir ++ [uploads] ++ [nameBytes c]) ≠ some (.link target)) :
    Below h.cwd disk.fs (HelperHost.pathBytes (resolvePath mount ("_uploads/" ++ c))) dir uploads (nameBytes c) := by
  rw [HelperHost.locate, pathBytes_eq] at hlocate
  obtain ⟨hnul, hresolves, -⟩ := resolves_comps_of_canonicalize hlocate
  have hmount : mount ≠ "" := by
    rintro rfl
    simp [canonicalize, nameBytes] at hlocate
  obtain ⟨base, hpath, hbase⟩ := pathBytes_resolvePath mount c hmount
  have hsame : isAbsolute (HelperHost.pathBytes (resolvePath mount ("_uploads/" ++ c))) = isAbsolute (nameBytes mount) ∧
      disk.fs.Resolves Arrives maxLinks (startOf h.cwd (isAbsolute (nameBytes mount))) (pieces base) dir ∧
      0 ∉ base := by
    rw [hpath, List.append_assoc, List.cons_append, isAbsolute_append_slash]
    rcases hbase with hbase | hbase
    · rw [hbase] at hresolves hnul ⊢
      have hne : base ≠ [] := fun hnil => hmount (nameBytes_injective (hbase.trans hnil))
      obtain ⟨first, rest, rfl⟩ := List.exists_cons_of_ne_nil hne
      exact ⟨rfl, hresolves, hnul⟩
    · rw [hbase] at hresolves hnul ⊢
      rw [pieces_append_slash base [] (by simp)] at hresolves
      obtain ⟨found, fewer, -, hfound, hlast⟩ := hresolves.split (pieces base) length_le_of_arrives rfl
      have hdir : dir = found := by
        cases hlast with
        | done h => cases h.1
        | stay _ _ h => exact h.eq_of_nil
        | down _ hn | follow _ hn => exact absurd rfl hn.1
      exact ⟨rfl, hdir ▸ hfound, fun h0 => hnul (List.mem_append_left _ h0)⟩
  obtain ⟨habsolute, hdir, hnul⟩ := hsame
  refine ⟨⟨base, hpath, by rw [habsolute]; exact hdir⟩, ?_, isName_uploads, hc.isName, hup, hname⟩
  rw [hpath]
  simp only [List.mem_append, List.mem_cons, not_or]
  exact ⟨⟨hnul, by decide, isName_uploads.2.2⟩, by decide, hc.isName.2.2⟩

/-- What the Write tool asks of the helper for an upload, and what it makes of the answer. -/
theorem runTool_uploadCall (env : ToolEnv) (name : String) {contentB64 : String} {content : List UInt8} (counter : Nat)
    (hcontent : env.unb64 contentB64 = .ok content) : ∃ after,
    env.runTool (uploadCall name contentB64 counter) =
        .ok (.writeFile (resolvePath env.workspaceMount ("_uploads/" ++ sanitizeFileName name)) contentB64 false, after) ∧
      (∀ bytes, ∃ text, after (.ok (.written bytes)) = .ok (.ok text)) ∧
      ∀ message, after (.error (.helper message)) = .ok (.error message) := by
  have hcontentB64 : (uploadCall name contentB64 counter).input.get "content_b64" = some (.string contentB64) := rfl
  have hcontentKey : (uploadCall name contentB64 counter).input.get "content" = none := rfl
  have happend : (uploadCall name contentB64 counter).input.get "append" = none := rfl
  have hwrite : env.writeContent (uploadCall name contentB64 counter) = .ok contentB64 := by
    simp [ToolEnv.writeContent, hcontentB64, hcontentKey, Json.asStr, hcontent]
  have hpath : strField (uploadCall name contentB64 counter) "path" = .ok ("_uploads/" ++ sanitizeFileName name) := rfl
  have hrun : env.runTool (uploadCall name contentB64 counter) = env.writeTool (uploadCall name contentB64 counter) := rfl
  rw [hrun, ToolEnv.writeTool, hpath, hwrite]
  exact ⟨_, rfl, fun bytes => ⟨_, rfl⟩, fun message => rfl⟩

section

variable (env : ToolEnv) (host : HelperHost) (others : HelperOp → Disk → Except String HelperPayload × Disk)

/-- An upload all the way to the files of the sandbox. -/
def upload (name contentB64 : String) (counter : Nat) (disk : Disk) : List UploadEntry × Disk :=
  storeUpload host.unb64 (fun _ => ToolEnv.execute { env with unb64 := host.unb64 } (host.serve others))
    name contentB64 counter disk

/-- The journal says that the upload was written. -/
def Stored (entries : List UploadEntry) : Prop :=
  ∃ call output, .toolExec "harness" "sandbox" call output ∈ entries ∧ output.isError = false

theorem upload_of_writeFile {name contentB64 : String} {content : List UInt8} (counter : Nat) {disk after : Disk}
    (hcontent : host.unb64 contentB64 = .ok content) {result : Except String HelperPayload}
    (hresult : result = .ok (.written (UInt64.ofNat content.length)) ∨ ∃ message, result = .error message)
    (hwrite : host.writeFile disk (resolvePath env.workspaceMount ("_uploads/" ++ sanitizeFileName name)) contentB64 false
      = (result, after)) :
    (upload env host others name contentB64 counter disk).2 = after ∧
      (Stored (upload env host others name contentB64 counter disk).1 ↔ ∃ payload, result = .ok payload) := by
  obtain ⟨k, hrun, hok, herror⟩ := runTool_uploadCall { env with unb64 := host.unb64 } name counter hcontent
  have hserve : host.serve others (.writeFile (resolvePath env.workspaceMount ("_uploads/" ++ sanitizeFileName name))
      contentB64 false) disk = (result, after) := hwrite
  have hexecute : ToolEnv.execute { env with unb64 := host.unb64 } (host.serve others)
      (uploadCall name contentB64 counter) disk = (k (result.mapError .helper), after) := by
    rw [ToolEnv.execute, hrun]
    simp only [hserve]
  have hupload : upload env host others name contentB64 counter disk =
      (uploadEntries (sanitizeFileName name) (uploadCall name contentB64 counter) (k (result.mapError .helper)), after) := by
    rw [upload, storeUpload, hcontent]
    dsimp only
    rw [hexecute]
  rw [hupload]
  refine ⟨rfl, ?_⟩
  rcases hresult with rfl | ⟨message, rfl⟩
  · obtain ⟨text, htext⟩ := hok (UInt64.ofNat content.length)
    have hreply : k ((Except.ok (.written (UInt64.ofNat content.length)) : Except String HelperPayload).mapError
        SandboxError.helper) = .ok (.ok text) := htext
    rw [hreply]
    exact ⟨fun _ => ⟨_, rfl⟩, fun _ => ⟨_, _, List.mem_cons_self, rfl⟩⟩
  · have hreply : k ((Except.error message : Except String HelperPayload).mapError SandboxError.helper) =
        .ok (.error message) := herror message
    rw [hreply]
    refine ⟨?_, fun ⟨_, h⟩ => nomatch h⟩
    rintro ⟨call, output, hmem, hfine⟩
    simp only [uploadEntries, List.mem_cons, UploadEntry.toolExec.injEq, reduceCtorEq, List.not_mem_nil, or_false,
      true_and] at hmem
    obtain ⟨-, rfl⟩ := hmem
    cases hfine

/-- Whatever its name, an upload that is not base64 makes no call, and any other writes what it
decodes to as one entry of `_uploads` in the workspace and nothing else. -/
theorem upload_stores (name contentB64 : String) (counter : Nat) (disk : Disk) :
    IsComponent (sanitizeFileName name) ∧
      (∀ error, host.unb64 contentB64 = .error error →
        ∀ {σ : Type} (runTool : String → ToolCall → σ → Except SandboxError ToolOutput × σ) (s : σ),
          storeUpload host.unb64 runTool name contentB64 counter s =
            ([.lifecycle ("rejected upload " ++ debugString name ++ ": " ++ error)], s)) ∧
      ∀ content dir, host.unb64 contentB64 = .ok content → host.locate disk env.workspaceMount = some dir →
        (∀ target, disk.fs.node (dir ++ [uploads]) ≠ some (.link target)) →
        (∀ target, disk.fs.node (dir ++ [uploads] ++ [nameBytes (sanitizeFileName name)]) ≠ some (.link target)) →
        let place := dir ++ [uploads] ++ [nameBytes (sanitizeFileName name)]
        let result := upload env host others name contentB64 counter disk
        (∀ other, other ≠ place → result.2.content other = disk.content other) ∧
          (∀ other, other ≠ dir ++ [uploads] → other ≠ place → result.2.fs.node other = disk.fs.node other) ∧
          (Stored result.1 → result.2.fs.node place = some .file ∧ result.2.content place = content) ∧
          (host.Clear disk dir uploads (nameBytes (sanitizeFileName name)) → Stored result.1) := by
  refine ⟨isComponent_sanitizeFileName name, ?_, ?_⟩
  · intro error herror σ runTool s
    rw [storeUpload, herror]
  · intro content dir hcontent hlocate hup hname
    have hb := below_of_locate hlocate (isComponent_sanitizeFileName name) hup hname
    obtain ⟨result, after, hwrite⟩ : ∃ result after, host.writeFile disk
        (resolvePath env.workspaceMount ("_uploads/" ++ sanitizeFileName name)) contentB64 false = (result, after) :=
      ⟨_, _, rfl⟩
    obtain ⟨hcontents, hnodes, hok⟩ := HelperHost.writeFile_below hb hcontent hwrite
    have hresult : result = .ok (.written (UInt64.ofNat content.length)) ∨ ∃ message, result = .error message := by
      cases result with
      | error message => exact .inr ⟨message, rfl⟩
      | ok payload => exact .inl (by rw [(hok payload rfl).1])
    obtain ⟨hafter, hstored⟩ := upload_of_writeFile env host others counter hcontent hresult hwrite
    dsimp only
    rw [hafter, hstored]
    refine ⟨hcontents, hnodes, ?_, ?_⟩
    · rintro ⟨payload, hpayload⟩
      exact (hok payload hpayload).2
    · intro hclear
      have hwritten := HelperHost.writeFile_of_clear hb hclear hcontent
      rw [hwrite] at hwritten
      exact ⟨_, hwritten⟩

/-- A sandbox with an empty workspace at `w`. -/
def emptyWorkspace : Disk :=
  ⟨⟨fun location => if location = [[0x77]] then some (.dir true) else none⟩, fun _ => []⟩

def plainEnv : ToolEnv := ⟨"/w", "/h", "/t", id, fun _ => .ok [], fun _ => "", id, id, fun _ => ""⟩

theorem upload_stores_binary :
    (upload plainEnv plainHost (fun _ disk => (.error "", disk)) "../a\u0007" "AQI=" 1 emptyWorkspace).2.content
      [[0x77], uploads, nameBytes (sanitizeFileName "../a\u0007")] = [1, 2] := by
  have hnode : ∀ rest : Location, emptyWorkspace.fs.node ([0x77] :: uploads :: rest) = none := by
    intro rest
    simp [emptyWorkspace]
  have hlocate : plainHost.locate emptyWorkspace plainEnv.workspaceMount = some [[0x77]] := by
    rw [HelperHost.locate, pathBytes_eq]
    decide
  obtain ⟨-, -, h⟩ := upload_stores plainEnv plainHost (fun _ disk => (.error "", disk)) "../a\u0007" "AQI=" 1 emptyWorkspace
  obtain ⟨-, -, hstored, hclear⟩ := h [1, 2] [[0x77]] rfl hlocate
    (fun target htarget => by simp [hnode] at htarget) (fun target htarget => by simp [hnode] at htarget)
  exact (hstored (hclear ⟨rfl, .inl ⟨hnode [], rfl⟩, .inl (hnode _), rfl, rfl⟩)).2

end

end Silo.Harness
