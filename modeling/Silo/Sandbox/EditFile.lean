import Mathlib.Data.Option.Basic
import Silo.Lib.Occurrences
import Silo.Lib.Utf8
import Silo.Sandbox.HelperFiles

namespace Silo.Sandbox

open Silo.Lib Silo.Shell

namespace HelperHost

variable (h : HelperHost) (disk : Disk)

/-- `tokio::fs::read`. -/
def readBytes (path : String) : Option (List UInt8) := do
  let location ← h.locate disk path
  guard (h.refuses location = false ∧ disk.fs.node location = some .file)
  return disk.content location

/-- `tokio::fs::write` of the edited text. -/
def rewrite (path : String) (updated : List Char) (replacements : Nat) : Except String HelperPayload × Disk :=
  match h.openFile disk path with
  | none => (.error ("cannot write " ++ path ++ ": " ++ h.osError), disk)
  | some location =>
    let (result, disk) := h.writeAll disk path location [] (Utf8.encode updated)
    (result.map fun _ => .edited (UInt64.ofNat replacements), disk)

def editFile (path old new : String) (replaceAll : Bool) : Except String HelperPayload × Disk :=
  if old = "" then (.error "old string is empty", disk)
  else
    match h.readBytes disk path with
    | none => (.error ("cannot read " ++ path ++ ": " ++ h.osError), disk)
    | some bytes =>
      match String.fromUTF8? bytes.toByteArray with
      | none => (.error (path ++ " is not valid UTF-8 text"), disk)
      | some text =>
        let count := matchCount old.toList 0 text.toList
        if count = 0 then (.error "old string not found", disk)
        else if 1 < count ∧ replaceAll = false then
          (.error ("old string matches " ++ toString count ++ " times; set replace_all to change every occurrence"), disk)
        else if replaceAll then
          h.rewrite disk path (Silo.Lib.replaceAll old.toList new.toList 0 text.toList) count
        else h.rewrite disk path (replaceFirst old.toList new.toList text.toList) 1

/-- The file at the path has this text, and it can be written. -/
structure Editable (path : String) (location : Location) (text : List Char) : Prop where
  located : h.locate disk path = some location
  file : disk.fs.node location = some .file
  content : disk.content location = Utf8.encode text
  opens : h.openFile disk path = some location
  room : h.room location = none

/-- What an edit is to do: replace the one occurrence, or all of them, and leave the
file alone if there is an error. -/
structure EditExact (path old new : String) (replaceAll : Bool) : Prop where
  one : ∀ location text, h.Editable disk path location text → replaceAll = false →
    ((h.editFile disk path old new replaceAll).1.toBool = true ↔ ∃! position, OccursAt old.toList text position) ∧
    ∀ position, (h.editFile disk path old new replaceAll).1.toBool = true → OccursAt old.toList text position →
      h.editFile disk path old new replaceAll = (.ok (.edited 1), disk.put location (Utf8.encode
        (text.take position ++ (new.toList ++ text.drop (position + old.toList.length)))))
  every : ∀ location text, h.Editable disk path location text → replaceAll = true →
    ((h.editFile disk path old new replaceAll).1.toBool = true ↔ ∃ position, OccursAt old.toList text position) ∧
    ((h.editFile disk path old new replaceAll).1.toBool = true → ∃ piece pieces,
      old.toList.intercalate (piece :: pieces) = text ∧
      h.editFile disk path old new replaceAll = (.ok (.edited (UInt64.ofNat pieces.length)),
        disk.put location (Utf8.encode (new.toList.intercalate (piece :: pieces)))))
  kept : ∀ message, (h.editFile disk path old new replaceAll).1 = .error message →
    message ≠ "cannot write " ++ path ++ ": " ++ h.osError → (h.editFile disk path old new replaceAll).2 = disk

variable {h : HelperHost} {disk : Disk} {path old new : String} {replaceAll : Bool} {location : Location}
  {text : List Char}

theorem rewrite_cases (h : HelperHost) (disk : Disk) (path : String) (updated : List Char) (replacements : Nat) :
    (h.rewrite disk path updated replacements).1 = .error ("cannot write " ++ path ++ ": " ++ h.osError) ∨
      ∃ location, h.openFile disk path = some location ∧ h.room location = none := by
  rw [rewrite]
  cases hopens : h.openFile disk path with
  | none => exact .inl rfl
  | some location =>
      cases hroom : h.room location with
      | none => exact .inr ⟨location, rfl, hroom⟩
      | some room =>
          simp only [writeAll, hroom]
          exact .inl rfl

namespace Editable

theorem readBytes_eq (hedit : h.Editable disk path location text) : h.readBytes disk path = some (Utf8.encode text) := by
  have hallowed : h.refuses location = false := by
    have hopens := hedit.opens
    rw [openFile] at hopens
    split at hopens
    · cases hopens
    · split at hopens
      · split at hopens
        · cases hopens
        · cases hopens
          simpa using ‹¬ h.refuses location = true›
      · cases hopens
  rw [readBytes, hedit.located, ← hedit.content]
  simp [hallowed, hedit.file]

theorem rewrite_eq (hedit : h.Editable disk path location text) (updated : List Char) (replacements : Nat) :
    h.rewrite disk path updated replacements =
      (.ok (.edited (UInt64.ofNat replacements)), disk.put location (Utf8.encode updated)) := by
  simp only [rewrite, hedit.opens, writeAll, hedit.room]
  rfl

theorem editFile_eq (hedit : h.Editable disk path location text) (hold : old ≠ "") :
    h.editFile disk path old new replaceAll =
      if matchCount old.toList 0 text = 0 then (.error "old string not found", disk)
      else if 1 < matchCount old.toList 0 text ∧ replaceAll = false then
        (.error ("old string matches " ++ toString (matchCount old.toList 0 text) ++
          " times; set replace_all to change every occurrence"), disk)
      else if replaceAll then
        (.ok (.edited (UInt64.ofNat (matchCount old.toList 0 text))),
          disk.put location (Utf8.encode (Silo.Lib.replaceAll old.toList new.toList 0 text)))
      else (.ok (.edited 1), disk.put location (Utf8.encode (replaceFirst old.toList new.toList text))) := by
  rw [editFile, if_neg hold, hedit.readBytes_eq]
  dsimp only
  rw [Utf8.fromUTF8?_encode]
  dsimp only
  rw [String.toList_ofList, hedit.rewrite_eq, hedit.rewrite_eq]
  rfl

theorem one_iff (hedit : h.Editable disk path location text) (hold : old ≠ "") :
    (h.editFile disk path old new false).1.toBool = true ↔ matchCount old.toList 0 text = 1 := by
  rw [hedit.editFile_eq hold]
  split
  · simp_all [Except.toBool]
  · split
    · simp only [Except.toBool, Bool.false_eq_true, false_iff]
      omega
    · simp only [Bool.false_eq_true, if_false, Except.toBool, true_iff]
      simp only [and_true] at *
      omega

theorem one_eq (hedit : h.Editable disk path location text) (hold : old ≠ "")
    (hone : matchCount old.toList 0 text = 1) : h.editFile disk path old new false =
      (.ok (.edited 1), disk.put location (Utf8.encode (replaceFirst old.toList new.toList text))) := by
  rw [hedit.editFile_eq hold, hone]
  simp

theorem every_iff (hedit : h.Editable disk path location text) (hold : old ≠ "") :
    (h.editFile disk path old new true).1.toBool = true ↔ ∃ position, OccursAt old.toList text position := by
  have hpart : old.toList ≠ [] := by simpa using hold
  rw [hedit.editFile_eq hold]
  have hzero : matchCount old.toList 0 text = 0 ↔ ∀ position, ¬ OccursAt old.toList text position :=
    matchCount_eq_zero hpart
  split
  · rename_i hnone
    simpa [Except.toBool] using hzero.mp hnone
  · rename_i hsome
    rw [hzero, not_forall_not] at hsome
    simpa [Except.toBool] using hsome

end Editable

theorem editFile_kept {message : String} (herror : (h.editFile disk path old new replaceAll).1 = .error message)
    (hmessage : message ≠ "cannot write " ++ path ++ ": " ++ h.osError) :
    (h.editFile disk path old new replaceAll).2 = disk := by
  have hrewrite : ∀ updated replacements, (h.rewrite disk path updated replacements).1 = .error message → False := by
    intro updated replacements hfailed
    obtain hwrite | ⟨location, hopens, hroom⟩ := h.rewrite_cases disk path updated replacements
    · rw [hwrite] at hfailed
      cases hfailed
      exact hmessage rfl
    · simp only [rewrite, hopens, writeAll, hroom] at hfailed
      cases hfailed
  rw [editFile] at herror ⊢
  split
  · rfl
  rename_i hold
  rw [if_neg hold] at herror
  split
  · rfl
  rename_i bytes hbytes
  rw [hbytes] at herror
  dsimp only at herror
  split
  · rfl
  rename_i text htext
  rw [htext] at herror
  dsimp only at herror ⊢
  split
  · rfl
  rename_i hzero
  rw [if_neg hzero] at herror
  split
  · rfl
  rename_i hmany
  rw [if_neg hmany] at herror
  split
  · rename_i hall
    rw [if_pos hall] at herror
    exact (hrewrite _ _ herror).elim
  · rename_i hall
    rw [if_neg hall] at herror
    exact (hrewrite _ _ herror).elim

/-- An edit is exact unless it is to replace one occurrence and there are several, all
of them begun before the first one ends. -/
theorem editExact_iff (hold : old ≠ "") : h.EditExact disk path old new replaceAll ↔
    (replaceAll = true ∨ ∀ location text, h.Editable disk path location text → ¬ Tangled old.toList text) := by
  have hpart : old.toList ≠ [] := by simpa using hold
  constructor
  · intro hexact
    cases replaceAll with
    | true => exact .inl rfl
    | false =>
        refine .inr fun location text hedit => ?_
        obtain ⟨honly, -⟩ := hexact.one location text hedit rfl
        rw [hedit.one_iff hold] at honly
        exact (matchCount_eq_one_iff_unique hpart).mp honly
  · intro hcond
    constructor
    · rintro location text hedit rfl
      have huntangled : ¬ Tangled old.toList text := by
        rcases hcond with hall | hcond
        · cases hall
        · exact hcond location text hedit
      have honly := (matchCount_eq_one_iff_unique hpart).mpr huntangled
      rw [hedit.one_iff hold]
      refine ⟨honly, fun position hone hoccurs => ?_⟩
      obtain ⟨only, -, hunique⟩ := honly.mp hone
      have hfirst : ∀ other, OccursAt old.toList text other → position ≤ other := by
        intro other hother
        rw [hunique other hother, hunique position hoccurs]
      rw [hedit.one_eq hold hone, replaceFirst_eq hpart hoccurs hfirst]
    · rintro location text hedit rfl
      refine ⟨hedit.every_iff hold, fun hok => ?_⟩
      obtain ⟨piece, pieces, hlength, htext, hreplaced⟩ := exists_pieces hpart new.toList text
      refine ⟨piece, pieces, htext, ?_⟩
      have hsome : matchCount old.toList 0 text ≠ 0 := by
        rw [Ne, matchCount_eq_zero hpart, not_forall_not]
        exact (hedit.every_iff hold).mp hok
      rw [hedit.editFile_eq hold, if_neg hsome, if_neg (by simp), if_pos rfl, hreplaced, hlength]
    · intro message herror hmessage
      exact editFile_kept herror hmessage

theorem editable_oneFile (text : List Char) : plainHost.Editable (oneFile (Utf8.encode text)) "/f" [[0x66]] text := by
  have hpath : pathBytes "/f" = [0x2f, 0x66] := by
    rw [pathBytes, osBytes, Utf8.toList_toUTF8]
    rfl
  constructor
  · rw [locate, hpath]
    rfl
  · rfl
  · rfl
  · rw [openFile, hpath]
    rfl
  · rfl

theorem editExact_abc : plainHost.EditExact (oneFile (Utf8.encode ['a', 'b', 'c'])) "/f" "b" "x" false := by
  apply (editExact_iff (by decide)).mpr
  refine .inr fun location text _ => ?_
  rintro ⟨first, other, hlt, -, hother, hall⟩
  have hlength : "b".toList.length = 1 := rfl
  have := (hall other hother).2
  omega

/-- Two overlapping occurrences are one match. -/
theorem overlapping_edited :
    ¬ ∀ (h : HelperHost) (disk : Disk) (path old new : String) (replaceAll : Bool), old ≠ "" →
      h.EditExact disk path old new replaceAll := by
  intro hexact
  have hedit := editable_oneFile ['a', 'a', 'a']
  obtain ⟨hunique, -⟩ := (hexact plainHost (oneFile (Utf8.encode ['a', 'a', 'a'])) "/f" "aa" "b" false (by decide)).one _ _ hedit rfl
  have hone : matchCount "aa".toList 0 ['a', 'a', 'a'] = 1 := by decide
  obtain ⟨position, -, honly⟩ := hunique.mp ((hedit.one_iff (by decide)).mpr hone)
  have hzero := honly 0 ⟨['a'], rfl⟩
  have hsecond := honly 1 ⟨[], rfl⟩
  omega

end HelperHost

end Silo.Sandbox
