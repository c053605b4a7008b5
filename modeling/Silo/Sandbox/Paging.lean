import Mathlib.Algebra.GroupWithZero.Nat
import Silo.Harness.SendFile

namespace Silo.Sandbox

open Silo.Lib Silo.Harness Silo.Shell

/-- What one `read_file` gave, and for which offset. -/
structure Page where
  offset : UInt64
  bytes : List UInt8
  truncated : Bool
  deriving DecidableEq, Repr

/-- At most so many bytes come at once. -/
def pageCap (limit : Option UInt64) : Nat := limit.elim readFileCap fun limit => min limit.toNat readFileCap

namespace HelperHost

variable (h : HelperHost) (disk : Disk) (path : String) (limit : Option UInt64)

def readPage (offset : UInt64) : Except String Page :=
  match h.readFile disk path (some offset) limit with
  | .ok (.file contentB64 truncated) => (h.unb64 contentB64).map fun bytes => ⟨offset, bytes, truncated⟩
  | .ok _ => .error "unexpected payload"
  | .error message => .error message

/-- Reads on after each truncated page; without fuel it is not done. -/
def readPages : Nat → UInt64 → Option (Except String (List Page))
  | 0, _ => none
  | fuel + 1, offset =>
    match h.readPage disk path limit offset with
    | .error message => some (.error message)
    | .ok page =>
      if page.truncated then
        (readPages fuel (offset + UInt64.ofNat page.bytes.length)).map fun rest => rest.map fun pages => page :: pages
      else some (.ok [page])

/-- The path leads to a file that can be read, of a length that an offset there can tell. -/
structure Readable (location : Location) : Prop where
  located : h.locate disk path = some location
  file : disk.fs.node location = some .file
  allowed : h.refuses location = false
  length : (disk.content location).length ≤ h.maxOffset location
  decodes : ∀ bytes, h.unb64 (h.b64 bytes) = .ok bytes

variable {h disk path} {location : Location}

theorem readFile_eq (hread : h.Readable disk path location) (offset : UInt64)
    (hoffset : offset.toNat ≤ (disk.content location).length) :
    h.readFile disk path (some offset) limit =
      .ok (.file (h.b64 (((disk.content location).drop offset.toNat).take (pageCap limit)))
        (decide (offset.toNat + pageCap limit < (disk.content location).length))) := by
  have hseek : ¬ (h.maxOffset location).val < ((some offset).getD 0).toNat := by
    have hlength := hread.length
    rw [Option.getD_some]
    omega
  have hmin : ∀ cap, min cap (cap + 1) = cap := fun cap => by omega
  have hmore : ∀ cap, cap < min (cap + 1) ((disk.content location).length - offset.toNat) ↔
      offset.toNat + cap < (disk.content location).length := fun cap => by omega
  cases limit <;>
    simp only [readFile, hread.located, hread.allowed, if_neg hseek, hread.file, List.take_take, hmin,
      List.length_take, List.length_drop, hmore] <;> rfl

/-- A page is what the file has at its offset, up to the limit; it is truncated if the
file goes on. -/
theorem readPage_eq (hread : h.Readable disk path location) (offset : UInt64)
    (hoffset : offset.toNat ≤ (disk.content location).length) :
    h.readPage disk path limit offset = .ok ⟨offset, ((disk.content location).drop offset.toNat).take (pageCap limit),
      decide (offset.toNat + pageCap limit < (disk.content location).length)⟩ := by
  rw [readPage, readFile_eq limit hread offset hoffset]
  dsimp only
  rw [hread.decodes]
  rfl

variable {limit}

theorem pageCap_pos (hlimit : ∀ n, limit = some n → 1 ≤ n) : 0 < pageCap limit := by
  have hcap : 0 < readFileCap := by decide
  cases limit with
  | none => exact hcap
  | some n =>
      have hn : 1 ≤ n.toNat := UInt64.le_iff_toNat_le.mp (hlimit n rfl)
      exact Nat.lt_min.mpr ⟨hn, hcap⟩

theorem readPages_from (hread : h.Readable disk path location) (hlimit : ∀ n, limit = some n → 1 ≤ n)
    (offset : UInt64) (hoffset : offset.toNat ≤ (disk.content location).length) :
    ∃ pages : List Page, (∀ fuel, pages.length ≤ fuel → h.readPages disk path limit fuel offset = some (.ok pages)) ∧
      (pages.map Page.bytes).flatten = (disk.content location).drop offset.toNat ∧
      ∀ page ∈ pages, page.bytes.length ≤ pageCap limit ∧
        (page.truncated = true ↔ page.offset.toNat + page.bytes.length < (disk.content location).length) := by
  have hpos := pageCap_pos hlimit
  have hsize := hread.length.trans_lt (h.maxOffset location).isLt
  induction hleft : (disk.content location).length - offset.toNat using Nat.strongRecOn generalizing offset with
  | ind left ih =>
      have hpage := readPage_eq limit hread offset hoffset
      have hbytes : (((disk.content location).drop offset.toNat).take (pageCap limit)).length =
          min (pageCap limit) ((disk.content location).length - offset.toNat) := by
        rw [List.length_take, List.length_drop]
      by_cases hmore : offset.toNat + pageCap limit < (disk.content location).length
      · have hlength : (((disk.content location).drop offset.toNat).take (pageCap limit)).length = pageCap limit := by
          omega
        have hnext : (offset + UInt64.ofNat (pageCap limit)).toNat = offset.toNat + pageCap limit := by
          rw [UInt64.toNat_add, UInt64.toNat_ofNat']
          omega
        obtain ⟨pages, hpages, hflat, hall⟩ := ih _ (by omega) (offset + UInt64.ofNat (pageCap limit)) (by omega) rfl
        refine ⟨⟨offset, ((disk.content location).drop offset.toNat).take (pageCap limit), true⟩ :: pages, ?_, ?_, ?_⟩
        · intro fuel hfuel
          obtain ⟨fuel, rfl⟩ := Nat.exists_eq_add_of_le' (show 1 ≤ fuel by rw [List.length_cons] at hfuel; omega)
          rw [List.length_cons] at hfuel
          rw [readPages, hpage, decide_eq_true hmore]
          simp only [if_pos, hlength, hpages fuel (by omega), Option.map_some]
          rfl
        · rw [List.map_cons, List.flatten_cons, hflat, hnext, ← List.drop_drop, List.take_append_drop]
        · intro page hmem
          rcases List.mem_cons.mp hmem with rfl | hmem
          · exact ⟨hlength.le, by simpa only [hlength, true_iff] using hmore⟩
          · exact hall page hmem
      · refine ⟨[⟨offset, ((disk.content location).drop offset.toNat).take (pageCap limit), false⟩], ?_, ?_, ?_⟩
        · intro fuel hfuel
          obtain ⟨fuel, rfl⟩ := Nat.exists_eq_add_of_le' (show 1 ≤ fuel from hfuel)
          rw [readPages, hpage, decide_eq_false hmore]
          rfl
        · have hrest : ((disk.content location).drop offset.toNat).length ≤ pageCap limit := by
            rw [List.length_drop]
            omega
          rw [List.map_singleton, List.flatten_singleton, List.take_of_length_le hrest]
        · intro page hmem
          obtain rfl := List.mem_singleton.mp hmem
          refine ⟨hbytes.le.trans (Nat.min_le_left _ _), ?_⟩
          simp only [Bool.false_eq_true, false_iff]
          omega

/-- Reading page by page ends, and the pages put together are the file. -/
theorem readPages_reassemble (hread : h.Readable disk path location) (hlimit : ∀ n, limit = some n → 1 ≤ n) :
    ∃ pages : List Page, (∀ fuel, pages.length ≤ fuel → h.readPages disk path limit fuel 0 = some (.ok pages)) ∧
      (pages.map Page.bytes).flatten = disk.content location ∧
      ∀ page ∈ pages, page.bytes.length ≤ pageCap limit ∧
        (page.truncated = true ↔ page.offset.toNat + page.bytes.length < (disk.content location).length) :=
  readPages_from hread hlimit 0 (Nat.zero_le _)

theorem readable_oneFile (bytes : List UInt8) (hlength : bytes.length < 2 ^ 63) :
    plainHost.Readable (oneFile bytes) "/f" [[0x66]] := by
  constructor
  · rw [locate, pathBytes, osBytes, Utf8.toList_toUTF8]
    rfl
  · rfl
  · rfl
  · exact Nat.le_sub_one_of_lt hlength
  · exact plainHost_roundtrip

/-- Five bytes two at a time: two pages are truncated, the third is not. -/
theorem readPages_pairs :
    plainHost.readPages (oneFile [1, 2, 3, 4, 5]) "/f" (some 2) 3 0 =
        some (.ok [⟨0, [1, 2], true⟩, ⟨2, [3, 4], true⟩, ⟨4, [5], false⟩]) ∧
      ∃ pages : List Page, (∀ fuel, pages.length ≤ fuel →
          plainHost.readPages (oneFile [1, 2, 3, 4, 5]) "/f" (some 2) fuel 0 = some (.ok pages)) ∧
        (pages.map Page.bytes).flatten = [1, 2, 3, 4, 5] ∧
        ∀ page ∈ pages, page.bytes.length ≤ pageCap (some 2) ∧
          (page.truncated = true ↔ page.offset.toNat + page.bytes.length < 5) := by
  have hread := readable_oneFile [1, 2, 3, 4, 5] (by decide)
  have hlimit : ∀ n, some (2 : UInt64) = some n → 1 ≤ n := by
    rintro n ⟨⟩
    decide
  have hfirst : plainHost.readPage (oneFile [1, 2, 3, 4, 5]) "/f" (some 2) 0 = .ok ⟨0, [1, 2], true⟩ :=
    (readPage_eq (some 2) hread 0 (by decide)).trans rfl
  have hsecond : plainHost.readPage (oneFile [1, 2, 3, 4, 5]) "/f" (some 2) 2 = .ok ⟨2, [3, 4], true⟩ :=
    (readPage_eq (some 2) hread 2 (by decide)).trans rfl
  have hthird : plainHost.readPage (oneFile [1, 2, 3, 4, 5]) "/f" (some 2) 4 = .ok ⟨4, [5], false⟩ :=
    (readPage_eq (some 2) hread 4 (by decide)).trans rfl
  have htwo : (0 : UInt64) + UInt64.ofNat [(1 : UInt8), 2].length = 2 := by decide
  have hfour : (2 : UInt64) + UInt64.ofNat [(3 : UInt8), 4].length = 4 := by decide
  refine ⟨?_, readPages_reassemble hread hlimit⟩
  simp only [readPages, hfirst, htwo, hsecond, hfour, hthird]
  rfl

end HelperHost

end Silo.Sandbox
