import Mathlib.Data.List.Basic

namespace Silo.Lib.Utf8

theorem toList_loop (bytes : ByteArray) (i : Nat) (acc : List UInt8) :
    ByteArray.toList.loop bytes i acc = acc.reverse ++ bytes.data.toList.drop i := by
  fun_induction ByteArray.toList.loop bytes i acc with
  | case1 i acc h ih =>
      have hget : bytes.get! i = bytes.data[i] := getElem!_pos bytes.data i h
      have hdrop := List.drop_eq_getElem_cons (l := bytes.data.toList) h
      rw [ih, hget, hdrop]
      simp
  | case2 i acc h =>
      rw [List.drop_eq_nil_of_le (by simpa using h), List.append_nil]

theorem toList_toByteArray (bytes : List UInt8) : bytes.toByteArray.toList = bytes := by
  rw [ByteArray.toList, toList_loop]
  simp

def encode (text : List Char) : List UInt8 := text.flatMap String.utf8EncodeChar

theorem toList_toUTF8 (s : String) : s.toUTF8.toList = encode s.toList := by
  rw [String.toUTF8, ← String.utf8Encode_toList, List.utf8Encode, toList_toByteArray, encode]

@[simp] theorem encode_nil : encode [] = [] := rfl

@[simp] theorem encode_cons (c : Char) (text : List Char) : encode (c :: text) = String.utf8EncodeChar c ++ encode text :=
  rfl

@[simp] theorem encode_append (a b : List Char) : encode (a ++ b) = encode a ++ encode b := by
  simp [encode]

theorem le_of_mem_utf8EncodeChar {c : Char} (hc : 127 < c.val.toNat) {byte : UInt8}
    (h : byte ∈ String.utf8EncodeChar c) : 128 ≤ byte.toNat := by
  simp only [String.utf8EncodeChar] at h
  rw [if_neg (by omega)] at h
  split at h
  · simp only [List.mem_cons, List.not_mem_nil, or_false] at h
    rcases h with rfl | rfl <;> rw [UInt8.toNat_ofNat'] <;> omega
  split at h
  · simp only [List.mem_cons, List.not_mem_nil, or_false] at h
    rcases h with rfl | rfl | rfl <;> rw [UInt8.toNat_ofNat'] <;> omega
  · simp only [List.mem_cons, List.not_mem_nil, or_false] at h
    rcases h with rfl | rfl | rfl | rfl <;> rw [UInt8.toNat_ofNat'] <;> omega

theorem mem_utf8EncodeChar {byte : UInt8} (hbyte : byte.toNat < 128) {c : Char}
    (h : byte ∈ String.utf8EncodeChar c) : c.toNat = byte.toNat := by
  by_cases hc : 127 < c.val.toNat
  · have := le_of_mem_utf8EncodeChar hc h
    omega
  · simp only [String.utf8EncodeChar] at h
    rw [if_pos (by omega)] at h
    obtain rfl := List.mem_singleton.mp h
    have hmod : c.val.toNat % 2 ^ 8 = c.val.toNat := Nat.mod_eq_of_lt (by omega)
    rw [UInt8.toNat_ofNat', hmod]
    rfl

theorem mem_encode {byte : UInt8} (hbyte : byte.toNat < 128) {text : List Char} (h : byte ∈ encode text) :
    ∃ c ∈ text, c.toNat = byte.toNat := by
  obtain ⟨c, hc, hmem⟩ := List.mem_flatMap.mp h
  exact ⟨c, hc, mem_utf8EncodeChar hbyte hmem⟩

theorem encode_injective {a b : List Char} (h : encode a = encode b) : a = b := by
  have hbytes : (String.ofList a).toByteArray = (String.ofList b).toByteArray := by
    rw [String.toByteArray_ofList, String.toByteArray_ofList, List.utf8Encode, List.utf8Encode]
    exact congrArg List.toByteArray h
  have hstring : String.ofList a = String.ofList b := String.toByteArray_inj.mp hbytes
  simpa using congrArg String.toList hstring

theorem fromUTF8?_encode (text : List Char) :
    String.fromUTF8? (encode text).toByteArray = some (String.ofList text) := by
  have hvalid : (encode text).toByteArray.IsValidUTF8 := ByteArray.isValidUTF8_utf8Encode
  rw [String.fromUTF8?, dif_pos hvalid]
  rfl

theorem encode_of_fromUTF8? {bytes : List UInt8} {text : String}
    (h : String.fromUTF8? bytes.toByteArray = some text) : bytes = encode text.toList := by
  rw [String.fromUTF8?] at h
  split at h
  · rw [← toList_toUTF8, ← Option.some.inj h]
    exact (toList_toByteArray bytes).symm
  · cases h

theorem encode_eq_nil {text : List Char} (h : encode text = []) : text = [] := encode_injective h

/-- The character that the bytes begin with. -/
def first (bytes : List UInt8) : Option Char := bytes.toByteArray.utf8DecodeChar? 0

def isContinuation (byte : UInt8) : Bool := 0x80 ≤ byte && byte ≤ 0xbf

def canBegin (a b : UInt8) : Bool :=
  (a = 0xe0 && 0xa0 ≤ b && b ≤ 0xbf) || (0xe1 ≤ a && a ≤ 0xec && isContinuation b) ||
    (a = 0xed && 0x80 ≤ b && b ≤ 0x9f) || (0xee ≤ a && a ≤ 0xef && isContinuation b) ||
    (a = 0xf0 && 0x90 ≤ b && b ≤ 0xbf) || (0xf1 ≤ a && a ≤ 0xf3 && isContinuation b) ||
    (a = 0xf4 && 0x80 ≤ b && b ≤ 0x8f)

/-- How many bytes one replacement character stands for, where the bytes do not begin with a
character: as many as a character can begin with, and at least one. -/
def invalidLength : List UInt8 → Nat
  | a :: b :: rest =>
    if canBegin a b then
      match rest with
      | c :: _ => if 0xf0 ≤ a && isContinuation c then 3 else 2
      | [] => 2
    else 1
  | _ => 1

def replacement : Char := '\uFFFD'

/-- `String::from_utf8_lossy`. -/
def lossy : List UInt8 → List Char
  | [] => []
  | byte :: rest =>
    match first (byte :: rest) with
    | some c => c :: lossy (rest.drop (c.utf8Size - 1))
    | none => replacement :: lossy (rest.drop (invalidLength (byte :: rest) - 1))
termination_by bytes => bytes.length

theorem first_encodeChar (c : Char) (bytes : List UInt8) : first (String.utf8EncodeChar c ++ bytes) = some c := by
  rw [first, List.toByteArray_append]
  exact ByteArray.utf8DecodeChar?_utf8EncodeChar_append

theorem exists_of_first {bytes : List UInt8} {c : Char} (h : first bytes = some c) :
    ∃ rest, bytes = String.utf8EncodeChar c ++ rest := by
  obtain ⟨rest, hrest⟩ := ByteArray.exists_of_utf8DecodeChar?_eq_some h
  have hlist : bytes.toByteArray.data.toList = ((String.utf8EncodeChar c).toByteArray ++ rest).data.toList := by
    rw [hrest]
  rw [ByteArray.toList_data_append, List.toList_data_toByteArray, List.toList_data_toByteArray] at hlist
  exact ⟨_, hlist⟩

theorem lossy_encode_append (text : List Char) (bytes : List UInt8) :
    lossy (encode text ++ bytes) = text ++ lossy bytes := by
  induction text with
  | nil => rfl
  | cons c text ih =>
      obtain ⟨byte, rest, hc⟩ := List.exists_cons_of_ne_nil (String.utf8EncodeChar_ne_nil (c := c))
      have hlength : rest.length = c.utf8Size - 1 := by
        have := congrArg List.length hc
        rw [String.length_utf8EncodeChar, List.length_cons] at this
        omega
      have hfirst := first_encodeChar c (encode text ++ bytes)
      rw [hc, List.cons_append] at hfirst
      rw [encode_cons, hc, List.append_assoc, List.cons_append, lossy, hfirst]
      dsimp only
      rw [← hlength, List.drop_left, ih, List.cons_append]

theorem lossy_encode (text : List Char) : lossy (encode text) = text := by
  have := lossy_encode_append text []
  rw [List.append_nil, lossy, List.append_nil] at this
  exact this

theorem first_of_part {part rest : List UInt8} {c : Char} (h : String.utf8EncodeChar c = part ++ rest)
    (hrest : rest ≠ []) : first part = none := by
  cases hfirst : first part with
  | none => rfl
  | some other =>
      obtain ⟨more, hmore⟩ := exists_of_first hfirst
      have hwhole := first_encodeChar c []
      rw [List.append_nil, h, hmore, List.append_assoc, first_encodeChar, Option.some.injEq] at hwhole
      subst hwhole
      rw [hmore] at h
      have := congrArg List.length h
      have := List.length_pos_iff.mpr hrest
      simp only [List.length_append] at *
      omega

theorem canBegin_iff (a b : UInt8) : canBegin a b = true ↔
    (a.toNat = 224 ∧ 160 ≤ b.toNat ∧ b.toNat ≤ 191) ∨ (225 ≤ a.toNat ∧ a.toNat ≤ 236 ∧ 128 ≤ b.toNat ∧ b.toNat ≤ 191) ∨
      (a.toNat = 237 ∧ 128 ≤ b.toNat ∧ b.toNat ≤ 159) ∨ (238 ≤ a.toNat ∧ a.toNat ≤ 239 ∧ 128 ≤ b.toNat ∧ b.toNat ≤ 191) ∨
      (a.toNat = 240 ∧ 144 ≤ b.toNat ∧ b.toNat ≤ 191) ∨ (241 ≤ a.toNat ∧ a.toNat ≤ 243 ∧ 128 ≤ b.toNat ∧ b.toNat ≤ 191) ∨
      (a.toNat = 244 ∧ 128 ≤ b.toNat ∧ b.toNat ≤ 143) := by
  simp only [canBegin, isContinuation, Bool.or_eq_true, Bool.and_eq_true, decide_eq_true_eq, UInt8.le_iff_toNat_le,
    ← UInt8.toNat_inj, UInt8.reduceToNat, and_assoc, or_assoc]

theorem canBegin_of_three {v : Nat} (hlow : 0x7ff < v) (hhigh : v ≤ 0xffff) (hchar : v < 0xd800 ∨ 0xdfff < v) :
    canBegin (UInt8.ofNat (v / 4096 % 16 + 0xe0)) (UInt8.ofNat (v / 64 % 64 + 0x80)) = true := by
  have ha : (UInt8.ofNat (v / 4096 % 16 + 0xe0)).toNat = v / 4096 + 224 := by
    rw [UInt8.toNat_ofNat']
    omega
  have hb : (UInt8.ofNat (v / 64 % 64 + 0x80)).toNat = v / 64 % 64 + 128 := by
    rw [UInt8.toNat_ofNat']
    omega
  rw [canBegin_iff, ha, hb]
  omega

theorem canBegin_of_four {v : Nat} (hlow : 0xffff < v) (hhigh : v ≤ 0x10ffff) :
    canBegin (UInt8.ofNat (v / 262144 % 8 + 0xf0)) (UInt8.ofNat (v / 4096 % 64 + 0x80)) = true := by
  have ha : (UInt8.ofNat (v / 262144 % 8 + 0xf0)).toNat = v / 262144 + 240 := by
    rw [UInt8.toNat_ofNat']
    omega
  have hb : (UInt8.ofNat (v / 4096 % 64 + 0x80)).toNat = v / 4096 % 64 + 128 := by
    rw [UInt8.toNat_ofNat']
    omega
  rw [canBegin_iff, ha, hb]
  omega

theorem isContinuation_of_lt {n : Nat} (h : n < 64) : isContinuation (UInt8.ofNat (n + 0x80)) = true := by
  simp only [isContinuation, Bool.and_eq_true, decide_eq_true_eq, UInt8.le_iff_toNat_le, UInt8.toNat_ofNat',
    UInt8.reduceToNat]
  omega

theorem invalidLength_of_three {a b d : UInt8} (h : canBegin a b = true) {part : List UInt8}
    (hp : part <+: [a, b, d]) (hpart : part ≠ []) (hshort : part.length < 3) : invalidLength part = part.length := by
  rw [List.prefix_iff_eq_take] at hp
  obtain hlength | hlength : part.length = 1 ∨ part.length = 2 := by
    have := List.length_pos_iff.mpr hpart
    omega
  · rw [hp, hlength]
    rfl
  · rw [hp, hlength]
    simp [invalidLength, h]

theorem invalidLength_of_four {a b d e : UInt8} (h : canBegin a b = true) (hlead : 0xf0 ≤ a)
    (hcontinues : isContinuation d = true) {part : List UInt8}
    (hp : part <+: [a, b, d, e]) (hpart : part ≠ []) (hshort : part.length < 4) :
    invalidLength part = part.length := by
  rw [List.prefix_iff_eq_take] at hp
  obtain hlength | hlength | hlength : part.length = 1 ∨ part.length = 2 ∨ part.length = 3 := by
    have := List.length_pos_iff.mpr hpart
    omega
  · rw [hp, hlength]
    rfl
  · rw [hp, hlength]
    simp [invalidLength, h]
  · rw [hp, hlength]
    simp [invalidLength, h, hlead, hcontinues]

/-- One replacement character stands for all of what is less than a character. -/
theorem invalidLength_part {part rest : List UInt8} {c : Char} (h : String.utf8EncodeChar c = part ++ rest)
    (hpart : part ≠ []) (hrest : rest ≠ []) : invalidLength part = part.length := by
  have hvalid : c.val.toNat < 0xd800 ∨ (0xdfff < c.val.toNat ∧ c.val.toNat < 0x110000) := c.valid
  have hshort : part.length < (String.utf8EncodeChar c).length := by
    rw [h, List.length_append]
    have := List.length_pos_iff.mpr hrest
    omega
  have hp : part <+: String.utf8EncodeChar c := ⟨rest, h.symm⟩
  simp only [String.utf8EncodeChar] at hp hshort
  split at hp
  · rw [if_pos ‹_›, List.length_singleton] at hshort
    exact absurd (List.eq_nil_of_length_eq_zero (by omega)) hpart
  rename_i hone
  rw [if_neg hone] at hshort
  split at hp
  · rw [if_pos ‹_›, List.length_cons, List.length_singleton] at hshort
    obtain ⟨a, rfl⟩ := List.length_eq_one_iff.mp (show part.length = 1 by
      have := List.length_pos_iff.mpr hpart
      omega)
    rfl
  rename_i htwo
  rw [if_neg htwo] at hshort
  split at hp
  · rename_i hthree
    rw [if_pos hthree] at hshort
    exact invalidLength_of_three (canBegin_of_three (by omega) hthree (by omega)) hp hpart hshort
  · rename_i hthree
    rw [if_neg hthree] at hshort
    have hlead : (0xf0 : UInt8) ≤ UInt8.ofNat (c.val.toNat / 262144 % 8 + 0xf0) := by
      rw [UInt8.le_iff_toNat_le, UInt8.toNat_ofNat']
      simp only [UInt8.reduceToNat]
      omega
    have hcontinues := isContinuation_of_lt (Nat.mod_lt (c.val.toNat / 64) (by decide : 0 < 64))
    exact invalidLength_of_four (canBegin_of_four (by omega) (by omega)) hlead hcontinues hp hpart hshort

theorem lossy_part {part rest : List UInt8} {c : Char} (h : String.utf8EncodeChar c = part ++ rest)
    (hpart : part ≠ []) (hrest : rest ≠ []) : lossy part = [replacement] := by
  have hfirst := first_of_part h hrest
  have hlength := invalidLength_part h hpart hrest
  obtain ⟨byte, more, rfl⟩ := List.exists_cons_of_ne_nil hpart
  rw [lossy, hfirst, hlength]
  simp [lossy]

theorem take_encode {text : List Char} {n : Nat} (h : n < (encode text).length) :
    ∃ front c back part rest, text = front ++ c :: back ∧ String.utf8EncodeChar c = part ++ rest ∧ rest ≠ [] ∧
      (encode text).take n = encode front ++ part := by
  induction text generalizing n with
  | nil => simp at h
  | cons c text ih =>
      rw [encode_cons, List.length_append] at h
      by_cases hn : n < (String.utf8EncodeChar c).length
      · refine ⟨[], c, text, (String.utf8EncodeChar c).take n, (String.utf8EncodeChar c).drop n, rfl,
          (List.take_append_drop _ _).symm, ?_, ?_⟩
        · simpa using hn
        · rw [encode_cons, List.take_append_of_le_length (by omega)]
          rfl
      · obtain ⟨front, d, back, part, rest, rfl, hd, hrest, htake⟩ := ih (n := n - (String.utf8EncodeChar c).length) (by omega)
        refine ⟨c :: front, d, back, part, rest, rfl, hd, hrest, ?_⟩
        rw [encode_cons, List.take_append, List.take_of_length_le (by omega), htake, encode_cons, List.append_assoc]

theorem encodeChar_of_ascii {byte : UInt8} (hbyte : byte.toNat < 128) {c : Char} (h : byte ∈ String.utf8EncodeChar c) :
    String.utf8EncodeChar c = [byte] := by
  have hc := mem_utf8EncodeChar hbyte h
  have hlength : (String.utf8EncodeChar c).length = 1 := by
    simp only [String.utf8EncodeChar]
    rw [if_pos (by rw [show c.val.toNat = c.toNat from rfl, hc]; omega)]
    rfl
  obtain ⟨other, hother⟩ := List.length_eq_one_iff.mp hlength
  rw [hother] at h ⊢
  rw [List.mem_singleton.mp h]

theorem invalidLength_le {bytes : List UInt8} (h : bytes ≠ []) : invalidLength bytes ≤ bytes.length := by
  unfold invalidLength
  split
  · split
    · split
      · split <;> simp
      · simp
    · simp
  · exact List.length_pos_iff.mpr h

theorem invalidLength_append {bytes : List UInt8} (rest : List UInt8) {byte : UInt8} (h : bytes ≠ []) (hbyte : byte.toNat < 128) :
    invalidLength (bytes ++ byte :: rest) = invalidLength bytes := by
  have hbegin (a : UInt8) : canBegin a byte = false := by
    rw [← Bool.not_eq_true, canBegin_iff]
    omega
  have hcontinues : isContinuation byte = false := by
    simp only [isContinuation, Bool.and_eq_false_imp, decide_eq_true_eq, decide_eq_false_iff_not,
      UInt8.le_iff_toNat_le, UInt8.reduceToNat]
    omega
  match bytes, h with
  | [a], _ => simp [invalidLength, hbegin]
  | [a, b], _ => simp [invalidLength, hcontinues]
  | a :: b :: c :: bytes, _ => simp [invalidLength]

theorem first_append {bytes : List UInt8} (rest : List UInt8) {byte : UInt8} (h : bytes ≠ []) (hbyte : byte.toNat < 128) :
    first (bytes ++ byte :: rest) = first bytes := by
  cases hfirst : first bytes with
  | some c =>
      obtain ⟨more, rfl⟩ := exists_of_first hfirst
      rw [List.append_assoc, first_encodeChar]
  | none =>
      cases hwhole : first (bytes ++ byte :: rest) with
      | none => rfl
      | some c =>
          obtain ⟨more, hmore⟩ := exists_of_first hwhole
          obtain ⟨beyond, hchar, hrest⟩ | ⟨beyond, hbytes, -⟩ := List.append_eq_append_iff.mp hmore
          · -- The character would go on into the ASCII byte.
            cases beyond with
            | nil =>
                rw [List.append_nil] at hchar
                rw [← hchar, ← List.append_nil (String.utf8EncodeChar c), first_encodeChar] at hfirst
                cases hfirst
            | cons other beyond =>
                obtain ⟨rfl, -⟩ := List.cons.inj hrest
                have hone := encodeChar_of_ascii hbyte (c := c) (by simp [hchar])
                rw [hone] at hchar
                have hlength := congrArg List.length hchar
                have := List.length_pos_iff.mpr h
                simp only [List.length_append, List.length_cons, List.length_nil] at hlength
                omega
          · rw [hbytes, first_encodeChar] at hfirst
            cases hfirst

theorem lossy_append (bytes : List UInt8) {rest : List UInt8} {byte : UInt8} (hbyte : byte.toNat < 128) :
    lossy (bytes ++ byte :: rest) = lossy bytes ++ lossy (byte :: rest) := by
  match bytes with
  | [] => simp [lossy]
  | lead :: bytes =>
      have hne : lead :: bytes ≠ [] := List.cons_ne_nil _ _
      have hfirst := first_append rest hne hbyte
      have hinvalid := invalidLength_append rest hne hbyte
      rw [List.cons_append] at hfirst hinvalid ⊢
      rw [lossy, lossy.eq_def (lead :: bytes)]
      simp only [hfirst, hinvalid]
      cases hc : first (lead :: bytes) with
      | some c =>
          obtain ⟨more, hmore⟩ := exists_of_first hc
          have hlength := congrArg List.length hmore
          rw [List.length_append, String.length_utf8EncodeChar, List.length_cons] at hlength
          have hpos := c.utf8Size_pos
          dsimp only
          rw [List.drop_append_of_le_length (by omega), lossy_append (bytes.drop (c.utf8Size - 1)) hbyte,
            List.cons_append]
      | none =>
          have hle := invalidLength_le hne
          rw [List.length_cons] at hle
          dsimp only
          rw [List.drop_append_of_le_length (by omega),
            lossy_append (bytes.drop (invalidLength (lead :: bytes) - 1)) hbyte, List.cons_append]
termination_by bytes.length
decreasing_by all_goals
  simp only [List.length_drop, List.length_cons]
  omega

theorem eq_encode_of_lossy (bytes : List UInt8) (h : replacement ∉ lossy bytes) : bytes = encode (lossy bytes) := by
  match bytes with
  | [] => simp [lossy]
  | lead :: bytes =>
      rw [lossy] at h ⊢
      cases hc : first (lead :: bytes) with
      | none => simp [hc] at h
      | some c =>
          obtain ⟨more, hmore⟩ := exists_of_first hc
          have hdrop : more = bytes.drop (c.utf8Size - 1) := by
            have := congrArg (List.drop c.utf8Size) hmore
            rw [List.drop_left' (String.length_utf8EncodeChar c)] at this
            obtain ⟨k, hk⟩ := Nat.exists_eq_succ_of_ne_zero (Nat.ne_of_gt c.utf8Size_pos)
            rw [← this, hk, List.drop_succ_cons, Nat.succ_sub_one]
          simp only [hc, List.mem_cons, not_or] at h ⊢
          rw [encode_cons, ← eq_encode_of_lossy (bytes.drop (c.utf8Size - 1)) h.2, ← hdrop, hmore]
termination_by bytes.length
decreasing_by
  simp only [List.length_drop, List.length_cons]
  omega

theorem mem_of_mem_lossy {bytes : List UInt8} {byte : UInt8} (hbyte : byte.toNat < 128)
    (h : byte ∈ encode (lossy bytes)) : byte ∈ bytes := by
  match bytes with
  | [] => simp [lossy] at h
  | lead :: bytes =>
      rw [lossy] at h
      cases hc : first (lead :: bytes) with
      | none =>
          simp only [hc, encode_cons, List.mem_append] at h
          obtain h | h := h
          · have hsmall := encodeChar_of_ascii hbyte h
            have hlength : (String.utf8EncodeChar replacement).length = 1 := by
              rw [hsmall]
              rfl
            exact absurd hlength (by decide)
          · exact List.mem_cons_of_mem _ (List.mem_of_mem_drop (mem_of_mem_lossy hbyte h))
      | some c =>
          obtain ⟨more, hmore⟩ := exists_of_first hc
          simp only [hc, encode_cons, List.mem_append] at h
          obtain h | h := h
          · rw [hmore]
            exact List.mem_append_left _ h
          · exact List.mem_cons_of_mem _ (List.mem_of_mem_drop (mem_of_mem_lossy hbyte h))
termination_by bytes.length
decreasing_by all_goals
  simp only [List.length_drop, List.length_cons]
  omega

end Silo.Lib.Utf8
