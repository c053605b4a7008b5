import Silo.Lib.ReplaceEach
import Silo.Sandbox.Search

namespace Silo.Sandbox.Search

open Silo.Lib

section Entities

/-- The entities that `decode_entities` supports. -/
def entities : List (List Char × Char) :=
  [("&lt;".toList, '<'), ("&gt;".toList, '>'), ("&quot;".toList, '"'), ("&#x27;".toList, '\''), ("&#39;".toList, '\''),
    ("&nbsp;".toList, ' '), ("&amp;".toList, '&')]

theorem marked_entities : ∀ entry ∈ entities, Marked '&' ';' entry.1 := by
  simp only [entities, List.forall_mem_cons]
  refine ⟨⟨"lt".toList, rfl, ?_⟩, ⟨"gt".toList, rfl, ?_⟩, ⟨"quot".toList, rfl, ?_⟩, ⟨"#x27".toList, rfl, ?_⟩,
    ⟨"#39".toList, rfl, ?_⟩, ⟨"nbsp".toList, rfl, ?_⟩, ⟨"amp".toList, rfl, ?_⟩, by simp⟩ <;> decide

theorem replaceEach_entities {part : List Char} {d : Char} {table : List (List Char × Char)}
    (hsuffix : (part, d) :: table <:+ entities) (hd : ∀ entry ∈ table, d ∉ entry.1) (text : List Char) :
    replaceEach ((part, d) :: table) 0 text = replaceEach table 0 (replaceAll part [d] 0 text) := by
  have hmarked : ∀ entry ∈ (part, d) :: table, Marked '&' ';' entry.1 :=
    fun entry hentry => marked_entities entry (hsuffix.subset hentry)
  have hkeys : (entities.map Prod.fst).Nodup := by decide
  exact replaceEach_cons (hmarked _ List.mem_cons_self)
    (fun entry hentry => hmarked entry (List.mem_cons_of_mem _ hentry))
    (hkeys.sublist (hsuffix.sublist.map Prod.fst)) hd text

/-- The chain of replacements is one pass from left to right, so that what a replacement has
decoded is not decoded again. -/
theorem decodeEntities_eq (text : List Char) : decodeEntities text = replaceEach entities 0 text := by
  rw [entities, replaceEach_entities (by decide) (by decide), replaceEach_entities (by decide) (by decide),
    replaceEach_entities (by decide) (by decide), replaceEach_entities (by decide) (by decide),
    replaceEach_entities (by decide) (by decide), replaceEach_entities (by decide) (by decide),
    replaceEach_entities (by decide) (by decide), replaceEach_nil]
  rfl

example : decodeEntities "&amp;lt; &lt;".toList = "&lt; <".toList := by decide

end Entities

section Percent

def isUnreserved (byte : UInt8) : Bool :=
  (65 ≤ byte && byte ≤ 90) || (97 ≤ byte && byte ≤ 122) || (48 ≤ byte && byte ≤ 57) ||
    [45, 95, 46, 126].contains byte

/-- A digit of `{:02X}`. -/
def upperHex (digit : UInt8) : Char := Char.ofNat (if digit < 10 then 48 + digit.toNat else 55 + digit.toNat)

def encodeByte (byte : UInt8) : List Char :=
  if isUnreserved byte then [Char.ofNat byte.toNat] else ['%', upperHex (byte / 16), upperHex (byte % 16)]

def percentEncode (text : List Char) : List Char := (Utf8.encode text).flatMap encodeByte

theorem unescape_cons {byte : UInt8} (h : byte ≠ 37) (rest : List UInt8) :
    unescape (byte :: rest) = byte :: unescape rest := by
  rw [unescape]
  intro _ _ _ hbyte
  exact absurd hbyte h

/-- The address that `web_search_tool` fetches. -/
def searchUrl (query : List Char) : List Char := "https://html.duckduckgo.com/html/?q=".toList ++ percentEncode query

def Unreserved (c : Char) : Prop :=
  ('A' ≤ c ∧ c ≤ 'Z') ∨ ('a' ≤ c ∧ c ≤ 'z') ∨ ('0' ≤ c ∧ c ≤ '9') ∨ c ∈ ['-', '_', '.', '~']

def IsHexDigit (c : Char) : Prop := ('0' ≤ c ∧ c ≤ '9') ∨ ('a' ≤ c ∧ c ≤ 'f') ∨ ('A' ≤ c ∧ c ≤ 'F')

instance : DecidablePred Unreserved := fun _ => inferInstanceAs (Decidable (_ ∨ _))

instance : DecidablePred IsHexDigit := fun _ => inferInstanceAs (Decidable (_ ∨ _))

/-- Nothing but unreserved characters and well-formed escapes. -/
inductive Coded : List Char → Prop
  | nil : Coded []
  | unreserved (c : Char) (rest : List Char) : Unreserved c → Coded rest → Coded (c :: rest)
  | escape (hi lo : Char) (rest : List Char) :
      IsHexDigit hi → IsHexDigit lo → Coded rest → Coded ('%' :: hi :: lo :: rest)

/-- What can end a value in a URL or mean something else than itself there. -/
def reserved : List Char := ":/?#[]@!$&'()*+,;= ".toList

/-- A well-formed escape is in the text. -/
def HasEscape (text : List Char) : Prop :=
  ∃ front hi lo rest, text = front ++ '%' :: hi :: lo :: rest ∧ IsHexDigit hi ∧ IsHexDigit lo

variable {c hi lo : Char} {text rest : List Char} {byte : UInt8}

theorem IsHexDigit.unreserved (h : IsHexDigit c) : Unreserved c := by
  rcases h with h | h | h
  · exact .inr (.inr (.inl h))
  · exact .inr (.inl ⟨h.1, Char.le_trans h.2 (by decide)⟩)
  · exact .inl ⟨h.1, Char.le_trans h.2 (by decide)⟩

theorem Coded.mem (h : Coded text) (hc : c ∈ text) : Unreserved c ∨ c = '%' := by
  induction h with
  | nil => cases hc
  | unreserved d rest hd _ ih =>
      rcases List.mem_cons.mp hc with rfl | hc
      · exact .inl hd
      · exact ih hc
  | escape hi lo rest hhi hlo _ ih =>
      simp only [List.mem_cons] at hc
      rcases hc with rfl | rfl | rfl | hc
      · exact .inr rfl
      · exact .inl hhi.unreserved
      · exact .inl hlo.unreserved
      · exact ih hc

section Digits

theorem isHexDigit_upperHex : ∀ n : Fin 16, IsHexDigit (upperHex (UInt8.ofNat n)) := by decide

theorem encode_upperHex : ∀ n : Fin 16,
    (Utf8.encode [upperHex (UInt8.ofNat n)]).map hexDigit = [some (UInt8.ofNat n)] := by decide

theorem exists_digit {digit : UInt8} (h : digit.toNat < 16) : ∃ n : Fin 16, UInt8.ofNat n = digit :=
  ⟨⟨digit.toNat, h⟩, UInt8.ofNat_toNat⟩

theorem high_lt (byte : UInt8) : (byte / 16).toNat < 16 := by
  have h := byte.toNat_lt
  rw [UInt8.toNat_div]
  exact Nat.div_lt_of_lt_mul h

theorem low_lt (byte : UInt8) : (byte % 16).toNat < 16 := by
  rw [UInt8.toNat_mod]
  exact Nat.mod_lt _ (by decide)

theorem high_low (byte : UInt8) : byte / 16 * 16 + byte % 16 = byte := by
  apply UInt8.toNat_inj.mp
  have h := byte.toNat_lt
  rw [UInt8.toNat_add, UInt8.toNat_mul, UInt8.toNat_div, UInt8.toNat_mod, show (16 : UInt8).toNat = 16 from rfl]
  omega

theorem isHexDigit_of_lt {digit : UInt8} (h : digit.toNat < 16) : IsHexDigit (upperHex digit) := by
  obtain ⟨n, rfl⟩ := exists_digit h
  exact isHexDigit_upperHex n

theorem encode_digit {digit : UInt8} (h : digit.toNat < 16) :
    ∃ byte, Utf8.encode [upperHex digit] = [byte] ∧ hexDigit byte = some digit := by
  obtain ⟨n, rfl⟩ := exists_digit h
  obtain ⟨byte, rest, heq, hbyte, hrest⟩ := List.map_eq_cons_iff.mp (encode_upperHex n)
  rw [List.map_eq_nil_iff] at hrest
  exact ⟨byte, by rw [heq, hrest], hbyte⟩

theorem le_char (hc : c.toNat = byte.toNat) (d : Char) :
    (d ≤ c ↔ d.toNat ≤ byte.toNat) ∧ (c ≤ d ↔ byte.toNat ≤ d.toNat) := by
  rw [← hc]
  exact ⟨Iff.rfl, Iff.rfl⟩

theorem hexDigit_range {digit : UInt8} (h : hexDigit byte = some digit) :
    (48 ≤ byte.toNat ∧ byte.toNat ≤ 57) ∨ (97 ≤ byte.toNat ∧ byte.toNat ≤ 102) ∨
      (65 ≤ byte.toNat ∧ byte.toNat ≤ 70) := by
  rw [hexDigit] at h
  simp only [UInt8.le_iff_toNat_le] at h
  split at h
  case isTrue hdigit => exact .inl hdigit
  split at h
  case isTrue hdigit => exact .inr (.inl hdigit)
  split at h
  case isTrue hdigit => exact .inr (.inr hdigit)
  cases h

theorem isHexDigit_of_hexDigit {digit : UInt8} (h : hexDigit byte = some digit) (hc : c.toNat = byte.toNat) :
    IsHexDigit c := by
  have hle := le_char hc
  rw [IsHexDigit, (hle _).1, (hle _).2, (hle _).1, (hle _).2, (hle _).1, (hle _).2]
  exact hexDigit_range h

theorem hexDigit_ascii {digit : UInt8} (h : hexDigit byte = some digit) : byte.toNat < 128 := by
  have := hexDigit_range h
  omega

end Digits

theorem toNat_ofNat (h : byte.toNat < 128) : (Char.ofNat byte.toNat).toNat = byte.toNat := by
  have hvalid : byte.toNat.isValidChar := .inl (by omega)
  rw [Char.ofNat, dif_pos hvalid]
  rfl

theorem encode_ascii (h : byte.toNat < 128) : Utf8.encode [Char.ofNat byte.toNat] = [byte] := by
  have hval : (Char.ofNat byte.toNat).val.toNat = byte.toNat := toNat_ofNat h
  rw [Utf8.encode_cons, Utf8.encode_nil, List.append_nil]
  simp only [String.utf8EncodeChar, hval]
  rw [if_pos (by omega), UInt8.ofNat_toNat]

theorem unreserved_of_isUnreserved (h : isUnreserved byte = true) :
    Unreserved (Char.ofNat byte.toNat) ∧ Utf8.encode [Char.ofNat byte.toNat] = [byte] ∧ byte ≠ 37 := by
  have hrange : (65 ≤ byte.toNat ∧ byte.toNat ≤ 90) ∨ (97 ≤ byte.toNat ∧ byte.toNat ≤ 122) ∨
      (48 ≤ byte.toNat ∧ byte.toNat ≤ 57) ∨ byte ∈ [45, 95, 46, 126] := by
    simpa [isUnreserved, UInt8.le_iff_toNat_le, or_assoc] using h
  have hspecial : byte ∈ [45, 95, 46, 126] → byte = 45 ∨ byte = 95 ∨ byte = 46 ∨ byte = 126 := by simp
  have hlt : byte.toNat < 128 := by
    rcases hrange with h | h | h | h
    · omega
    · omega
    · omega
    · rcases hspecial h with rfl | rfl | rfl | rfl <;> decide
  refine ⟨?_, encode_ascii hlt, ?_⟩
  · have hle := le_char (toNat_ofNat hlt)
    rw [Unreserved, (hle _).1, (hle _).2, (hle _).1, (hle _).2, (hle _).1, (hle _).2]
    rcases hrange with h | h | h | h
    · exact .inl h
    · exact .inr (.inl h)
    · exact .inr (.inr (.inl h))
    · rcases hspecial h with rfl | rfl | rfl | rfl <;> exact .inr (.inr (.inr (by decide)))
  · rintro rfl
    revert hrange
    decide

theorem coded_encodeByte (byte : UInt8) (h : Coded rest) : Coded (encodeByte byte ++ rest) := by
  rw [encodeByte]
  split
  case isTrue hbyte => exact .unreserved _ _ (unreserved_of_isUnreserved hbyte).1 h
  case isFalse => exact .escape _ _ _ (isHexDigit_of_lt (high_lt byte)) (isHexDigit_of_lt (low_lt byte)) h

theorem unescape_encodeByte (byte : UInt8) (rest : List UInt8) :
    unescape (Utf8.encode (encodeByte byte) ++ rest) = byte :: unescape rest := by
  rw [encodeByte]
  split
  case isTrue hbyte =>
    obtain ⟨-, hencode, hne⟩ := unreserved_of_isUnreserved hbyte
    rw [hencode, List.singleton_append, unescape_cons hne]
  case isFalse =>
    obtain ⟨hi, hhi, hhigh⟩ := encode_digit (high_lt byte)
    obtain ⟨lo, hlo, hlow⟩ := encode_digit (low_lt byte)
    have hencode : Utf8.encode ['%', upperHex (byte / 16), upperHex (byte % 16)] = [37, hi, lo] := by
      have hpercent : String.utf8EncodeChar '%' = [37] := by decide
      have hdigits : Utf8.encode [upperHex (byte / 16), upperHex (byte % 16)] = [hi] ++ [lo] := by
        rw [← hhi, ← hlo, ← Utf8.encode_append, List.singleton_append]
      rw [Utf8.encode_cons, hpercent, hdigits]
      rfl
    rw [hencode, List.cons_append, List.cons_append, List.singleton_append, unescape, hhigh, hlow]
    dsimp only
    rw [high_low]

theorem unescape_percent {bytes : List UInt8}
    (h : ∀ hi lo more h₁ h₂, bytes = hi :: lo :: more → hexDigit hi = some h₁ → hexDigit lo = some h₂ → False) :
    unescape (37 :: bytes) = 37 :: unescape bytes := by
  rcases bytes with _ | ⟨hi, _ | ⟨lo, more⟩⟩
  · rfl
  · rfl
  · rw [unescape]
    split
    case h_1 h₁ h₂ hhigh hlow => exact (h hi lo more h₁ h₂ rfl hhigh hlow).elim
    case h_2 => rfl

theorem unescape_append {part : List UInt8} (h : 37 ∉ part) (rest : List UInt8) :
    unescape (part ++ rest) = part ++ unescape rest := by
  induction part with
  | nil => rfl
  | cons byte part ih =>
      rw [List.mem_cons, not_or] at h
      rw [List.cons_append, unescape_cons (Ne.symm h.1), ih h.2, List.cons_append]

theorem unescape_percentEncode (bytes : List UInt8) : unescape (Utf8.encode (bytes.flatMap encodeByte)) = bytes := by
  induction bytes with
  | nil => rw [List.flatMap_nil, Utf8.encode_nil, unescape]
  | cons byte bytes ih => rw [List.flatMap_cons, Utf8.encode_append, unescape_encodeByte, ih]

theorem coded_percentEncode (text : List Char) : Coded (percentEncode text) := by
  rw [percentEncode]
  induction Utf8.encode text with
  | nil => exact .nil
  | cons byte bytes ih => exact coded_encodeByte byte ih

theorem percentDecode_percentEncode (text : List Char) : percentDecode (percentEncode text) = text := by
  rw [percentDecode, percentEncode, unescape_percentEncode, Utf8.lossy_encode]

/-- The first character of a text is an ASCII one when a byte of its encoding is. -/
theorem encode_eq_cons {bytes : List UInt8} (h : Utf8.encode text = byte :: bytes) (hbyte : byte.toNat < 128) :
    ∃ c rest, text = c :: rest ∧ c.toNat = byte.toNat ∧ Utf8.encode rest = bytes := by
  cases text with
  | nil => cases h
  | cons c rest =>
      rw [Utf8.encode_cons] at h
      have hmem : byte ∈ String.utf8EncodeChar c := by
        obtain ⟨other, tail, hchar⟩ := List.exists_cons_of_ne_nil (String.utf8EncodeChar_ne_nil (c := c))
        rw [hchar, List.cons_append] at h
        rw [hchar, (List.cons.inj h).1]
        exact List.mem_cons_self
      rw [Utf8.encodeChar_of_ascii hbyte hmem, List.singleton_append] at h
      exact ⟨c, rest, rfl, Utf8.mem_utf8EncodeChar hbyte hmem, (List.cons.inj h).2⟩

theorem unescape_encode (h : ¬ HasEscape text) : unescape (Utf8.encode text) = Utf8.encode text := by
  induction text with
  | nil => rw [Utf8.encode_nil, unescape]
  | cons c rest ih =>
      have hrest : unescape (Utf8.encode rest) = Utf8.encode rest := by
        apply ih
        rintro ⟨front, hi, lo, back, rfl, hdigits⟩
        exact h ⟨c :: front, hi, lo, back, rfl, hdigits⟩
      by_cases hc : c = '%'
      · subst hc
        have hpercent : String.utf8EncodeChar '%' = [37] := by decide
        rw [Utf8.encode_cons, hpercent, List.singleton_append, unescape_percent, hrest]
        intro hi lo bytes h₁ h₂ hbytes hhigh hlow
        obtain ⟨d, rest, rfl, hd, hbytes⟩ := encode_eq_cons hbytes (hexDigit_ascii hhigh)
        obtain ⟨e, rest, rfl, he, -⟩ := encode_eq_cons hbytes (hexDigit_ascii hlow)
        exact h ⟨[], d, e, rest, rfl, isHexDigit_of_hexDigit hhigh hd, isHexDigit_of_hexDigit hlow he⟩
      · rw [Utf8.encode_cons, unescape_append, hrest]
        intro hmem
        have hcode : c.toNat = 37 := Utf8.mem_utf8EncodeChar (by decide) hmem
        exact hc (Char.toNat_inj.mp hcode)

theorem Coded.not_reserved (h : Coded text) (hc : c ∈ text) : c ∉ reserved := by
  have hnone : (reserved.all fun d => decide ¬ (Unreserved d ∨ d = '%')) = true := by decide
  intro hmem
  exact of_decide_eq_true (List.all_eq_true.mp hnone c hmem) (h.mem hc)

/-- What `percent_encode` gives is a value that a URL can hold and stands for the text it is given
only. A text without escapes stands for itself. -/
theorem percent_coded :
    (∀ text, Coded (percentEncode text)) ∧
    (∀ query, ∃ value, searchUrl query = "https://html.duckduckgo.com/html/?q=".toList ++ value ∧
      ∀ c ∈ value, c ∉ reserved) ∧
    (∀ text, percentDecode (percentEncode text) = text) ∧
    Function.Injective percentEncode ∧
    ∀ text, ¬ HasEscape text → percentDecode text = text := by
  refine ⟨coded_percentEncode, ?_, percentDecode_percentEncode, ?_, ?_⟩
  · intro query
    exact ⟨percentEncode query, rfl, fun c hc => (coded_percentEncode query).not_reserved hc⟩
  · intro a b h
    rw [← percentDecode_percentEncode a, h, percentDecode_percentEncode]
  · intro text h
    rw [percentDecode, unescape_encode h, Utf8.lossy_encode]

end Percent

end Silo.Sandbox.Search
