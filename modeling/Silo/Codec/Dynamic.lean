import Mathlib.Algebra.GroupWithZero.Nat
import Silo.Core.Json

namespace Silo.Codec

open Silo.Core (Json Number)

/-- The values of `jsonDecode`: a double by its bits, a map in the order in which
its keys were first put. -/
inductive Dyn
  | null
  | bool (value : Bool)
  | int (value : Int64)
  | double (bits : UInt64)
  | string (value : String)
  | list (items : List Dyn)
  | map (fields : List (String × Dyn))

abbrev Fields := List (String × Dyn)

namespace Fields

/-- `fields[key]`, which is null for a key that is not there. -/
def get (fields : Fields) (key : String) : Dyn :=
  ((fields.find? fun f => f.1 = key).map Prod.snd).getD .null

def put (fields : Fields) (key : String) (value : Dyn) : Fields :=
  if fields.any fun f => f.1 = key then
    fields.map fun f => if f.1 = key then (key, value) else f
  else fields ++ [(key, value)]

/-- The literal `{...fields, ...more}`. -/
def spread (fields more : Fields) : Fields :=
  more.foldl (fun done f => done.put f.1 f.2) fields

@[simp] theorem get_nil (key : String) : get [] key = .null := rfl

@[simp] theorem get_cons (k : String) (value : Dyn) (rest : Fields) (key : String) :
    get ((k, value) :: rest) key = if k = key then value else get rest key := by
  by_cases h : k = key <;> simp [get, h]

theorem put_of_new {fields : Fields} {key : String} (h : key ∉ fields.map Prod.fst) (value : Dyn) :
    fields.put key value = fields ++ [(key, value)] := by
  have hany : (fields.any fun f => f.1 = key) = false := by
    rw [List.any_eq_false]
    intro f hf heq
    exact h (List.mem_map.mpr ⟨f, hf, by simpa using heq⟩)
  simp [put, hany]

theorem spread_of_nodup {fields more : Fields} (h : ((fields ++ more).map Prod.fst).Nodup) :
    fields.spread more = fields ++ more := by
  induction more generalizing fields with
  | nil => simp [spread]
  | cons f more ih =>
      have hnew : f.1 ∉ fields.map Prod.fst := by
        rw [List.map_append, List.nodup_append] at h
        intro hf
        exact h.2.2 f.1 hf f.1 (by simp) rfl
      have hrest : (fields ++ [f]).spread more = fields ++ [f] ++ more := ih (by simpa using h)
      calc fields.spread (f :: more) = (fields.put f.1 f.2).spread more := rfl
        _ = (fields ++ [f]).spread more := by rw [put_of_new hnew]
        _ = fields ++ f :: more := by rw [hrest, List.append_assoc, List.singleton_append]

end Fields

namespace Dyn

variable {α : Type}

def asBool : Dyn → Option Bool
  | .bool value => some value
  | _ => none

def asInt : Dyn → Option Int64
  | .int value => some value
  | _ => none

def asString : Dyn → Option String
  | .string value => some value
  | _ => none

def asList : Dyn → Option (List Dyn)
  | .list items => some items
  | _ => none

def asMap : Dyn → Option Fields
  | .map fields => some fields
  | _ => none

def orNull (cast : Dyn → Option α) : Dyn → Option (Option α)
  | .null => some none
  | value => (cast value).map some

def nearest (value : Int) : UInt64 :=
  let n := value.natAbs
  let e := n.log2
  let digits := if e ≤ 52 then n <<< (52 - e) else
    let unit := 2 ^ (e - 52)
    let low := n / unit
    if unit < 2 * (n % unit) ∨ (unit = 2 * (n % unit) ∧ low % 2 = 1) then low + 1 else low
  if n = 0 then 0
  else UInt64.ofNat ((if value < 0 then 2 ^ 63 else 0) + (e + 1022) * 2 ^ 52 + digits)

example : nearest 1 = 0x3ff0000000000000 ∧ nearest (-3) = 0xc008000000000000 := by decide

example : nearest (2 ^ 53 + 1) = nearest (2 ^ 53) ∧ nearest (2 ^ 64 - 1) = 0x43f0000000000000 := by
  decide

/-- `(value as num).toDouble()`. -/
def toDouble : Dyn → Option UInt64
  | .int value => some (nearest value.toInt)
  | .double bits => some bits
  | _ => none

end Dyn

def finite (bits : UInt64) : Bool := decide (bits &&& 0x7ff0000000000000 ≠ 0x7ff0000000000000)

def decodeNumber : Number → Dyn
  | .posInt n => if n.toNat < 2 ^ 63 then .int n.toInt64 else .double (Dyn.nearest n.toNat)
  | .negInt n => .int n
  | .float bits => .double bits

def encodeInt (n : Int64) : Number := if 0 ≤ n then .posInt n.toUInt64 else .negInt n

mutual

/-- `jsonDecode` of the text of a value: the last one of a repeated key counts. -/
def decode : Json → Dyn
  | .null => .null
  | .bool value => .bool value
  | .number value => decodeNumber value
  | .string value => .string value
  | .array items => .list (decodeItems items)
  | .object fields => .map (Fields.spread [] (decodeFields fields))
termination_by structural json => json

def decodeItems : List Json → List Dyn
  | [] => []
  | item :: items => decode item :: decodeItems items
termination_by structural items => items

def decodeFields : List (String × Json) → Fields
  | [] => []
  | (key, value) :: rest => (key, decode value) :: decodeFields rest
termination_by structural fields => fields

end

mutual

/-- The value of the text of `jsonEncode`, which throws on a double that is not finite. -/
def encode : Dyn → Option Json
  | .null => some .null
  | .bool value => some (.bool value)
  | .int value => some (.number (encodeInt value))
  | .double bits => if finite bits then some (.number (.float bits)) else none
  | .string value => some (.string value)
  | .list items => (encodeItems items).map .array
  | .map fields => (encodeFields fields).map .object
termination_by structural value => value

def encodeItems : List Dyn → Option (List Json)
  | [] => some []
  | item :: items => (encode item).bind fun json => (encodeItems items).map (json :: ·)
termination_by structural items => items

def encodeFields : Fields → Option (List (String × Json))
  | [] => some []
  | (key, value) :: rest =>
    (encode value).bind fun json => (encodeFields rest).map ((key, json) :: ·)
termination_by structural fields => fields

end

def plainNumber : Number → Bool
  | .posInt n => decide (n.toNat < 2 ^ 63)
  | .negInt n => decide (n < 0)
  | .float bits => finite bits

mutual

/-- The integers are below `2 ^ 63`, the floats finite and the keys of each object
distinct. -/
def plain : Json → Bool
  | .number value => plainNumber value
  | .array items => plainItems items
  | .object fields => plainFields fields
  | _ => true
termination_by structural json => json

def plainItems : List Json → Bool
  | [] => true
  | item :: items => plain item && plainItems items
termination_by structural items => items

def plainFields : List (String × Json) → Bool
  | [] => true
  | (key, value) :: rest => rest.all (fun f => decide (f.1 ≠ key)) && plain value && plainFields rest
termination_by structural fields => fields

end

theorem decodeFields_eq (fields : List (String × Json)) :
    decodeFields fields = fields.map fun f => (f.1, decode f.2) := by
  induction fields with
  | nil => rfl
  | cons f rest ih => rw [decodeFields, ih, List.map_cons]

theorem decodeItems_eq (items : List Json) : decodeItems items = items.map decode := by
  induction items with
  | nil => rfl
  | cons item items ih => rw [decodeItems, ih, List.map_cons]

theorem plainFields_cons {key : String} {value : Json} {rest : List (String × Json)} :
    plainFields ((key, value) :: rest) = true ↔
      (∀ f ∈ rest, f.1 ≠ key) ∧ plain value = true ∧ plainFields rest = true := by
  simp [plainFields, and_assoc]

theorem keys_of_plain {fields : List (String × Json)} (h : plainFields fields = true) :
    (fields.map Prod.fst).Nodup := by
  induction fields with
  | nil => exact List.nodup_nil
  | cons f rest ih =>
      obtain ⟨hkey, _, hrest⟩ := plainFields_cons.mp h
      rw [List.map_cons, List.nodup_cons]
      refine ⟨?_, ih hrest⟩
      intro hmem
      obtain ⟨g, hg, heq⟩ := List.mem_map.mp hmem
      exact hkey g hg heq

theorem decode_object {fields : List (String × Json)} (h : plainFields fields = true) :
    decode (.object fields) = .map (decodeFields fields) := by
  have hkeys : ((([] : Fields) ++ decodeFields fields).map Prod.fst).Nodup := by
    rw [List.nil_append, decodeFields_eq, List.map_map]
    exact keys_of_plain h
  rw [decode, Fields.spread_of_nodup hkeys, List.nil_append]

theorem toInt64_nonneg {n : UInt64} (h : n.toNat < 2 ^ 63) : 0 ≤ n.toInt64 := by
  have hvec : n.toBitVec.toNat = n.toNat := rfl
  have hint : n.toInt64.toInt = n.toNat := by
    change n.toBitVec.toInt = _
    rw [BitVec.toInt_eq_toNat_of_lt (by omega), hvec]
  rw [Int64.le_iff_toInt_le, hint]
  simp

theorem encode_decodeNumber {n : Number} (h : plainNumber n = true) :
    encode (decodeNumber n) = some (.number n) := by
  cases n with
  | posInt n =>
      have hn : n.toNat < 2 ^ 63 := by simpa [plainNumber] using h
      have hpos : 0 ≤ n.toInt64 := toInt64_nonneg hn
      rw [decodeNumber, if_pos hn]
      simp [encode, encodeInt, hpos]
  | negInt n =>
      have hn : n < 0 := by simpa [plainNumber] using h
      have hneg : ¬ 0 ≤ n := Int64.not_le.mpr hn
      simp [decodeNumber, encode, encodeInt, hneg]
  | float bits =>
      have hbits : finite bits = true := h
      simp [decodeNumber, encode, hbits]

mutual

theorem encode_decode : ∀ {json : Json}, plain json = true → encode (decode json) = some json
  | .null, _ | .bool _, _ | .string _, _ => rfl
  | .number _, h => encode_decodeNumber h
  | .array items, h => by
      rw [decode, encode, encodeItems_decode (by simpa [plain] using h)]
      rfl
  | .object fields, h => by
      have hfields : plainFields fields = true := by simpa [plain] using h
      rw [decode_object hfields, encode, encodeFields_decode hfields]
      rfl

theorem encodeItems_decode : ∀ {items : List Json}, plainItems items = true →
    encodeItems (decodeItems items) = some items
  | [], _ => rfl
  | item :: items, h => by
      obtain ⟨hitem, hitems⟩ : plain item = true ∧ plainItems items = true := by
        simpa [plainItems] using h
      rw [decodeItems, encodeItems, encode_decode hitem, encodeItems_decode hitems]
      rfl

theorem encodeFields_decode : ∀ {fields : List (String × Json)}, plainFields fields = true →
    encodeFields (decodeFields fields) = some fields
  | [], _ => rfl
  | (key, value) :: rest, h => by
      obtain ⟨_, hvalue, hrest⟩ := plainFields_cons.mp h
      rw [decodeFields, encodeFields, encode_decode hvalue, encodeFields_decode hrest]
      rfl

end

end Silo.Codec
