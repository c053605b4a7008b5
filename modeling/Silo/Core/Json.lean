import Silo.Core.Conversation

namespace Silo.Core

def Number.isZero : Number → Bool
  | .float bits => decide (bits = 0) || decide (bits = 0x8000000000000000)
  | _ => false

def Number.beq (a b : Number) : Bool := decide (a = b) || (a.isZero && b.isZero)

def Number.canon : Number → Number
  | .float bits => if bits = 0x8000000000000000 then .float 0 else .float bits
  | number => number

theorem Number.beq_iff (a b : Number) : a.beq b = true ↔ a.canon = b.canon := by
  cases a <;> cases b <;> simp only [Number.beq, Number.isZero, Number.canon] <;> repeat' split
  all_goals grind

namespace Json

mutual

def beq : Json → Json → Bool
  | .null, .null => true
  | .bool a, .bool b => decide (a = b)
  | .number a, .number b => a.beq b
  | .string a, .string b => decide (a = b)
  | .array a, .array b => beqItems a b
  | .object a, .object b => beqFields a b
  | _, _ => false
termination_by structural a => a

def beqItems : List Json → List Json → Bool
  | [], [] => true
  | a :: as, b :: bs => a.beq b && beqItems as bs
  | _, _ => false
termination_by structural a => a

def beqFields : List (String × Json) → List (String × Json) → Bool
  | [], [] => true
  | (k, a) :: as, (l, b) :: bs => decide (k = l) && a.beq b && beqFields as bs
  | _, _ => false
termination_by structural a => a

end

def lookup (fields : List (String × Json)) (key : String) : Option Json :=
  (fields.find? fun f => f.1 = key).map Prod.snd

mutual

/-- Every key of `expected` has its value in `actual`, recursively for objects;
everything else is equal. -/
def subsetMatches : Json → Json → Bool
  | .object exp, .object act => fieldsMatch exp act
  | expected, actual => expected.beq actual
termination_by structural a => a

def fieldsMatch : List (String × Json) → List (String × Json) → Bool
  | [], _ => true
  | (key, value) :: rest, act =>
    (match lookup act key with
      | some actual => subsetMatches value actual
      | none => false) && fieldsMatch rest act
termination_by structural a => a

end

mutual

/-- The keys of every object ascend, as in the maps of `serde_json`. -/
def sorted : Json → Bool
  | .array items => sortedItems items
  | .object fields => sortedFields fields
  | _ => true
termination_by structural a => a

def sortedItems : List Json → Bool
  | [] => true
  | item :: items => item.sorted && sortedItems items
termination_by structural a => a

def sortedFields : List (String × Json) → Bool
  | [] => true
  | (key, value) :: rest => rest.all (fun f => decide (key < f.1)) && value.sorted && sortedFields rest
termination_by structural a => a

end

mutual

def nodes : Json → Nat
  | .array items => nodesItems items + 1
  | .object fields => nodesFields fields + 1
  | _ => 1
termination_by structural a => a

def nodesItems : List Json → Nat
  | [] => 0
  | item :: items => item.nodes + nodesItems items
termination_by structural a => a

def nodesFields : List (String × Json) → Nat
  | [] => 0
  | (_, value) :: rest => value.nodes + nodesFields rest
termination_by structural a => a

end

mutual

/-- The value with its negative zeros made positive. -/
def canon : Json → Json
  | .number value => .number value.canon
  | .array items => .array (canonItems items)
  | .object fields => .object (canonFields fields)
  | json => json
termination_by structural a => a

def canonItems : List Json → List Json
  | [] => []
  | item :: items => item.canon :: canonItems items
termination_by structural a => a

def canonFields : List (String × Json) → List (String × Json)
  | [] => []
  | (key, value) :: rest => (key, value.canon) :: canonFields rest
termination_by structural a => a

end

mutual

theorem beq_iff : ∀ a b : Json, a.beq b = true ↔ a.canon = b.canon
  | .null, b => by cases b <;> simp [beq, canon]
  | .bool _, b => by cases b <;> simp [beq, canon]
  | .number a, b => by cases b <;> simp [beq, canon, Number.beq_iff]
  | .string _, b => by cases b <;> simp [beq, canon]
  | .array as, b => by cases b <;> simp [beq, canon, beqItems_iff as]
  | .object as, b => by cases b <;> simp [beq, canon, beqFields_iff as]

theorem beqItems_iff : ∀ as bs : List Json, beqItems as bs = true ↔ canonItems as = canonItems bs
  | [], bs => by cases bs <;> simp [beqItems, canonItems]
  | a :: as, [] => by simp [beqItems, canonItems]
  | a :: as, b :: bs => by simp [beqItems, canonItems, beq_iff a b, beqItems_iff as bs]

theorem beqFields_iff : ∀ as bs : List (String × Json),
    beqFields as bs = true ↔ canonFields as = canonFields bs
  | [], bs => by cases bs <;> simp [beqFields, canonFields]
  | (k, a) :: as, [] => by simp [beqFields, canonFields]
  | (k, a) :: as, (l, b) :: bs => by
      simp [beqFields, canonFields, beq_iff a b, beqFields_iff as bs, and_assoc]

end

theorem lookup_canon (fields : List (String × Json)) (key : String) :
    lookup (canonFields fields) key = (lookup fields key).map canon := by
  induction fields with
  | nil => rfl
  | cons field rest ih =>
      obtain ⟨k, value⟩ := field
      by_cases hk : k = key
      · simp [lookup, canonFields, hk]
      · simpa [lookup, canonFields, hk] using ih

mutual

theorem subsetMatches_congr : ∀ (x : Json) {y z : Json}, y.canon = z.canon →
    subsetMatches x y = subsetMatches x z
  | .object exp, y, z, h => by
      cases y <;> cases z <;> simp only [canon, reduceCtorEq, Json.object.injEq] at h
      case object.object act act' => exact fieldsMatch_congr exp h
      all_goals simp only [subsetMatches, beq]
  | .null, y, z, h => by rw [Bool.eq_iff_iff]; simp [subsetMatches, beq_iff, h]
  | .bool _, y, z, h => by rw [Bool.eq_iff_iff]; simp [subsetMatches, beq_iff, h]
  | .number _, y, z, h => by rw [Bool.eq_iff_iff]; simp [subsetMatches, beq_iff, h]
  | .string _, y, z, h => by rw [Bool.eq_iff_iff]; simp [subsetMatches, beq_iff, h]
  | .array _, y, z, h => by rw [Bool.eq_iff_iff]; simp [subsetMatches, beq_iff, h]

theorem fieldsMatch_congr : ∀ (exp : List (String × Json)) {act act' : List (String × Json)},
    canonFields act = canonFields act' → fieldsMatch exp act = fieldsMatch exp act'
  | [], _, _, _ => rfl
  | (key, value) :: rest, act, act', h => by
      have hlook : (lookup act key).map canon = (lookup act' key).map canon := by
        rw [← lookup_canon, h, lookup_canon]
      simp only [fieldsMatch, fieldsMatch_congr rest h]
      congr 1
      cases hact : lookup act key <;> cases hact' : lookup act' key <;> rw [hact, hact'] at hlook
      case some.some v v' => exact subsetMatches_congr value (by simpa using hlook)
      all_goals cases hlook

end

theorem lookup_cons_self (key : String) (value : Json) (rest : List (String × Json)) :
    lookup ((key, value) :: rest) key = some value := by
  simp [lookup]

theorem lookup_cons_of_ne {key k : String} (h : k ≠ key) (value : Json) (rest : List (String × Json)) :
    lookup ((k, value) :: rest) key = lookup rest key := by
  simp [lookup, h]

theorem key_of_lookup {fields : List (String × Json)} {key : String} {value : Json}
    (h : lookup fields key = some value) : (key, value) ∈ fields := by
  obtain ⟨⟨k, v⟩, hfind, rfl⟩ := Option.map_eq_some_iff.mp h
  have hk : k = key := by simpa using List.find?_some hfind
  rw [← hk]
  exact List.mem_of_find?_eq_some hfind

theorem ne_of_before {k l : String} (h : k < l) : k ≠ l := by
  rintro rfl
  exact String.lt_irrefl k h

/-- What is expected of other keys is expected of the fields that follow. -/
theorem fieldsMatch_skip {exp : List (String × Json)} {key : String} (h : ∀ f ∈ exp, key ≠ f.1)
    (value : Json) (rest : List (String × Json)) :
    fieldsMatch exp ((key, value) :: rest) = fieldsMatch exp rest := by
  induction exp with
  | nil => rfl
  | cons field exp ih =>
      obtain ⟨k, v⟩ := field
      rw [fieldsMatch, fieldsMatch, lookup_cons_of_ne (h (k, v) (by simp)),
        ih fun f hf => h f (by simp [hf])]

theorem sortedFields_cons {key : String} {value : Json} {rest : List (String × Json)} :
    sortedFields ((key, value) :: rest) = true ↔
      (∀ f ∈ rest, key < f.1) ∧ value.sorted = true ∧ sortedFields rest = true := by
  simp [sortedFields, and_assoc]

mutual

theorem subsetMatches_self : ∀ x : Json, x.sorted = true → subsetMatches x x = true
  | .object fields, h => fieldsMatch_self fields (by simpa [sorted] using h)
  | .null, _ => by simp [subsetMatches, beq_iff]
  | .bool _, _ => by simp [subsetMatches, beq_iff]
  | .number _, _ => by simp [subsetMatches, beq_iff]
  | .string _, _ => by simp [subsetMatches, beq_iff]
  | .array _, _ => by simp [subsetMatches, beq_iff]

theorem fieldsMatch_self : ∀ fields : List (String × Json), sortedFields fields = true →
    fieldsMatch fields fields = true
  | [], _ => rfl
  | (key, value) :: rest, h => by
      obtain ⟨hkeys, hvalue, hrest⟩ := sortedFields_cons.mp h
      rw [fieldsMatch, lookup_cons_self, fieldsMatch_skip fun f hf => ne_of_before (hkeys f hf)]
      rw [Bool.and_eq_true]
      exact ⟨subsetMatches_self value hvalue, fieldsMatch_self rest hrest⟩

end

mutual

theorem nodes_canon : ∀ x : Json, x.canon.nodes = x.nodes
  | .array items => by simp [canon, nodes, nodesItems_canon items]
  | .object fields => by simp [canon, nodes, nodesFields_canon fields]
  | .null | .bool _ | .number _ | .string _ => by simp [canon, nodes]

theorem nodesItems_canon : ∀ items : List Json, nodesItems (canonItems items) = nodesItems items
  | [] => rfl
  | item :: items => by simp [canonItems, nodesItems, nodes_canon item, nodesItems_canon items]

theorem nodesFields_canon : ∀ fields : List (String × Json),
    nodesFields (canonFields fields) = nodesFields fields
  | [] => rfl
  | (_, value) :: rest => by simp [canonFields, nodesFields, nodes_canon value, nodesFields_canon rest]

end

theorem nodes_pos (json : Json) : 0 < json.nodes := by
  cases json <;> simp [nodes]

/-- `x` is no larger than `y`, and equal to it if it is as large. -/
def Within (x y : Json) : Prop := x.nodes ≤ y.nodes ∧ (x.nodes = y.nodes → x.canon = y.canon)

def FieldsWithin (as bs : List (String × Json)) : Prop :=
  nodesFields as ≤ nodesFields bs ∧ (nodesFields as = nodesFields bs → canonFields as = canonFields bs)

theorem within_of_canon {x y : Json} (h : x.canon = y.canon) : x.Within y := by
  have hnodes : x.nodes = y.nodes := by rw [← nodes_canon x, h, nodes_canon y]
  exact ⟨Nat.le_of_eq hnodes, fun _ => h⟩

theorem FieldsWithin.cons_self {key : String} {v w : Json} {es as : List (String × Json)}
    (hv : v.Within w) (h : FieldsWithin es as) : FieldsWithin ((key, v) :: es) ((key, w) :: as) := by
  have h₁ := hv.1
  have h₂ := h.1
  refine ⟨by simp only [nodesFields]; omega, ?_⟩
  intro heq
  simp only [nodesFields] at heq
  rw [canonFields, canonFields, hv.2 (by omega), h.2 (by omega)]

theorem FieldsWithin.cons_of {key : String} {w : Json} {es as : List (String × Json)}
    (h : FieldsWithin es as) : FieldsWithin es ((key, w) :: as) := by
  have hpos := nodes_pos w
  have hle := h.1
  refine ⟨by simp only [nodesFields]; omega, ?_⟩
  intro heq
  simp only [nodesFields] at heq
  omega

mutual

theorem within_of_subset : ∀ {x y : Json}, x.sorted = true → y.sorted = true →
    subsetMatches x y = true → x.Within y
  | .object exp, .object act, hx, hy, h => by
      have hin := fieldsWithin_of_match exp act (by simpa [sorted] using hx) (by simpa [sorted] using hy)
        (by simpa [subsetMatches] using h)
      refine ⟨by simp only [nodes]; exact Nat.succ_le_succ hin.1, ?_⟩
      intro heq
      simp only [nodes, Nat.add_right_cancel_iff] at heq
      rw [canon, canon, hin.2 heq]
  | .object exp, .null, _, _, h | .object exp, .bool _, _, _, h | .object exp, .number _, _, _, h
  | .object exp, .string _, _, _, h | .object exp, .array _, _, _, h => by simp [subsetMatches, beq] at h
  | .null, _, _, _, h => within_of_canon ((beq_iff _ _).mp (by simpa [subsetMatches] using h))
  | .bool _, _, _, _, h => within_of_canon ((beq_iff _ _).mp (by simpa [subsetMatches] using h))
  | .number _, _, _, _, h => within_of_canon ((beq_iff _ _).mp (by simpa [subsetMatches] using h))
  | .string _, _, _, _, h => within_of_canon ((beq_iff _ _).mp (by simpa [subsetMatches] using h))
  | .array _, _, _, _, h => within_of_canon ((beq_iff _ _).mp (by simpa [subsetMatches] using h))

theorem fieldsWithin_of_match : ∀ (exp act : List (String × Json)), sortedFields exp = true →
    sortedFields act = true → fieldsMatch exp act = true → FieldsWithin exp act
  | [], act, _, _, _ => by
      refine ⟨Nat.zero_le _, ?_⟩
      intro heq
      cases act with
      | nil => rfl
      | cons field rest =>
          have := nodes_pos field.2
          simp only [nodesFields] at heq
          omega
  | (key, value) :: exp, act, hexp, hact, h => by
      obtain ⟨hkeys, hvalue, hrest⟩ := sortedFields_cons.mp hexp
      induction act with
      | nil =>
          rw [fieldsMatch] at h
          cases h
      | cons field act ih =>
          obtain ⟨l, w⟩ := field
          obtain ⟨hl, hw, hact'⟩ := sortedFields_cons.mp hact
          by_cases hk : l = key
          · subst hk
            rw [fieldsMatch, lookup_cons_self, Bool.and_eq_true,
              fieldsMatch_skip fun f hf => ne_of_before (hkeys f hf)] at h
            exact FieldsWithin.cons_self (within_of_subset hvalue hw h.1) (fieldsWithin_of_match exp act hrest hact' h.2)
          · -- A key that comes later in `act` is past `l`, and the expected ones with it.
            rw [fieldsMatch, lookup_cons_of_ne hk] at h
            cases hlook : lookup act key with
            | none =>
                rw [hlook] at h
                cases h
            | some actual =>
                have hlt : l < key := hl _ (key_of_lookup hlook)
                have hskip : ∀ f ∈ exp, l ≠ f.1 := fun f hf =>
                  ne_of_before (String.lt_trans hlt (hkeys f hf))
                rw [fieldsMatch_skip hskip] at h
                refine FieldsWithin.cons_of (ih hact' ?_)
                rw [fieldsMatch]
                exact h

end

end Json

end Silo.Core
