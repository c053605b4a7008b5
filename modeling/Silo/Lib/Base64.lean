import Mathlib.Data.List.Basic

namespace Silo.Lib.Base64

def digits : List Char := "ABCDEFGHIJKLMNOPQRSTUVWXYZabcdefghijklmnopqrstuvwxyz0123456789+/".toList

def digit (n : Nat) : Char := digits.getD n '='

def value (c : Char) : Option Nat := if c ∈ digits then some (digits.idxOf c) else none

def encode : List UInt8 → List Char
  | [] => []
  | [a] => [digit (a.toNat / 4), digit (a.toNat % 4 * 16), '=', '=']
  | [a, b] => [digit (a.toNat / 4), digit (a.toNat % 4 * 16 + b.toNat / 16), digit (b.toNat % 16 * 4), '=']
  | a :: b :: c :: rest =>
    digit (a.toNat / 4) :: digit (a.toNat % 4 * 16 + b.toNat / 16) ::
      digit (b.toNat % 16 * 4 + c.toNat / 64) :: digit (c.toNat % 64) :: encode rest

/-- The bytes of the last four characters, padded or not. The bits that are
left over have to be zero. -/
def decodeLast (a b c d : Char) : Option (List UInt8) :=
  match value a, value b, value c, value d with
  | some a, some b, some c, some d =>
    some [UInt8.ofNat (a * 4 + b / 16), UInt8.ofNat (b % 16 * 16 + c / 4), UInt8.ofNat (c % 4 * 64 + d)]
  | some a, some b, some c, none =>
    if d = '=' ∧ c % 4 = 0 then some [UInt8.ofNat (a * 4 + b / 16), UInt8.ofNat (b % 16 * 16 + c / 4)] else none
  | some a, some b, none, none =>
    if c = '=' ∧ d = '=' ∧ b % 16 = 0 then some [UInt8.ofNat (a * 4 + b / 16)] else none
  | _, _, _, _ => none

def decode : List Char → Option (List UInt8)
  | [] => some []
  | [a, b, c, d] => decodeLast a b c d
  | a :: b :: c :: d :: rest =>
    match value a, value b, value c, value d with
    | some a, some b, some c, some d =>
      (decode rest).map fun bytes =>
        UInt8.ofNat (a * 4 + b / 16) :: UInt8.ofNat (b % 16 * 16 + c / 4) :: UInt8.ofNat (c % 4 * 64 + d) :: bytes
    | _, _, _, _ => none
  | _ => none

theorem value_digit {n : Nat} (h : n < 64) : value (digit n) = some n := by
  have hall : ∀ n : Fin 64, value (digit n.val) = some n.val := by decide +kernel
  exact hall ⟨n, h⟩

theorem value_pad : value '=' = none := by decide +kernel

theorem ofNat_eq {x : UInt8} {n : Nat} (h : n = x.toNat) : UInt8.ofNat n = x := by
  rw [h, UInt8.ofNat_toNat]

theorem decode_encode (bytes : List UInt8) : decode (encode bytes) = some bytes := by
  induction bytes using encode.induct with
  | case1 => rfl
  | case2 a =>
      have ha := a.toNat_lt
      rw [encode, decode, decodeLast, value_digit (by omega), value_digit (by omega), value_pad]
      simp only [true_and]
      rw [if_pos (by omega), ofNat_eq (x := a) (by omega)]
  | case3 a b =>
      have ha := a.toNat_lt
      have hb := b.toNat_lt
      rw [encode, decode, decodeLast, value_digit (by omega), value_digit (by omega), value_digit (by omega), value_pad]
      simp only [true_and]
      rw [if_pos (by omega), ofNat_eq (x := a) (by omega), ofNat_eq (x := b) (by omega)]
  | case4 a b c rest ih =>
      have ha := a.toNat_lt
      have hb := b.toNat_lt
      have hc := c.toNat_lt
      rw [encode]
      cases hrest : encode rest with
      | nil =>
          rw [hrest] at ih
          obtain rfl : rest = [] := by simpa [decode, eq_comm] using ih
          rw [decode, decodeLast, value_digit (by omega), value_digit (by omega), value_digit (by omega),
            value_digit (by omega)]
          simp only
          rw [ofNat_eq (x := a) (by omega), ofNat_eq (x := b) (by omega), ofNat_eq (x := c) (by omega)]
      | cons e more =>
          rw [hrest] at ih
          rw [decode, value_digit (by omega), value_digit (by omega), value_digit (by omega), value_digit (by omega)]
          · simp only [ih, Option.map_some]
            rw [ofNat_eq (x := a) (by omega), ofNat_eq (x := b) (by omega), ofNat_eq (x := c) (by omega)]
          · rintro ⟨⟩

end Silo.Lib.Base64
