import Mathlib.Tactic.IntervalCases
import Patchwork.ByteMemory

/-!
# Hexadecimal digits

Bytes are written as two digits each, the high half first, and read as one number.
-/

namespace Patchwork.Hex
open ByteMemory

def byteDigits (b : UInt8) : List Char :=
  [Nat.digitChar (b.toNat / 16), Nat.digitChar (b.toNat % 16)]

def toHex (bs : List UInt8) : List Char := bs.flatMap byteDigits

def digitValue (c : Char) : Option ℕ :=
  if '0' ≤ c ∧ c ≤ '9' then some (c.toNat - 48)
  else if 'a' ≤ c ∧ c ≤ 'f' then some (c.toNat - 87)
  else if 'A' ≤ c ∧ c ≤ 'F' then some (c.toNat - 55)
  else none

def readHex : List Char → ℕ → Option ℕ
  | [], v => some v
  | c :: cs, v => do
    let d ← digitValue c
    readHex cs (16 * v + d)

def ofHex : List Char → Option ℕ
  | '0' :: 'x' :: cs => readHex cs 0
  | _ => none

theorem digitValue_digitChar {d : ℕ} (h : d < 16) : digitValue (Nat.digitChar d) = some d := by
  interval_cases d <;> rfl

def value (bs : List UInt8) (v : ℕ) : ℕ := bs.foldl (fun v b => 256 * v + b.toNat) v

theorem readHex_toHex (bs : List UInt8) (v : ℕ) : readHex (toHex bs) v = some (value bs v) := by
  induction bs generalizing v with
  | nil => rfl
  | cons b bs ih =>
    have hb := b.toNat_lt
    have hhigh : digitValue (Nat.digitChar (b.toNat / 16)) = some (b.toNat / 16) :=
      digitValue_digitChar (by omega)
    have hlow : digitValue (Nat.digitChar (b.toNat % 16)) = some (b.toNat % 16) :=
      digitValue_digitChar (by omega)
    have hsum : 16 * (16 * v + b.toNat / 16) + b.toNat % 16 = 256 * v + b.toNat := by omega
    simp only [toHex, List.flatMap_cons, byteDigits, List.cons_append, List.nil_append, readHex,
      hhigh, hlow, Option.bind_eq_bind, Option.bind_some, hsum]
    exact ih _

theorem ofHex_toHex (bs : List UInt8) : ofHex ('0' :: 'x' :: toHex bs) = some (value bs 0) :=
  readHex_toHex bs 0

theorem be32_value {bs : List UInt8} (h : bs.length = 4) : be32 (value bs 0) = bs := by
  obtain ⟨a, b, c, d, rfl⟩ := List.length_eq_four.mp h
  have hvalue : value [a, b, c, d] 0 = ofBe32 [a, b, c, d] := by
    simp only [value, List.foldl_cons, List.foldl_nil, ofBe32]
    omega
  rw [hvalue, be32_ofBe32 h]

end Patchwork.Hex
