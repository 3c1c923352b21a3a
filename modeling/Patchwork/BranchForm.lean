import Mathlib.Algebra.Group.Int.Defs
import Mathlib.Algebra.Group.Nat.Defs
import Mathlib.Tactic.Common

/-!
# The I-form of a branch

A word of primary opcode 18 holds a displacement of 24 bits, counted in words of
four bytes, and two flags: AA, by which the displacement is itself the address to go to,
and LK, by which the branch links. Addresses have 32 bits.
-/

namespace Patchwork.BranchForm

structure Branch where
  displacement : ℤ
  aa : Bool
  lk : Bool

def primaryOpcode (w : ℕ) : ℕ := w / 2 ^ 26

def decode (w : ℕ) : Option Branch :=
  if primaryOpcode w = 18 then
    some ⟨Int.bmod (w % 2 ^ 26 / 4 * 4 : ℕ) (2 ^ 26), w / 2 % 2 = 1, w % 2 = 1⟩
  else none

def Branch.target (b : Branch) (origin : ℕ) : ℕ :=
  (((if b.aa then 0 else (origin : ℤ)) + b.displacement) % 2 ^ 32).toNat

@[simp] theorem target_relative (d : ℤ) (lk : Bool) (origin : ℕ) :
    (Branch.mk d false lk).target origin = ((origin + d) % 2 ^ 32).toNat := rfl

/-- The displacements, taken modulo 2 ^ 32, that 24 bits of words can express. -/
def InReach (d : ℤ) : Prop := -2 ^ 25 ≤ d.bmod (2 ^ 32) ∧ d.bmod (2 ^ 32) < 2 ^ 25

instance : DecidablePred InReach := fun d =>
  inferInstanceAs (Decidable (-2 ^ 25 ≤ d.bmod (2 ^ 32) ∧ d.bmod (2 ^ 32) < 2 ^ 25))

theorem primaryOpcode_relative (d : ℕ) : primaryOpcode (18 * 2 ^ 26 + d % 2 ^ 26) = 18 := by
  unfold primaryOpcode
  omega

theorem decode_relative {d : ℕ} (h : d % 4 = 0) :
    decode (18 * 2 ^ 26 + d % 2 ^ 26) = some ⟨Int.bmod d (2 ^ 26), false, false⟩ := by
  have hword : (18 * 2 ^ 26 + d % 2 ^ 26) % 2 ^ 26 / 4 * 4 = d % 2 ^ 26 := by omega
  have haa : ¬ (18 * 2 ^ 26 + d % 2 ^ 26) / 2 % 2 = 1 := by omega
  have hlk : ¬ (18 * 2 ^ 26 + d % 2 ^ 26) % 2 = 1 := by omega
  have hmod : Int.bmod (d % 2 ^ 26 : ℕ) (2 ^ 26) = Int.bmod d (2 ^ 26) := by
    rw [Int.natCast_emod]
    exact Int.emod_bmod _ _
  rw [decode, if_pos (primaryOpcode_relative d), hword, hmod, decide_eq_false haa,
    decide_eq_false hlk]

theorem bmod_of_inReach {d : ℤ} (h : InReach d) : d.bmod (2 ^ 26) = d.bmod (2 ^ 32) := by
  obtain ⟨hlo, hhi⟩ := h
  calc d.bmod (2 ^ 26) = (d.bmod (2 ^ 32)).bmod (2 ^ 26) :=
        (Int.bmod_bmod_of_dvd (by decide)).symm
    _ = d.bmod (2 ^ 32) := Int.bmod_eq_of_le (by omega) (by omega)

theorem target_iff_inReach (origin d : ℤ) :
    (origin + d.bmod (2 ^ 26)) % 2 ^ 32 = (origin + d) % 2 ^ 32 ↔ InReach d := by
  have hsame : (d.bmod (2 ^ 32)) % 2 ^ 32 = d % 2 ^ 32 := by
    have hdvd := Int.dvd_bmod_sub_self (x := d) (m := 2 ^ 32)
    omega
  constructor
  · intro h
    have hlo := Int.le_bmod (x := d) (m := 2 ^ 26) (by decide)
    have hhi := Int.bmod_lt (x := d) (m := 2 ^ 26) (by decide)
    have hcut : (d.bmod (2 ^ 26)).bmod (2 ^ 32) = d.bmod (2 ^ 26) :=
      Int.bmod_eq_of_le (by omega) (by omega)
    have hrest : d.bmod (2 ^ 26) % (2 ^ 32 : ℕ) = d % (2 ^ 32 : ℕ) := by omega
    have hd : d.bmod (2 ^ 32) = d.bmod (2 ^ 26) := by
      rw [← Int.emod_bmod d, ← hrest, Int.emod_bmod, hcut]
    unfold InReach
    rw [hd]
    omega
  · intro h
    rw [bmod_of_inReach h]
    omega

end Patchwork.BranchForm
