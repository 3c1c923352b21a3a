import Patchwork.BranchForm
import Patchwork.Patches

/-!
# The branch to the script hook

`RelativeBranch` subtracts in 32 bits and keeps 26. Between aligned addresses nothing of
the displacement reaches the opcode or the flags, and what was cut off does
not matter exactly for displacements in reach.
-/

namespace Patchwork.HookBranch
open BranchForm Patches

section Branch
variable {destination origin : ℕ}

def displacement (destination origin : ℕ) : ℕ := destination + 2 ^ 32 - origin % 2 ^ 32

theorem relativeBranch_eq :
    relativeBranch destination origin = 18 * 2 ^ 26 + displacement destination origin % 2 ^ 26 := by
  unfold relativeBranch displacement opcodeB
  omega

theorem decode_relativeBranch (hd : destination % 4 = 0) (ho : origin % 4 = 0) :
    decode (relativeBranch destination origin) =
      some ⟨Int.bmod (displacement destination origin) (2 ^ 26), false, false⟩ := by
  rw [relativeBranch_eq]
  refine decode_relative ?_
  unfold displacement
  omega

theorem displacement_cast (ho : origin < 2 ^ 32) :
    (displacement destination origin : ℤ) = destination - origin + (2 ^ 32 : ℕ) := by
  unfold displacement
  omega

theorem displacement_inReach (ho : origin < 2 ^ 32) :
    InReach (displacement destination origin) ↔ InReach (destination - origin) := by
  unfold InReach
  rw [displacement_cast ho, Int.add_bmod_right]

theorem target_relativeBranch (hd : destination < 2 ^ 32) (ho : origin < 2 ^ 32) :
    (Branch.mk (Int.bmod (displacement destination origin) (2 ^ 26)) false false).target origin =
      destination ↔ InReach (destination - origin) := by
  have hland : ((origin : ℤ) + displacement destination origin) % 2 ^ 32 = destination := by
    rw [displacement_cast ho]
    omega
  rw [← displacement_inReach ho, ← target_iff_inReach origin, hland, target_relative]
  omega

theorem relativeBranch_lands_iff (hd : destination < 2 ^ 32) (ho : origin < 2 ^ 32)
    (hd4 : destination % 4 = 0) (ho4 : origin % 4 = 0) :
    relativeBranch destination origin < 2 ^ 32 ∧
      primaryOpcode (relativeBranch destination origin) = 18 ∧
      ∃ b, decode (relativeBranch destination origin) = some b ∧ b.aa = false ∧ b.lk = false ∧
        (b.target origin = destination ↔ InReach (destination - origin)) := by
  refine ⟨Nat.mod_lt _ (by decide), ?_, _, decode_relativeBranch hd4 ho4, rfl, rfl,
    target_relativeBranch hd ho⟩
  rw [relativeBranch_eq]
  exact primaryOpcode_relative _

theorem relativeBranch_lands_iff_lbp1 : ∃ b,
    decode (relativeBranch 0x01A00100 lbp1ResourceCheckOffset) = some b ∧
      b.target lbp1ResourceCheckOffset = 0x01A00100 := by
  obtain ⟨-, -, b, hb, -, -, hland⟩ := relativeBranch_lands_iff
    (show 0x01A00100 < 2 ^ 32 by decide) (show lbp1ResourceCheckOffset < 2 ^ 32 by decide)
    (by decide) (by decide)
  exact ⟨b, hb, hland.mpr (by decide)⟩

end Branch
end Patchwork.HookBranch
