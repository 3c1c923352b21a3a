import Mathlib.Data.Nat.Notation
import Patchwork.ByteMemory

/-!
# The module's ELF file

Its symbols and its `.text` section, read as `debug/elf` reads them, and `GetHook`,
which copies code up to the second instruction that passes its branch test.
-/

namespace Patchwork.Elf
open ByteMemory

structure Symbol where
  name : String
  value : UInt64
deriving DecidableEq

/-- `symbols` is `none` where `Symbols` fails, `text` where there is no such section. -/
structure ElfFile where
  symbols : Option (List Symbol)
  text : Option (List UInt8)

section Read
variable (text : List UInt8)

/-- The `n` bytes at `off` lie in the section. An offset from 2^63 on is a negative `int64`. -/
def InText (n off : ℕ) : Prop := off < 2 ^ 63 ∧ off < text.length ∧ off + n ≤ text.length

instance (n off : ℕ) : Decidable (InText text n off) := inferInstanceAs (Decidable (_ ∧ _ ∧ _))

def readAt (n off : ℕ) : Except String (List UInt8) :=
  if InText text n off then .ok ((text.drop off).take n) else .error "EOF"

theorem readAt_pos {n off : ℕ} (h : InText text n off) :
    readAt text n off = .ok ((text.drop off).take n) := if_pos h

theorem readAt_neg {n off : ℕ} (h : ¬ InText text n off) : readAt text n off = .error "EOF" :=
  if_neg h

theorem InText.length {n off : ℕ} (h : InText text n off) :
    ((text.drop off).take n).length = n := by
  have := h.2.2
  simp only [List.length_take, List.length_drop]
  omega

end Read

def baMask : UInt32 := 0x48000002

def isBranch (ins : List UInt8) : Bool :=
  UInt32.ofNat (ofBe32 ins) &&& baMask == baMask && ins.getD 3 0 &&& 1 != 1

def getHookFrom (text : List UInt8) (i : UInt64) (out : List UInt8) (baFound : Bool) :
    Except String (List UInt8) :=
  match _h : readAt text 4 i.toNat with
  | .error e => .error e
  | .ok ins =>
    if ins.length ≠ 4 then .error "unexpected read size %d"
    else if isBranch ins then
      if baFound then .ok (out ++ ins) else getHookFrom text (i + 4) (out ++ ins) true
    else getHookFrom text (i + 4) (out ++ ins) baFound
termination_by text.length - i.toNat
decreasing_by
  all_goals
    unfold readAt at _h
    split at _h
    · have := ‹InText text 4 i.toNat›
      unfold InText at this
      rw [UInt64.toNat_add]
      have : (4 : UInt64).toNat = 4 := rfl
      omega
    · cases _h

def getHook (text : List UInt8) (hookOffset : UInt64) : Except String (List UInt8) :=
  getHookFrom text hookOffset [] false

section Hook
variable {text : List UInt8} {i : UInt64} {out r : List UInt8} {baFound : Bool} {a n : ℕ}

def BranchAt (text : List UInt8) (a : ℕ) : Prop :=
  InText text 4 a ∧ isBranch ((text.drop a).take 4)

def Branches (text : List UInt8) : ℕ → ℕ → Prop
  | 0, _ => True
  | n + 1, a => ∃ k, BranchAt text (a + 4 * k) ∧ Branches text n (a + 4 * (k + 1))

theorem Branches.earlier {j : ℕ} (h : Branches text n (a + 4 * j)) : Branches text n a := by
  cases n with
  | zero => trivial
  | succ n =>
    obtain ⟨k, hk, hrest⟩ := h
    refine ⟨j + k, ?_, ?_⟩
    · rwa [show a + 4 * (j + k) = a + 4 * j + 4 * k by omega]
    · rwa [show a + 4 * (j + k + 1) = a + 4 * j + 4 * (k + 1) by omega]

theorem branches_of_branchAt (h : BranchAt text a) :
    Branches text (n + 1) a ↔ Branches text n (a + 4) := by
  refine ⟨fun ⟨k, _, hrest⟩ => ?_, fun hrest => ⟨0, h, hrest⟩⟩
  refine Branches.earlier (j := k) ?_
  rwa [show a + 4 + 4 * k = a + 4 * (k + 1) by omega]

theorem branches_of_not_branchAt (h : ¬ BranchAt text a) :
    Branches text (n + 1) a ↔ Branches text (n + 1) (a + 4) := by
  refine ⟨fun ⟨k, hk, hrest⟩ => ?_, fun hrest => Branches.earlier (j := 1) hrest⟩
  obtain ⟨k, rfl⟩ : ∃ j, k = j + 1 := ⟨k - 1, by
    rcases Nat.eq_zero_or_pos k with rfl | hpos
    · exact absurd hk h
    · omega⟩
  refine ⟨k, ?_, ?_⟩
  · rwa [show a + 4 + 4 * k = a + 4 * (k + 1) by omega]
  · rwa [show a + 4 + 4 * (k + 1) = a + 4 * (k + 1 + 1) by omega]

theorem not_branches_of_end (h : ¬ InText text 4 a) : ¬ Branches text (n + 1) a := by
  intro hbranches
  obtain ⟨k, ⟨hin, -⟩, -⟩ := hbranches
  unfold InText at *
  omega

theorem getHookFrom_eq (h : InText text 4 i.toNat) : getHookFrom text i out baFound =
    if isBranch ((text.drop i.toNat).take 4) ∧ baFound then
      .ok (out ++ (text.drop i.toNat).take 4)
    else getHookFrom text (i + 4) (out ++ (text.drop i.toNat).take 4)
      (isBranch ((text.drop i.toNat).take 4) || baFound) := by
  rw [getHookFrom, readAt_pos text h]
  dsimp only
  rw [if_neg (not_not_intro (InText.length text h))]
  by_cases hb : isBranch ((text.drop i.toNat).take 4) <;> cases baFound <;> simp [hb]

theorem getHookFrom_end (h : ¬ InText text 4 i.toNat) :
    getHookFrom text i out baFound = .error "EOF" := by
  rw [getHookFrom, readAt_neg text h]

theorem toNat_add_four (h : InText text 4 i.toNat) : (i + 4).toNat = i.toNat + 4 := by
  have hi := h.1
  rw [UInt64.toNat_add, show (4 : UInt64).toNat = 4 from rfl]
  omega

theorem hook_induction (text : List UInt8) {motive : UInt64 → List UInt8 → Bool → Prop}
    (stop : ∀ i out baFound, ¬ InText text 4 i.toNat → motive i out baFound)
    (step : ∀ i out baFound, InText text 4 i.toNat →
      (∀ out' baFound', motive (i + 4) out' baFound') → motive i out baFound) (i out baFound) :
    motive i out baFound := by
  induction hd : text.length - i.toNat using Nat.strongRecOn generalizing i out baFound with
  | _ d ih =>
    by_cases hin : InText text 4 i.toNat
    · refine step i out baFound hin fun out' baFound' => ih _ ?_ _ _ _ rfl
      rw [← hd, toNat_add_four hin]
      have := hin.2.1
      omega
    · exact stop i out baFound hin

theorem getHookFrom_ok_iff : (∃ r, getHookFrom text i out baFound = .ok r) ↔
    Branches text (if baFound then 1 else 2) i.toNat := by
  induction i, out, baFound using hook_induction text with
  | stop i out baFound hend =>
    rw [getHookFrom_end hend]
    refine iff_of_false (by simp) ?_
    cases baFound
    · exact not_branches_of_end hend
    · exact not_branches_of_end hend
  | step i out baFound hin ih =>
    rw [getHookFrom_eq hin]
    by_cases hb : isBranch ((text.drop i.toNat).take 4) = true
    · have hat : BranchAt text i.toNat := ⟨hin, hb⟩
      cases baFound with
      | false =>
        simp only [hb, Bool.false_eq_true, and_false, if_false, Bool.or_false]
        rw [ih, branches_of_branchAt hat, toNat_add_four hin]
        rfl
      | true =>
        simp only [hb, and_self, if_true]
        exact iff_of_true ⟨_, rfl⟩ ((branches_of_branchAt hat).mpr trivial)
    · have hat : ¬ BranchAt text i.toNat := fun h => hb h.2
      rw [Bool.not_eq_true] at hb
      simp only [hb, Bool.false_eq_true, false_and, if_false, Bool.false_or]
      rw [ih, toNat_add_four hin]
      cases baFound
      · exact (branches_of_not_branchAt hat).symm
      · exact (branches_of_not_branchAt hat).symm

theorem getHookFrom_words (h : getHookFrom text i out baFound = .ok r) :
    ∃ k, r = out ++ (text.drop i.toNat).take (4 * (k + 1)) ∧
      i.toNat + 4 * (k + 1) ≤ text.length := by
  induction i, out, baFound using hook_induction text with
  | stop i out baFound hend =>
    rw [getHookFrom_end hend] at h
    cases h
  | step i out baFound hin ih =>
    rw [getHookFrom_eq hin] at h
    split_ifs at h with hlast
    · cases h
      exact ⟨0, rfl, hin.2.2⟩
    · obtain ⟨k, rfl, hk⟩ := ih _ _ h
      rw [toNat_add_four hin] at hk ⊢
      refine ⟨k + 1, ?_, by omega⟩
      rw [List.append_assoc, ← List.drop_drop, ← List.take_add, Nat.mul_add 4 (k + 1), Nat.add_comm]

end Hook

theorem getHook_ok_iff {text : List UInt8} {hookOffset : UInt64} :
    (∃ r, getHook text hookOffset = .ok r) ↔ Branches text 2 hookOffset.toNat :=
  getHookFrom_ok_iff

theorem getHook_words {text : List UInt8} {hookOffset : UInt64} {r : List UInt8}
    (h : getHook text hookOffset = .ok r) : ∃ k, r.length = 4 * (k + 1) := by
  obtain ⟨k, rfl, hk⟩ := getHookFrom_words h
  refine ⟨k, ?_⟩
  simp only [List.nil_append, List.length_take, List.length_drop]
  omega

end Patchwork.Elf
