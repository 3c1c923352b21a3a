import Mathlib.Data.Nat.Count
import Patchwork.MakePatches

/-!
# Where a hook ends

`GetHook` copies words up to the second one that passes its branch test. The test
looks at three bits of a word and not at its primary opcode, so that word need not
be a branch.
-/

namespace Patchwork.HookScan
open ByteMemory Elf MakePatches

/-- The `k`-th word from `a` on lies in the section and passes the branch test. -/
def Passes (text : List UInt8) (a k : ℕ) : Prop := BranchAt text (a + 4 * k)

instance (text : List UInt8) (a : ℕ) : DecidablePred (Passes text a) := fun k =>
  inferInstanceAs (Decidable (InText text 4 (a + 4 * k) ∧
    isBranch ((text.drop (a + 4 * k)).take 4) = true))

structure PassesAfter (text : List UInt8) (a n k : ℕ) : Prop where
  passes : Passes text a k
  before : Nat.count (Passes text a) k = n

section Scan
variable {text out r : List UInt8} {a j k n : ℕ} {i : UInt64} {baFound : Bool}

theorem Passes.inText (h : Passes text a k) (hj : j ≤ k) : InText text 4 (a + 4 * j) := by
  have hin := h.1
  unfold InText at *
  omega

theorem passes_succ : Passes text a (k + 1) ↔ Passes text (a + 4) k := by
  rw [Passes, Passes, show a + 4 * (k + 1) = a + 4 + 4 * k by omega]

theorem count_passes_succ : Nat.count (Passes text a) (k + 1) =
    Nat.count (Passes text (a + 4)) k + if Passes text a 0 then 1 else 0 := by
  rw [Nat.count_succ']
  congr 1
  exact List.countP_congr fun j _ => by simp only [decide_eq_true_eq, passes_succ]

theorem passesAfter_zero : PassesAfter text a n 0 ↔ Passes text a 0 ∧ n = 0 :=
  ⟨fun h => ⟨h.passes, h.before.symm⟩, fun h => ⟨h.1, h.2.symm⟩⟩

theorem passesAfter_succ : PassesAfter text a (n + if Passes text a 0 then 1 else 0) (k + 1) ↔
    PassesAfter text (a + 4) n k := by
  constructor
  · intro h
    refine ⟨passes_succ.mp h.passes, ?_⟩
    have hbefore := h.before
    rw [count_passes_succ] at hbefore
    omega
  · intro h
    exact ⟨passes_succ.mpr h.passes, by rw [count_passes_succ, h.before]⟩

theorem getHookFrom_eq_ok_iff : getHookFrom text i out baFound = .ok r ↔
    ∃ k, PassesAfter text i.toNat (if baFound then 0 else 1) k ∧
      r = out ++ (text.drop i.toNat).take (4 * (k + 1)) := by
  induction i, out, baFound using hook_induction text with
  | stop i out baFound hend =>
    rw [getHookFrom_end hend]
    refine iff_of_false (by simp) ?_
    intro hpasses
    obtain ⟨k, hk, -⟩ := hpasses
    exact hend (hk.passes.inText (Nat.zero_le k))
  | step i out baFound hin ih =>
    have hsplit (k : ℕ) : (text.drop i.toNat).take (4 * (k + 1 + 1)) =
        (text.drop i.toNat).take 4 ++ (text.drop (i + 4).toNat).take (4 * (k + 1)) := by
      rw [toNat_add_four hin, ← List.drop_drop, ← List.take_add, Nat.mul_add 4 (k + 1),
        Nat.add_comm (4 * (k + 1))]
    rw [getHookFrom_eq hin, ← Nat.or_exists_add_one]
    by_cases hb : isBranch ((text.drop i.toNat).take 4) = true
    · have hpasses : Passes text i.toNat 0 := ⟨hin, hb⟩
      cases baFound with
      | true =>
        simp only [hb, and_self, if_true, Except.ok.injEq]
        constructor
        · rintro rfl
          exact .inl ⟨passesAfter_zero.mpr ⟨hpasses, rfl⟩, rfl⟩
        · intro h
          obtain ⟨-, rfl⟩ | ⟨k, hk, -⟩ := h
          · rfl
          · -- no later word is the first that passes
            have hbefore := hk.before
            rw [count_passes_succ, if_pos hpasses] at hbefore
            omega
      | false =>
        simp only [hb, Bool.false_eq_true, and_false, if_false, Bool.or_false]
        rw [ih, or_iff_right fun h => by simpa using (passesAfter_zero.mp h.1).2]
        refine exists_congr fun k => ?_
        have hnext : PassesAfter text i.toNat (0 + if Passes text i.toNat 0 then 1 else 0) (k + 1) ↔
            PassesAfter text (i.toNat + 4) 0 k := passesAfter_succ
        rw [if_pos hpasses] at hnext
        rw [hnext, toNat_add_four hin, ← toNat_add_four hin, hsplit, List.append_assoc]
        rfl
    · have hpasses : ¬ Passes text i.toNat 0 := fun h => hb h.2
      rw [Bool.not_eq_true] at hb
      simp only [hb, Bool.false_eq_true, false_and, if_false, Bool.false_or]
      rw [ih, or_iff_right fun h => hpasses (passesAfter_zero.mp h.1).1]
      refine exists_congr fun k => ?_
      have hnext : PassesAfter text i.toNat
          ((if baFound then 0 else 1) + if Passes text i.toNat 0 then 1 else 0) (k + 1) ↔
            PassesAfter text (i.toNat + 4) (if baFound then 0 else 1) k := passesAfter_succ
      rw [if_neg hpasses, Nat.add_zero] at hnext
      rw [hnext, toNat_add_four hin, ← toNat_add_four hin, hsplit, List.append_assoc]

theorem getHook_eq_ok_iff {hookOffset : UInt64} : getHook text hookOffset = .ok r ↔
    ∃ k, PassesAfter text hookOffset.toNat 1 k ∧
      r = (text.drop hookOffset.toNat).take (4 * (k + 1)) :=
  getHookFrom_eq_ok_iff

def TwoPass (text : List UInt8) (a : ℕ) : Prop := ∃ j k, j < k ∧ Passes text a j ∧ Passes text a k

theorem twoPass_iff : TwoPass text a ↔ ∃ k, PassesAfter text a 1 k := by
  constructor
  · intro h
    obtain ⟨j, k, hjk, hj, hk⟩ := h
    have htwo : ∃ m, 2 ≤ Nat.count (Passes text a) m := by
      have hpos : Nat.count (Passes text a) k ≠ 0 := Nat.count_ne_iff_exists.mpr ⟨j, hjk, hj⟩
      refine ⟨k + 1, ?_⟩
      rw [Nat.count_succ, if_pos hk]
      omega
    -- the word before the first place with two behind it is the second
    obtain ⟨m, hm⟩ : ∃ m, Nat.find htwo = m + 1 := Nat.exists_eq_succ_of_ne_zero fun h0 => by
      have hspec := Nat.find_spec htwo
      rw [h0, Nat.count_zero] at hspec
      omega
    have hspec := Nat.find_spec htwo
    have hbefore := Nat.find_min htwo (show m < Nat.find htwo by omega)
    rw [hm, Nat.count_succ] at hspec
    split_ifs at hspec with hpasses
    · exact ⟨m, hpasses, by omega⟩
    · omega
  · intro h
    obtain ⟨k, hk, hone⟩ := h
    obtain ⟨j, hjk, hj⟩ :=
      Nat.count_ne_iff_exists.mp (show Nat.count (Passes text a) k ≠ 0 by omega)
    exact ⟨j, k, hjk, hj, hk⟩

theorem makeCodePatch_words {o : UInt32} {code : List UInt8} (h : code.length = 4 * (k + 1)) :
    ∃ entries, makeCodePatch o code = .ok (⟨"calloc", o, toString (k + 1)⟩ :: entries) ∧
      entries.length = k + 1 := by
  refine ⟨(List.range (k + 1)).map fun i => ⟨"be32", 0, hexValue (word code i)⟩, ?_, by simp⟩
  have hwords : code.length / 4 = k + 1 := by omega
  rw [makeCodePatch, if_neg (by omega), codeEntries, hwords]

end Scan

/-- `GetHook` copies up to the end of the second word that passes, and `MakeCodePatch` announces
as many words as that is; without two such words it fails. -/
theorem getHook_spec (text : List UInt8) (hookOffset : UInt64) (o : UInt32) :
    (TwoPass text hookOffset.toNat → ∃ k r, PassesAfter text hookOffset.toNat 1 k ∧
      getHook text hookOffset = .ok r ∧ r = (text.drop hookOffset.toNat).take (4 * (k + 1)) ∧
      r.length = 4 * (k + 1) ∧
      ∃ entries, makeCodePatch o r = .ok (⟨"calloc", o, toString (k + 1)⟩ :: entries) ∧
        entries.length = k + 1) ∧
    (¬ TwoPass text hookOffset.toNat → ∃ e, getHook text hookOffset = .error e) := by
  constructor
  · intro h
    obtain ⟨k, hk⟩ := twoPass_iff.mp h
    have hlength : ((text.drop hookOffset.toNat).take (4 * (k + 1))).length = 4 * (k + 1) := by
      have hin := (hk.passes.inText (Nat.le_refl k)).2.2
      rw [List.length_take, List.length_drop]
      omega
    exact ⟨k, _, hk, getHook_eq_ok_iff.mpr ⟨k, hk, rfl⟩, rfl, hlength, makeCodePatch_words hlength⟩
  · intro h
    cases hr : getHook text hookOffset with
    | error e => exact ⟨e, rfl⟩
    | ok r =>
      obtain ⟨k, hk, -⟩ := getHook_eq_ok_iff.mp hr
      exact absurd (twoPass_iff.mpr ⟨k, hk⟩) h

def words (code : List UInt8) : List ℕ :=
  (List.range (code.length / 4)).map fun i => ofBe32 (word code i)

def primaryOpcode (w : ℕ) : ℕ := w / 2 ^ 26

def IsAbsoluteBranch (w : ℕ) : Prop := primaryOpcode w = 18 ∧ w / 2 % 2 = 1 ∧ w % 2 = 0

instance : DecidablePred IsAbsoluteBranch := fun w =>
  inferInstanceAs (Decidable (primaryOpcode w = 18 ∧ w / 2 % 2 = 1 ∧ w % 2 = 0))

/-- The code holds two absolute branches, and the second is its last word. -/
structure EndsAtBranch (code : List UInt8) : Prop where
  two : (words code).countP (fun w => IsAbsoluteBranch w) = 2
  last : ∃ w, (words code).getLast? = some w ∧ IsAbsoluteBranch w

theorem baMask_testBit {i : ℕ} : baMask.toNat.testBit i ↔ i = 1 ∨ i = 27 ∨ i = 30 := by
  by_cases hi : i < 32
  · revert i
    decide
  · have hbig : baMask.toNat < 2 ^ i :=
      Nat.lt_of_lt_of_le baMask.toNat_lt (Nat.pow_le_pow_right (by decide) (by omega))
    rw [Nat.testBit_lt_two_pow hbig]
    exact iff_of_false (by simp) (by omega)

theorem and_baMask_iff {w : ℕ} : w &&& baMask.toNat = baMask.toNat ↔
    w / 2 % 2 = 1 ∧ w / 2 ^ 27 % 2 = 1 ∧ w / 2 ^ 30 % 2 = 1 := by
  have hbit (i : ℕ) : w.testBit i ↔ w / 2 ^ i % 2 = 1 := by
    rw [Nat.testBit_eq_decide_div_mod_eq, decide_eq_true_eq]
  have hbits : w &&& baMask.toNat = baMask.toNat ↔ ∀ i, baMask.toNat.testBit i → w.testBit i := by
    constructor
    · intro h i hi
      rw [← h, Nat.testBit_and, Bool.and_eq_true] at hi
      exact hi.1
    · intro h
      refine Nat.eq_of_testBit_eq fun i => ?_
      rw [Nat.testBit_and]
      cases hi : baMask.toNat.testBit i with
      | true => rw [h i hi, Bool.and_true]
      | false => rw [Bool.and_false]
  rw [hbits]
  simp only [baMask_testBit, forall_eq_or_imp, forall_eq, hbit, Nat.pow_one]

theorem ofBe32_lt (bs : List UInt8) : ofBe32 bs < 2 ^ 32 := by
  unfold ofBe32
  split
  next b₃ b₂ b₁ b₀ =>
    have := b₃.toNat_lt
    have := b₂.toNat_lt
    have := b₁.toNat_lt
    have := b₀.toNat_lt
    omega
  next => decide

theorem isBranch_iff {ins : List UInt8} (h : ins.length = 4) : isBranch ins = true ↔
    ofBe32 ins &&& baMask.toNat = baMask.toNat ∧ ofBe32 ins % 2 = 0 := by
  have hmask : UInt32.ofNat (ofBe32 ins) &&& baMask = baMask ↔
      ofBe32 ins &&& baMask.toNat = baMask.toNat := by
    rw [← UInt32.toNat_inj, UInt32.toNat_and, UInt32.toNat_ofNat_of_lt' (ofBe32_lt ins)]
  obtain ⟨b₃, b₂, b₁, b₀, rfl⟩ := List.length_eq_four.mp h
  have hlink : b₀ &&& 1 ≠ 1 ↔ ofBe32 [b₃, b₂, b₁, b₀] % 2 = 0 := by
    rw [Ne, ← UInt8.toNat_inj, UInt8.toNat_and, show (1 : UInt8).toNat = 1 from rfl,
      Nat.and_one_is_mod, ofBe32]
    omega
  rw [isBranch, Bool.and_eq_true, beq_iff_eq, bne_iff_ne, hmask]
  exact and_congr_right' hlink

theorem isAbsoluteBranch_iff {ins : List UInt8} (h : ins.length = 4) :
    IsAbsoluteBranch (ofBe32 ins) ↔ isBranch ins = true ∧ primaryOpcode (ofBe32 ins) = 18 := by
  rw [isBranch_iff h, and_baMask_iff, IsAbsoluteBranch, primaryOpcode]
  omega

section Branches
variable {text : List UInt8} {a k : ℕ} {hookOffset : UInt64}

def wordAt (text : List UInt8) (b : ℕ) : ℕ := ofBe32 ((text.drop b).take 4)

theorem isAbsoluteBranch_wordAt (h : InText text 4 (a + 4 * k)) :
    IsAbsoluteBranch (wordAt text (a + 4 * k)) ↔
      Passes text a k ∧ primaryOpcode (wordAt text (a + 4 * k)) = 18 :=
  (isAbsoluteBranch_iff (InText.length text h)).trans
    (and_congr_left' (and_iff_right h).symm)

theorem words_take (h : a + 4 * (k + 1) ≤ text.length) :
    words ((text.drop a).take (4 * (k + 1))) =
      (List.range (k + 1)).map fun i => wordAt text (a + 4 * i) := by
  have hlength : ((text.drop a).take (4 * (k + 1))).length / 4 = k + 1 := by
    rw [List.length_take, List.length_drop]
    omega
  rw [words, hlength]
  refine List.map_congr_left fun i hi => ?_
  have hlt := List.mem_range.mp hi
  rw [word, wordAt, List.drop_take, List.take_take, List.drop_drop, Nat.min_eq_left (by omega)]

theorem endsAtBranch_take (h : a + 4 * (k + 1) ≤ text.length) :
    EndsAtBranch ((text.drop a).take (4 * (k + 1))) ↔
      Nat.count (fun j => IsAbsoluteBranch (wordAt text (a + 4 * j))) (k + 1) = 2 ∧
        IsAbsoluteBranch (wordAt text (a + 4 * k)) := by
  have hwords := words_take h
  have hlast : (words ((text.drop a).take (4 * (k + 1)))).getLast? =
      some (wordAt text (a + 4 * k)) := by
    rw [hwords, List.range_succ, List.map_append, List.map_singleton, List.getLast?_concat]
  constructor
  · intro hends
    obtain ⟨w, hw, habs⟩ := hends.last
    obtain rfl := Option.some.inj (hlast.symm.trans hw)
    refine ⟨?_, habs⟩
    have htwo := hends.two
    rwa [hwords, List.countP_map] at htwo
  · intro hends
    exact ⟨by rw [hwords, List.countP_map]; exact hends.1, _, hlast, hends.2⟩

theorem PassesAfter.earlier_unique (hk : PassesAfter text a 1 k) {i j : ℕ} (hi : i < k)
    (hj : j < k) (hpi : Passes text a i) (hpj : Passes text a j) : i = j := by
  have hcount {l : ℕ} (hl : l < k) (hp : Passes text a l) : Nat.count (Passes text a) l = 0 := by
    have := Nat.count_strict_mono hp hl
    rw [hk.before] at this
    omega
  exact Nat.count_injective hpi hpj ((hcount hi hpi).trans (hcount hj hpj).symm)

theorem endsAtBranch_iff (hk : PassesAfter text a 1 k) :
    EndsAtBranch ((text.drop a).take (4 * (k + 1))) ↔
      ∀ j ≤ k, Passes text a j → primaryOpcode (wordAt text (a + 4 * j)) = 18 := by
  have habsolute {j : ℕ} (hj : j ≤ k) : IsAbsoluteBranch (wordAt text (a + 4 * j)) ↔
      Passes text a j ∧ primaryOpcode (wordAt text (a + 4 * j)) = 18 :=
    isAbsoluteBranch_wordAt (hk.passes.inText hj)
  have htwo : Nat.count (Passes text a) (k + 1) = 2 := by
    rw [Nat.count_succ, if_pos hk.passes, hk.before]
  rw [endsAtBranch_take (hk.passes.inText (Nat.le_refl k)).2.2]
  constructor
  · intro h j hj hpasses
    rcases Nat.lt_or_eq_of_le hj with hlt | rfl
    · -- the one word before the last that is a branch passes too, and only one does
      have hone : Nat.count (fun j => IsAbsoluteBranch (wordAt text (a + 4 * j))) k ≠ 0 := by
        have := h.1
        rw [Nat.count_succ, if_pos h.2] at this
        omega
      obtain ⟨i, hi, habs⟩ := Nat.count_ne_iff_exists.mp hone
      obtain ⟨hpasses', hopcode⟩ := (habsolute (Nat.le_of_lt hi)).mp habs
      obtain rfl := hk.earlier_unique hlt hi hpasses hpasses'
      exact hopcode
    · exact ((habsolute (Nat.le_refl j)).mp h.2).2
  · intro h
    refine ⟨?_, (habsolute (Nat.le_refl k)).mpr ⟨hk.passes, h k (Nat.le_refl k) hk.passes⟩⟩
    rw [← htwo]
    refine List.countP_congr fun j hj => ?_
    have hle : j ≤ k := Nat.lt_succ_iff.mp (List.mem_range.mp hj)
    simp only [decide_eq_true_eq]
    exact (habsolute hle).trans (and_iff_left_of_imp (h j hle))

/-- What `GetHook` returns ends at the second branch exactly where the words that pass its test,
up to the second of them, have the opcode of a branch. -/
theorem getHook_endsAtBranch_iff (text : List UInt8) (hookOffset : UInt64) :
    (∀ r, getHook text hookOffset = .ok r → EndsAtBranch r) ↔
      ∀ k, PassesAfter text hookOffset.toNat 1 k → ∀ j ≤ k, Passes text hookOffset.toNat j →
        primaryOpcode (wordAt text (hookOffset.toNat + 4 * j)) = 18 := by
  simp only [getHook_eq_ok_iff]
  constructor
  · intro h k hk
    exact (endsAtBranch_iff hk).mp (h _ ⟨k, hk, rfl⟩)
  · intro h r hr
    obtain ⟨k, hk, rfl⟩ := hr
    exact (endsAtBranch_iff hk).mpr (h k hk)

end Branches

-- A hook that saves the link register first.
def savingHook : List UInt8 :=
  [0x7c, 0x08, 0x02, 0xa6, 0x48, 0x00, 0x10, 0x02, 0x48, 0x00, 0x20, 0x02]

theorem getHook_not_endsAtBranch : ¬ ∀ (text : List UInt8) (hookOffset : UInt64) (r : List UInt8),
    getHook text hookOffset = .ok r → EndsAtBranch r := by
  intro h
  have hcut : getHook savingHook 0 = .ok (savingHook.take 8) :=
    getHook_eq_ok_iff.mpr ⟨1, ⟨by decide, by decide⟩, by decide⟩
  exact absurd (h _ _ _ hcut).two (by decide)

end Patchwork.HookScan
