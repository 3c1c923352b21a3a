import Mathlib.Data.Nat.Digits.Lemmas
import Mathlib.Tactic.Common

/-!
# Numbers as text

The digits of a number in a base of at most sixteen, in groups of three, and a
reader of such texts that knows signs, prefixes, padding and separators.
-/

namespace Patchwork.Numeral

def numeral (base n : ℕ) : List ℕ := if n = 0 then [0] else Nat.digits base n

section Digits
variable {base n k d : ℕ}

theorem ofDigits_numeral (base n : ℕ) : Nat.ofDigits base (numeral base n) = n := by
  unfold numeral
  split_ifs with h
  · simp [h]
  · exact Nat.ofDigits_digits base n

theorem numeral_of_lt (h : n < base) : numeral base n = [n] := by
  unfold numeral
  split_ifs with h0
  · rw [h0]
  · exact Nat.digits_of_lt base n h0 h

theorem numeral_step (hb : 1 < base) (h : base ≤ n) :
    numeral base n = n % base :: numeral base (n / base) := by
  have hn : n ≠ 0 := by omega
  have hq : n / base ≠ 0 := (Nat.div_pos h (by omega)).ne'
  rw [numeral, numeral, if_neg hn, if_neg hq, Nat.digits_def' hb (by omega)]

theorem numeral_lt (hb : 1 < base) (h : d ∈ numeral base n) : d < base := by
  unfold numeral at h
  split_ifs at h with h0
  · rw [List.mem_singleton] at h
    omega
  · exact Nat.digits_lt_base hb h

theorem numeral_length_pos (base n : ℕ) : 0 < (numeral base n).length := by
  unfold numeral
  split_ifs with h0
  · simp
  · exact List.length_pos_iff.mpr (Nat.digits_ne_nil_iff_ne_zero.mpr h0)

theorem numeral_length_le (hb : 1 < base) (hk : 0 < k) (h : n < base ^ k) :
    (numeral base n).length ≤ k := by
  unfold numeral
  split_ifs with h0
  · exact Nat.succ_le_of_lt hk
  · exact (Nat.digits_length_le_iff hb n).mpr h

end Digits

section Groups
variable {α : Type} {sep : α}

def grouped (sep : α) : List α → List α
  | a :: b :: c :: d :: ds => a :: b :: c :: sep :: grouped sep (d :: ds)
  | ds => ds

theorem grouped_length (sep : α) (ds : List α) :
    (grouped sep ds).length = ds.length + (ds.length - 1) / 3 := by
  fun_induction grouped sep ds with
  | case1 a b c d ds ih =>
    simp only [List.length_cons] at ih ⊢
    omega
  | case2 ds hshort =>
    have : ds.length ≤ 3 := by
      rcases ds with _ | ⟨a, _ | ⟨b, _ | ⟨c, _ | ⟨d, ds⟩⟩⟩⟩
      iterate 4 simp
      exact absurd rfl (hshort a b c d ds)
    omega

theorem grouped_filter [DecidableEq α] {ds : List α} (h : sep ∉ ds) :
    (grouped sep ds).filter (· ≠ sep) = ds := by
  have hkeep {a : α} {xs : List α} (ha : sep ∉ a :: xs) : a ≠ sep :=
    fun he => ha (he ▸ List.mem_cons_self)
  fun_induction grouped sep ds with
  | case1 a b c d ds ih =>
    have hb := List.not_mem_of_not_mem_cons h
    have hc := List.not_mem_of_not_mem_cons hb
    have hd := List.not_mem_of_not_mem_cons hc
    simp only [List.filter_cons, hkeep h, hkeep hb, hkeep hc, ih hd, ne_eq, not_false_eq_true,
      not_true_eq_false, decide_true, decide_false, if_true, Bool.false_eq_true, if_false]
  | case2 ds hshort =>
    refine List.filter_eq_self.mpr fun a ha => ?_
    have hne : a ≠ sep := fun he => h (he ▸ ha)
    simpa using hne

theorem mem_grouped {a : α} {ds : List α} (h : a ∈ grouped sep ds) : a = sep ∨ a ∈ ds := by
  fun_induction grouped sep ds with
  | case1 b c d e ds ih =>
    simp only [List.mem_cons] at h ih ⊢
    tauto
  | case2 ds hshort => exact .inr h

end Groups

def digitValue (c : UInt8) : ℕ :=
  if 97 ≤ c then c.toNat - 87 else if 65 ≤ c then c.toNat - 55 else c.toNat - 48

def readDigits (base : ℕ) (t : List UInt8) : ℕ :=
  Nat.ofDigits base ((t.filter (· ≠ 44)).reverse.map digitValue)

def withoutPrefix (t : List UInt8) : List UInt8 :=
  if t.take 2 = [48, 120] ∨ t.take 2 = [48, 88] then t.drop 2 else t

/-- The number in a text of blanks, at most one sign, at most one prefix and digits. -/
def readNumber (base : ℕ) (t : List UInt8) : ℤ :=
  let t := t.filter (· ≠ 32)
  if t.head? = some 45 then -(readDigits base (withoutPrefix t.tail) : ℤ)
  else if t.head? = some 43 then readDigits base (withoutPrefix t.tail)
  else readDigits base (withoutPrefix t)

end Patchwork.Numeral
