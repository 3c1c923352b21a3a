import Patchwork.Numeral
import Patchwork.Printf

/-!
# The text of an integer conversion

`fmtint` lays a number out as padding, a sign, a prefix, zeros and digits. The
number can be read back from the text whatever the flags, the width and the
precision. The text fills the field but for one case: the separators of the
`'` flag are taken from the padding a second time where the precision asks for
zeros.
-/

namespace Patchwork.NumberText
open Printf Numeral

section Digits
variable {base size value n : ℕ} {caps : Bool} {ds : List UInt8}

theorem convert_of_lt (size : ℕ) (h : value < base) :
    convert base caps (size + 1) value = [digit caps value] := by
  rw [convert, Nat.mod_eq_of_lt h, Nat.div_eq_of_lt h, if_neg (by simp)]

theorem convert_step (size : ℕ) (hb : 0 < base) (h : base ≤ value) :
    convert base caps (size + 1) value =
      digit caps (value % base) :: convert base caps size (value / base) := by
  rw [convert, if_pos (Nat.div_pos h hb).ne']

theorem convert_eq (hb : 1 < base) (hsize : 0 < size) (h : value < base ^ size) :
    convert base caps size value = (numeral base value).map (digit caps) := by
  induction size generalizing value with
  | zero => omega
  | succ size ih =>
    by_cases hlt : value < base
    · rw [convert_of_lt size hlt, numeral_of_lt hlt, List.map_singleton]
    · have hge : base ≤ value := by omega
      have hq : value / base < base ^ size := by
        rwa [Nat.div_lt_iff_lt_mul (by omega), ← Nat.pow_succ]
      have hpos : 0 < size := by
        refine Nat.pos_of_ne_zero fun h0 => ?_
        subst h0
        simp only [Nat.zero_add, Nat.pow_one] at h
        omega
      rw [convert_step size (by omega) hge, ih hpos hq, numeral_step hb hge, List.map_cons]

theorem digit_eq : ∀ caps : Bool, ∀ n : Fin 16, digitValue (digit caps n) = n ∧
    digit caps n ≠ 32 ∧ digit caps n ≠ 44 ∧ digit caps n ≠ 88 ∧ digit caps n ≠ 120 ∧
    digit caps n ≠ 43 ∧ digit caps n ≠ 45 := by
  decide

theorem digitValue_digit (caps : Bool) (h : n < 16) : digitValue (digit caps n) = n :=
  (digit_eq caps ⟨n, h⟩).1

def marked (k : ℕ) (ds : List UInt8) : List UInt8 :=
  ((List.range ds.length).map fun pos =>
    (if 0 < pos + k ∧ (pos + k) % 3 = 0 then [44] else []) ++ [(ds[pos]?).getD 0]).flatten

theorem marked_cons (k : ℕ) (a : UInt8) (ds : List UInt8) : marked k (a :: ds) =
    (if 0 < k ∧ k % 3 = 0 then [44] else []) ++ a :: marked (k + 1) ds := by
  simp only [marked, List.length_cons, List.range_succ_eq_map, List.map_cons, List.map_map,
    List.flatten_cons, Function.comp_def, List.getElem?_cons_zero, List.getElem?_cons_succ,
    Nat.zero_add, Option.getD_some, List.append_assoc, List.singleton_append, Nat.succ_eq_add_one,
    Nat.add_right_comm _ 1 k, Nat.add_assoc]

theorem marked_add_three {k : ℕ} (h : 0 < k) (ds : List UInt8) :
    marked (k + 3) ds = marked k ds := by
  unfold marked
  refine congrArg List.flatten (List.map_congr_left fun pos _ => ?_)
  have hiff : (0 < pos + (k + 3) ∧ (pos + (k + 3)) % 3 = 0) ↔
      (0 < pos + k ∧ (pos + k) % 3 = 0) := by
    omega
  simp only [hiff]

theorem marked_zero (ds : List UInt8) : marked 0 ds = grouped 44 ds := by
  fun_induction grouped 44 ds with
  | case1 a b c d ds ih =>
    rw [← ih]
    simp [marked_cons, marked_add_three (show 0 < 1 by decide) ds]
  | case2 ds hshort =>
    rcases ds with _ | ⟨a, _ | ⟨b, _ | ⟨c, _ | ⟨d, ds⟩⟩⟩⟩
    · rfl
    · rfl
    · rfl
    · rfl
    · exact absurd rfl (hshort a b c d ds)

theorem digitsOut_grouped (h : 0 < n) (ds : List UInt8) :
    digitsOut ds n = (grouped 44 ds).reverse := by
  rw [← marked_zero, marked, List.reverse_flatten, List.map_map, ← List.map_reverse, digitsOut]
  refine congrArg List.flatten (List.map_congr_left fun pos _ => ?_)
  by_cases hcomma : 0 < pos ∧ pos % 3 = 0
  · simp [h, hcomma]
  · rw [if_neg (fun hc => hcomma hc.2)]
    simp [hcomma]

theorem digitsOut_plain (ds : List UInt8) : digitsOut ds 0 = ds.reverse := by
  have hds : (List.range ds.length).map (fun pos => (ds[pos]?).getD 0) = ds := by
    refine List.ext_getElem (by simp) fun i _ hi => ?_
    simp [hi]
  have hout : digitsOut ds 0 = (List.range ds.length).reverse.map fun pos => (ds[pos]?).getD 0 := by
    rw [List.map_eq_flatMap, List.flatMap_def]
    rfl
  rw [hout, List.map_reverse, hds]

theorem getnumsep_eq (n : ℕ) : getnumsep n = (n - 1) / 3 := by
  unfold getnumsep
  split_ifs <;> omega

theorem digitsOut_length (hn : n = 0 ∨ n = getnumsep ds.length) :
    (digitsOut ds n).length = ds.length + n := by
  rcases Nat.eq_zero_or_pos n with rfl | hpos
  · rw [digitsOut_plain, List.length_reverse, Nat.add_zero]
  · rw [digitsOut_grouped hpos, List.length_reverse, grouped_length, hn.resolve_left hpos.ne',
      getnumsep_eq]

theorem mem_digitsOut {c : UInt8} (h : c ∈ digitsOut ds n) : c = 44 ∨ c ∈ ds := by
  rcases Nat.eq_zero_or_pos n with rfl | hpos
  · rw [digitsOut_plain, List.mem_reverse] at h
    exact .inr h
  · rw [digitsOut_grouped hpos, List.mem_reverse] at h
    exact mem_grouped h

theorem digitsOut_filter (h : 44 ∉ ds) : (digitsOut ds n).filter (· ≠ 44) = ds.reverse := by
  rcases Nat.eq_zero_or_pos n with rfl | hpos
  · rw [digitsOut_plain]
    refine List.filter_eq_self.mpr fun c hc => ?_
    have hne : c ≠ 44 := fun he => h (he ▸ List.mem_reverse.mp hc)
    simpa using hne
  · rw [digitsOut_grouped hpos, List.filter_reverse, grouped_filter h]

end Digits

section Layout
variable {value : BitVec 64} {base n : ℕ} {width precision : ℤ} {flags : Flags}

theorem magnitude_lt (value : BitVec 64) (flags : Flags) : magnitude value flags < 2 ^ 64 := by
  unfold magnitude
  split_ifs
  · exact value.isLt
  · exact (-value).isLt

def number (value : BitVec 64) (flags : Flags) : ℤ :=
  if flags.isUnsigned then value.toNat else value.toInt

theorem magnitude_eq (value : BitVec 64) (flags : Flags) :
    magnitude value flags = (number value flags).natAbs := by
  have hlt := value.isLt
  unfold magnitude number
  by_cases hu : flags.isUnsigned
  · simp [hu]
  · simp only [hu, Bool.false_eq_true, false_or, if_false]
    rw [BitVec.toInt_eq_toNat_cond, BitVec.toNat_neg]
    split_ifs <;> omega

def digits (value : BitVec 64) (base : ℕ) (flags : Flags) : List UInt8 :=
  convert base flags.up maxConvertLength (magnitude value flags)

theorem digits_eq (hb : 8 ≤ base) : digits value base flags =
    (numeral base (magnitude value flags)).map (digit flags.up) := by
  refine convert_eq (by omega) (by decide) (Nat.lt_of_lt_of_le (magnitude_lt value flags) ?_)
  calc 2 ^ 64 ≤ 8 ^ maxConvertLength := by decide
    _ ≤ base ^ maxConvertLength := Nat.pow_le_pow_left hb _

theorem digits_length (hb : 8 ≤ base) :
    (digits value base flags).length = (numeral base (magnitude value flags)).length := by
  rw [digits_eq hb, List.length_map]

theorem mem_digits (hb : 8 ≤ base) (hb' : base ≤ 16) {c : UInt8}
    (h : c ∈ digits value base flags) :
    c ≠ 32 ∧ c ≠ 44 ∧ c ≠ 88 ∧ c ≠ 120 ∧ c ≠ 43 ∧ c ≠ 45 := by
  rw [digits_eq hb] at h
  obtain ⟨n, hn, rfl⟩ := List.mem_map.mp h
  exact (digit_eq flags.up ⟨n, Nat.lt_of_lt_of_le (numeral_lt (by omega) hn) hb'⟩).2

def hexPrefix (value : BitVec 64) (base : ℕ) (flags : Flags) : List UInt8 :=
  if (flags.num ∧ magnitude value flags ≠ 0) ∧ base = 16 then [48, if flags.up then 88 else 120]
  else []

def precision' (value : BitVec 64) (base : ℕ) (precision : ℤ) (flags : Flags) : ℤ :=
  if (flags.num ∧ magnitude value flags ≠ 0) ∧ base = 8 ∧
    precision ≤ (digits value base flags).length then (digits value base flags).length + 1
  else precision

def separators (value : BitVec 64) (base : ℕ) (flags : Flags) : ℕ :=
  if flags.quote then getnumsep (digits value base flags).length else 0

def zpadlen (value : BitVec 64) (base : ℕ) (precision : ℤ) (flags : Flags) : ℕ :=
  (precision' value base precision flags - (digits value base flags).length -
    separators value base flags).toNat

def spadlen (value : BitVec 64) (base : ℕ) (width precision : ℤ) (flags : Flags) : ℕ :=
  (int32 (width - separators value base flags -
    max (precision' value base precision flags) (digits value base flags).length -
    (signOf value flags).length - (hexPrefix value base flags).length)).toNat

theorem intText_layout (value : BitVec 64) (base : ℕ) (width precision : ℤ) (flags : Flags) :
    ∃ before zeros after, intText value base width precision flags =
      List.replicate before 32 ++ signOf value flags ++ hexPrefix value base flags ++
        List.replicate zeros 48 ++ digitsOut (digits value base flags)
          (separators value base flags) ++ List.replicate after 32 ∧
      before + zeros + after =
        zpadlen value base precision flags + spadlen value base width precision flags := by
  by_cases hminus : flags.minus
  · refine ⟨0, zpadlen value base precision flags, spadlen value base width precision flags, ?_,
      by omega⟩
    simp only [intText, hminus, not_true_eq_false, false_and, if_false, if_true]
    rfl
  · by_cases hzero : flags.zero ∧ precision = -1
    · refine ⟨0, zpadlen value base precision flags + spadlen value base width precision flags, 0,
        ?_, by omega⟩
      simp only [intText, hminus, hzero, not_true_eq_false, and_false, true_and, if_false]
      rfl
    · refine ⟨spadlen value base width precision flags, zpadlen value base precision flags, 0, ?_,
        by omega⟩
      simp only [intText, hminus, hzero, not_false_eq_true, and_false, if_false]
      rfl

theorem signOf_filter (value : BitVec 64) (flags : Flags) :
    (signOf value flags).filter (· ≠ 32) = [45] ∧ number value flags < 0 ∨
      (signOf value flags).filter (· ≠ 32) = [43] ∧ 0 ≤ number value flags ∨
      (signOf value flags).filter (· ≠ 32) = [] ∧ 0 ≤ number value flags := by
  unfold signOf number
  by_cases hu : flags.isUnsigned
  · simp [hu]
  · simp only [hu, Bool.false_eq_true, if_false]
    by_cases hneg : value.toInt < 0
    · exact .inl ⟨by simp [hneg], hneg⟩
    · have hpos : 0 ≤ value.toInt := by omega
      rw [if_neg hneg]
      split_ifs
      · exact .inr (.inl ⟨by decide, hpos⟩)
      · exact .inr (.inr ⟨by decide, hpos⟩)
      · exact .inr (.inr ⟨by decide, hpos⟩)

theorem readDigits_digitsOut (hb : 8 ≤ base) (hb' : base ≤ 16) (zeros n : ℕ) :
    readDigits base (List.replicate zeros 48 ++ digitsOut (digits value base flags) n) =
      magnitude value flags := by
  have h44 : 44 ∉ digits value base flags := fun h => (mem_digits hb hb' h).2.1 rfl
  have hzeros : (List.replicate zeros (48 : UInt8)).filter (· ≠ 44) = List.replicate zeros 48 := by
    simp
  have hvalues : ((numeral base (magnitude value flags)).map (digit flags.up)).map digitValue =
      numeral base (magnitude value flags) := by
    rw [List.map_map]
    refine (List.map_congr_left fun d hd => ?_).trans (List.map_id _)
    exact digitValue_digit _ (Nat.lt_of_lt_of_le (numeral_lt (by omega) hd) hb')
  rw [readDigits, List.filter_append, digitsOut_filter h44, hzeros, List.reverse_append,
    List.reverse_reverse, List.reverse_replicate, List.map_append, List.map_replicate,
    digits_eq hb, hvalues]
  exact (Nat.ofDigits_append_replicate_zero _).trans (ofDigits_numeral _ _)

theorem mem_hexPrefix {c : UInt8} (h : c ∈ hexPrefix value base flags) :
    c ≠ 32 ∧ c ≠ 43 ∧ c ≠ 45 := by
  unfold hexPrefix at h
  split_ifs at h
  iterate 2
    simp only [List.mem_cons, List.not_mem_nil, or_false] at h
    rcases h with rfl | rfl <;> decide
  cases h

theorem mem_zeros_digitsOut (hb : 8 ≤ base) (hb' : base ≤ 16) {zeros : ℕ} {c : UInt8}
    (h : c ∈ List.replicate zeros 48 ++ digitsOut (digits value base flags) n) :
    c ≠ 32 ∧ c ≠ 88 ∧ c ≠ 120 ∧ c ≠ 43 ∧ c ≠ 45 := by
  rcases List.mem_append.mp h with h | h
  · rw [List.eq_of_mem_replicate h]
    decide
  · rcases mem_digitsOut h with rfl | h
    · decide
    · obtain ⟨h32, -, hrest⟩ := mem_digits hb hb' h
      exact ⟨h32, hrest⟩

theorem withoutPrefix_hexPrefix (hb : 8 ≤ base) (hb' : base ≤ 16) (zeros n : ℕ) :
    withoutPrefix (hexPrefix value base flags ++
      (List.replicate zeros 48 ++ digitsOut (digits value base flags) n)) =
      List.replicate zeros 48 ++ digitsOut (digits value base flags) n := by
  unfold hexPrefix
  split_ifs with halt hup
  · exact if_pos (.inr rfl)
  · exact if_pos (.inl rfl)
  · refine if_neg fun h => ?_
    have hmem {c : UInt8} (hc : (List.replicate zeros 48 ++
        digitsOut (digits value base flags) n).take 2 = [48, c]) :
        c ∈ List.replicate zeros 48 ++ digitsOut (digits value base flags) n :=
      List.mem_of_mem_take (hc ▸ List.mem_cons_of_mem _ List.mem_cons_self)
    rcases h with h | h
    · exact (mem_zeros_digitsOut hb hb' (hmem h)).2.2.1 rfl
    · exact (mem_zeros_digitsOut hb hb' (hmem h)).2.1 rfl

theorem readNumber_intText (value : BitVec 64) (hb : 8 ≤ base) (hb' : base ≤ 16)
    (width precision : ℤ) (flags : Flags) :
    readNumber base (intText value base width precision flags) = number value flags := by
  obtain ⟨before, zeros, after, htext, -⟩ := intText_layout value base width precision flags
  let body := hexPrefix value base flags ++ (List.replicate zeros 48 ++
    digitsOut (digits value base flags) (separators value base flags))
  have hbody : ∀ c ∈ body, c ≠ 32 ∧ c ≠ 43 ∧ c ≠ 45 := fun c hc => by
    rcases List.mem_append.mp hc with hc | hc
    · exact mem_hexPrefix hc
    · obtain ⟨h32, -, -, h43, h45⟩ := mem_zeros_digitsOut hb hb' hc
      exact ⟨h32, h43, h45⟩
  have hblanks (k : ℕ) : (List.replicate k (32 : UInt8)).filter (· ≠ 32) = [] := by simp
  have hkept : body.filter (· ≠ 32) = body :=
    List.filter_eq_self.mpr fun c hc => by simpa using (hbody c hc).1
  have hfilter : (intText value base width precision flags).filter (· ≠ 32) =
      (signOf value flags).filter (· ≠ 32) ++ body := by
    rw [htext, List.append_assoc _ (List.replicate zeros 48), List.append_assoc _ (hexPrefix ..),
      List.filter_append, List.filter_append, List.filter_append, hblanks, hblanks, hkept,
      List.nil_append, List.append_nil]
  have hread : readDigits base (withoutPrefix body) = (number value flags).natAbs := by
    rw [withoutPrefix_hexPrefix hb hb', readDigits_digitsOut hb hb', magnitude_eq]
  have hhead {c : UInt8} (hc : c = 43 ∨ c = 45) : body.head? ≠ some c := fun h => by
    have := hbody c (List.mem_of_mem_head? h)
    tauto
  rw [readNumber, hfilter]
  rcases signOf_filter value flags with ⟨hsign, hneg⟩ | ⟨hsign, hpos⟩ | ⟨hsign, hpos⟩
  · rw [hsign]
    simp only [List.singleton_append, List.head?_cons, List.tail_cons, if_true, hread]
    omega
  · rw [hsign]
    simp only [List.singleton_append, List.head?_cons, List.tail_cons, if_true, hread]
    rw [if_neg (by decide)]
    omega
  · rw [hsign, List.nil_append, if_neg (hhead (.inr rfl)), if_neg (hhead (.inl rfl)), hread]
    omega

theorem separators_cases (value : BitVec 64) (base : ℕ) (flags : Flags) :
    separators value base flags = 0 ∨
      separators value base flags = getnumsep (digits value base flags).length := by
  unfold separators
  split_ifs
  · exact .inr rfl
  · exact .inl rfl

theorem intText_length (value : BitVec 64) (base : ℕ) (width precision : ℤ) (flags : Flags) :
    (intText value base width precision flags).length =
      zpadlen value base precision flags + spadlen value base width precision flags +
        (signOf value flags).length + (hexPrefix value base flags).length +
        (digits value base flags).length + separators value base flags := by
  obtain ⟨before, zeros, after, htext, hpads⟩ := intText_layout value base width precision flags
  rw [htext]
  simp only [List.length_append, List.length_replicate,
    digitsOut_length (separators_cases value base flags)]
  omega

/-- The columns of a number: its separators, its digits or those of the precision, its sign and
its prefix. -/
def columns (value : BitVec 64) (base : ℕ) (precision : ℤ) (flags : Flags) : ℤ :=
  separators value base flags +
    max (precision' value base precision flags) (digits value base flags).length +
    (signOf value flags).length + (hexPrefix value base flags).length

/-- The separators that take the place of zeros, which are counted twice. -/
def twice (value : BitVec 64) (base : ℕ) (precision : ℤ) (flags : Flags) : ℕ :=
  min (separators value base flags)
    (precision' value base precision flags - (digits value base flags).length).toNat

theorem spadlen_eq {value : BitVec 64} {base : ℕ} {width precision : ℤ} {flags : Flags}
    (hlow : 0 ≤ width) (hhigh : width ≤ intMax)
    (hfit : columns value base precision flags ≤ 2 ^ 31) :
    spadlen value base width precision flags =
      (width - columns value base precision flags).toNat := by
  unfold columns at hfit ⊢
  unfold intMax at hhigh
  rw [spadlen, int32_eq (by omega) (by omega)]
  omega

/-- The text is as wide as the field or as it is in a field of no width, but that separators
which take the place of zeros are missing from the width of the field. -/
theorem intText_fills (value : BitVec 64) (base : ℕ) (width precision : ℤ) (flags : Flags)
    (hlow : 0 ≤ width) (hhigh : width ≤ intMax)
    (hfit : columns value base precision flags ≤ 2 ^ 31) :
    (intText value base width precision flags).length =
      max (width - twice value base precision flags).toNat
        (intText value base 0 precision flags).length := by
  rw [intText_length, intText_length, spadlen_eq hlow hhigh hfit,
    spadlen_eq (Int.le_refl 0) (by decide) hfit]
  unfold columns zpadlen twice
  omega

theorem intText_fills_quote :
    (intText 1234567 10 20 9 { noFlags with quote := true }).length = 18 := by
  rw [intText_fills 1234567 10 20 9 { noFlags with quote := true } (by decide) (by decide)
    (by decide)]
  decide

end Layout
end Patchwork.NumberText
