import Mathlib.Data.Bool.AllAny
import Mathlib.Tactic.Ring
import Patchwork.Yaml

/-!
# Conversions

`Quote` and the check that `ParseFloat` makes of a text. What `Quote` writes for a
text is read back by double quotes, and a text that `ParseFloat` takes is a plain
scalar.
-/

namespace Patchwork.Strconv
open Hex Yaml

/-- `printable` is what the tables of `IsPrint` say of the characters that are not ASCII. -/
def isPrint (printable : Char → Bool) (c : Char) : Bool :=
  if c.toNat < 0x80 then 0x20 ≤ c.toNat && c.toNat < 0x7f else printable c

def hexDigits : ℕ → ℕ → List Char
  | 0, _ => []
  | k + 1, n => Nat.digitChar (n / 16 ^ k % 16) :: hexDigits k n

def escapeLetter (c : Char) : Option Char :=
  match c.toNat with
  | 7 => some 'a'
  | 8 => some 'b'
  | 12 => some 'f'
  | 10 => some 'n'
  | 13 => some 'r'
  | 9 => some 't'
  | 11 => some 'v'
  | _ => none

def numericEscape (c : Char) : List Char :=
  if c.toNat < 0x20 ∨ c.toNat = 0x7f then 'x' :: hexDigits 2 c.toNat
  else if c.toNat < 0x10000 then 'u' :: hexDigits 4 c.toNat
  else 'U' :: hexDigits 8 c.toNat

def escapedRune (printable : Char → Bool) (c : Char) : List Char :=
  if c = quoteMark ∨ c = backslash then [backslash, c]
  else if isPrint printable c then [c]
  else backslash :: match escapeLetter c with
    | some letter => [letter]
    | none => numericEscape c

def quote (printable : Char → Bool) (s : List Char) : List Char :=
  quoteMark :: s.flatMap (escapedRune printable) ++ [quoteMark]

section Quote
variable {printable : Char → Bool} {c : Char} {rest : List Char}

theorem doubleQuoted_hexDigits (n value : ℕ) {k : ℕ}
    (hvalid : (16 ^ (k + 1) * value + n % 16 ^ (k + 1)).isValidChar) :
    doubleQuoted (.hex (k + 1) value) (hexDigits (k + 1) n ++ rest) =
      push (Char.ofNat (16 ^ (k + 1) * value + n % 16 ^ (k + 1))) (doubleQuoted .text rest) := by
  induction k generalizing value with
  | zero =>
    have hd : digitValue (Nat.digitChar (n % 16)) = some (n % 16) :=
      digitValue_digitChar (Nat.mod_lt _ (by decide))
    simp only [Nat.zero_add, Nat.pow_one, hexDigits, Nat.pow_zero, Nat.div_one] at hvalid ⊢
    simp [doubleQuoted, hd, hvalid]
  | succ k ih =>
    have hd : digitValue (Nat.digitChar (n / 16 ^ (k + 1) % 16)) =
        some (n / 16 ^ (k + 1) % 16) := digitValue_digitChar (Nat.mod_lt _ (by decide))
    have hsum : 16 ^ (k + 1 + 1) * value + n % 16 ^ (k + 1 + 1) =
        16 ^ (k + 1) * (16 * value + n / 16 ^ (k + 1) % 16) + n % 16 ^ (k + 1) := by
      rw [Nat.mod_pow_succ, Nat.pow_succ 16 (k + 1)]
      ring
    rw [hsum] at hvalid ⊢
    rw [← ih _ hvalid, hexDigits]
    simp only [List.cons_append, doubleQuoted, hd, show 1 < k + 1 + 1 by omega, if_true,
      Nat.add_sub_cancel]

theorem doubleQuoted_backslash (s : List Char) :
    doubleQuoted .text (backslash :: s) = doubleQuoted .escape s := by
  rw [doubleQuoted, if_neg (show backslash ≠ quoteMark by decide), if_pos rfl]

theorem doubleQuoted_escape {letter : Char} (h : escapeChar letter = some c) :
    doubleQuoted .text (backslash :: letter :: rest) = push c (doubleQuoted .text rest) := by
  rw [doubleQuoted_backslash]
  simp only [doubleQuoted, h]

theorem doubleQuoted_numeric (letter : Char) {k : ℕ} (hletter : escapeChar letter = none)
    (hdigits : escapeDigits letter = some (k + 1)) (hlt : c.toNat < 16 ^ (k + 1)) :
    doubleQuoted .text (backslash :: letter :: (hexDigits (k + 1) c.toNat ++ rest)) =
      push c (doubleQuoted .text rest) := by
  have hmod : 16 ^ (k + 1) * 0 + c.toNat % 16 ^ (k + 1) = c.toNat := by
    rw [Nat.mod_eq_of_lt hlt]
    omega
  have hvalid : (16 ^ (k + 1) * 0 + c.toNat % 16 ^ (k + 1)).isValidChar := by
    rw [hmod]
    exact c.valid
  rw [doubleQuoted_backslash]
  simp only [doubleQuoted, hletter, hdigits]
  rw [doubleQuoted_hexDigits c.toNat 0 hvalid, hmod, Char.ofNat_toNat]

theorem isJson_of_isPrint (h : isPrint printable c = true) : isJson c = true := by
  have hlow : 0x20 ≤ c.toNat := by
    unfold isPrint at h
    split_ifs at h with hascii
    · simp only [Bool.and_eq_true, decide_eq_true_eq] at h
      exact h.1
    · omega
  simp [isJson, hlow]

theorem escapeChar_escapeLetter {letter : Char} (h : escapeLetter c = some letter) :
    escapeChar letter = some c := by
  unfold escapeLetter at h
  split at h <;> cases h
  all_goals
    rename_i hc
    rw [← Char.ofNat_toNat c, hc]
    decide

theorem doubleQuoted_numericEscape :
    doubleQuoted .text (backslash :: (numericEscape c ++ rest)) =
      push c (doubleQuoted .text rest) := by
  have hlt : c.toNat < 16 ^ 8 := by
    have := c.valid
    simp only [UInt32.isValidChar, Nat.isValidChar] at this
    simp only [Char.toNat]
    omega
  unfold numericEscape
  split_ifs with hx hu
  · exact doubleQuoted_numeric 'x' (k := 1) (by decide) (by decide) (by omega)
  · exact doubleQuoted_numeric 'u' (k := 3) (by decide) (by decide) (by omega)
  · exact doubleQuoted_numeric 'U' (k := 7) (by decide) (by decide) hlt

theorem doubleQuoted_escapedRune :
    doubleQuoted .text (escapedRune printable c ++ rest) = push c (doubleQuoted .text rest) := by
  unfold escapedRune
  split_ifs with hspecial hprint
  · refine doubleQuoted_escape ?_
    rcases hspecial with rfl | rfl <;> decide
  · obtain ⟨hq, hb⟩ := not_or.mp hspecial
    rw [List.singleton_append, doubleQuoted, if_neg hq, if_neg hb,
      if_pos (isJson_of_isPrint hprint)]
  · cases hletter : escapeLetter c with
    | some letter => exact doubleQuoted_escape (escapeChar_escapeLetter hletter)
    | none => exact doubleQuoted_numericEscape

theorem doubleQuoted_quoted (s : List Char) :
    doubleQuoted .text (s.flatMap (escapedRune printable) ++ quoteMark :: rest) =
      some (s, rest) := by
  induction s with
  | nil => rw [List.flatMap_nil, List.nil_append, doubleQuoted, if_pos rfl]
  | cons c s ih =>
    rw [List.flatMap_cons, List.append_assoc, doubleQuoted_escapedRune, ih]
    rfl

theorem spells_quote (s : List Char) : Spells (quote printable s) ⟨true, s⟩ := by
  refine ⟨⟨quoteMark, _, rfl, by decide, by decide⟩, fun rest _ => ?_⟩
  have hread : doubleQuoted .text (s.flatMap (escapedRune printable) ++ quoteMark :: rest) =
      some (s, rest) := doubleQuoted_quoted s
  simp only [quote, List.cons_append, List.append_assoc, List.nil_append, scalar, if_true, hread,
    Option.map_some]

end Quote

def unsigned : List Char → List Char
  | [] => []
  | c :: cs => if c = '+' ∨ c = '-' then cs else c :: cs

def isSpecial (s : List Char) : Bool :=
  let s := s.map Char.toLower
  s == "nan".toList || unsigned s == "inf".toList || unsigned s == "infinity".toList

def digitOf (hex : Bool) (c : Char) : Option ℕ :=
  (digitValue c).filter fun d => hex || d < 10

def isDigitOf (hex : Bool) (c : Char) : Bool := (digitOf hex c).isSome

def mantissa (hex : Bool) : Bool → List Char → List Char
  | _, [] => []
  | sawdot, c :: cs =>
    if c = '_' ∨ isDigitOf hex c = true then c :: mantissa hex sawdot cs
    else if c = '.' ∧ sawdot = false then c :: mantissa hex true cs
    else []

/-- The digits of an exponent; the number stays as it is from 10000 on. -/
def exponentValue (ds : List Char) : ℕ :=
  ds.foldl (fun e c => match digitOf false c with
    | some d => if e < 10000 then 10 * e + d else e
    | none => e) 0

def exponent (hex : Bool) : List Char → Option ℤ
  | [] => if hex then none else some 0
  | c :: cs =>
    let ds := unsigned cs
    if c.toLower = (if hex then 'p' else 'e') ∧ (ds.head?.map (isDigitOf false)).getD false = true ∧
        ds.all (fun d => d == '_' || isDigitOf false d) = true then
      some (if cs.head? = some '-' then -exponentValue ds else exponentValue ds)
    else none

def underscoreRun (hex : Bool) : Char → List Char → Bool
  | saw, [] => saw != '_'
  | saw, c :: cs =>
    if isDigitOf hex c then underscoreRun hex '0' cs
    else if c = '_' then saw == '0' && underscoreRun hex '_' cs
    else saw != '_' && underscoreRun hex '!' cs

def hasPrefix (letter : Char) (s : List Char) : Bool :=
  s.head? == some '0' && (s.tail.head?.map Char.toLower) == some letter

def underscoreOk (s : List Char) : Bool :=
  let s := unsigned s
  if hasPrefix 'x' s then underscoreRun true '0' (s.drop 2)
  else if hasPrefix 'b' s || hasPrefix 'o' s then underscoreRun false '0' (s.drop 2)
  else underscoreRun false '^' s

/-- From here on a magnitude is rounded to infinity. -/
def floatLimit : ℕ := 2 ^ 1024 - 2 ^ 970

def inRange (hex : Bool) (mant : List Char) (e : ℤ) : Bool :=
  let digits := mant.filterMap (digitOf hex)
  let fraction := ((mant.dropWhile (· ≠ '.')).filterMap (digitOf hex)).length
  let n := digits.foldl (fun n d => (if hex then 16 else 10) * n + d) 0
  let base := if hex then 2 else 10
  let x : ℤ := e - if hex then 4 * fraction else fraction
  if 0 ≤ x then n * base ^ x.toNat < floatLimit else n < floatLimit * base ^ (-x).toNat

/-- `readFloat`, where it takes the whole text, and the check of the range. -/
def isNumber (s : List Char) : Bool :=
  let body := unsigned s
  let hex := hasPrefix 'x' body && decide (2 < body.length)
  let digits := if hex then body.drop 2 else body
  let mant := mantissa hex false digits
  match exponent hex (digits.drop mant.length) with
  | none => false
  | some e => mant.any (isDigitOf hex) && underscoreOk s && inRange hex mant e

def parseFloat (s : List Char) : Bool := isSpecial s || isNumber s

def isFloatChar (c : Char) : Bool := c.isAlphanum || c ∈ "+-._".toList

section Floats
variable {hex : Bool} {s : List Char} {c : Char}

theorem isUpper_iff : c.isUpper = true ↔ 65 ≤ c.toNat ∧ c.toNat ≤ 90 :=
  decide_eq_true_iff.trans (and_congr UInt32.le_iff_toNat_le UInt32.le_iff_toNat_le)

theorem isLower_iff : c.isLower = true ↔ 97 ≤ c.toNat ∧ c.toNat ≤ 122 :=
  Bool.and_eq_true_iff.trans (and_congr (decide_eq_true_iff.trans UInt32.le_iff_toNat_le)
    (decide_eq_true_iff.trans UInt32.le_iff_toNat_le))

theorem isFloatChar_iff : isFloatChar c = true ↔
    c.isUpper = true ∨ c.isLower = true ∨ c.isDigit = true ∨ c ∈ "+-._".toList := by
  have halnum : c.isAlphanum = true ↔ (c.isUpper = true ∨ c.isLower = true) ∨ c.isDigit = true :=
    Bool.or_eq_true_iff.trans (or_congr_left Bool.or_eq_true_iff)
  rw [isFloatChar, Bool.or_eq_true, decide_eq_true_eq, halnum, or_assoc, or_assoc]

theorem isFloatChar_ne {d : Char} (h : isFloatChar c = true) (hd : isFloatChar d = false) :
    c ≠ d := by
  rintro rfl
  rw [h] at hd
  cases hd

theorem isNb_of_isFloatChar (h : isFloatChar c = true) : isNb c = true := by
  have hascii : 0x20 ≤ c.toNat ∧ c.toNat ≤ 0x7e := by
    rcases isFloatChar_iff.mp h with hupper | hlower | hdigit | hmem
    · have := isUpper_iff.mp hupper
      omega
    · have := isLower_iff.mp hlower
      omega
    · have := Char.isDigit_iff_toNat.mp hdigit
      have hbounds : '0'.toNat = 48 ∧ '9'.toNat = 57 := by decide
      omega
    · have hall : ∀ d ∈ "+-._".toList, 0x20 ≤ d.toNat ∧ d.toNat ≤ 0x7e :=
        List.all_iff_forall_prop.mp (by decide)
      exact hall c hmem
  simp [isNb, hascii.1, hascii.2]

theorem isSafe_of_isFloatChar (ctx : Context) (h : isFloatChar c = true) :
    isSafe ctx c = true := by
  have hwhite : isWhite c = false := by
    simp [isWhite, isFloatChar_ne h (d := ' ') (by decide),
      isFloatChar_ne h (d := '\t') (by decide)]
  have hns : isNs c = true := by simp [isNs, isNb_of_isFloatChar h, hwhite]
  have hflow : isFlowIndicator c = false := by
    simp only [isFlowIndicator, decide_eq_false_iff_not]
    intro hmem
    have hnone : ∀ d ∈ ",[]\x7b\x7d".toList, isFloatChar d = false :=
      List.all_iff_forall_prop.mp (by decide)
    exact isFloatChar_ne h (hnone c hmem) rfl
  cases ctx with
  | flow => simp [isSafe, hns, hflow]
  | key => exact hns

theorem plainChars_of_floatChars {ctx : Context} {after : List Char} {before : Char}
    (h : ∀ c ∈ s, isFloatChar c = true) : plainChars ctx after before s = true := by
  induction s generalizing before with
  | nil => rfl
  | cons c cs ih =>
    obtain ⟨hc, hcs⟩ := List.forall_mem_cons.mp h
    have hcolon : c ≠ ':' := isFloatChar_ne hc (by decide)
    have hhash : c ≠ '#' := isFloatChar_ne hc (by decide)
    simp [plainChars, isPlainChar, hcolon, hhash, isSafe_of_isFloatChar ctx hc, ih hcs]

theorem isPlain_of_floatChars {ctx : Context} {after : List Char} (hs : s ≠ [])
    (hchars : ∀ c ∈ s, isFloatChar c = true) (hhyphen : s ≠ ['-']) : IsPlain ctx after s := by
  cases s with
  | nil => exact absurd rfl hs
  | cons c cs =>
    obtain ⟨hc, hcs⟩ := List.forall_mem_cons.mp hchars
    refine ⟨?_, plainChars_of_floatChars hcs, List.rdropWhile_eq_self_iff.mpr fun hne => ?_⟩
    · have hmark : isIndicator c = true → c = '-' := by
        have hall : ∀ d ∈ "-?:,[]\x7b\x7d#&*!|>'\"%@\x60".toList, isFloatChar d = true → d = '-' :=
          List.all_iff_forall_prop.mp (by decide)
        exact fun hi => hall c (of_decide_eq_true hi) hc
      have hsafe := isSafe_of_isFloatChar .key hc
      simp only [List.cons_append, startsPlain]
      split_ifs with hfirst
      · have hcs' : cs ≠ [] := by
          rintro rfl
          simp only [Bool.or_eq_true, beq_iff_eq] at hfirst
          have hm : isIndicator c = true := by rcases hfirst with (rfl | rfl) | rfl <;> decide
          exact hhyphen (by rw [hmark hm])
        obtain ⟨d, ds, rfl⟩ := List.exists_cons_of_ne_nil hcs'
        exact isSafe_of_isFloatChar ctx (hcs d (by simp))
      · have hm : isIndicator c = false := by
          by_contra hne
          simp only [Bool.not_eq_false] at hne
          simp [hmark hne] at hfirst
        rw [hm]
        simpa [isSafe] using hsafe
    · have hlast := isSafe_of_isFloatChar .key (hcs _ (List.getLast_mem hne))
      simp only [isSafe, isNs, Bool.and_eq_true, Bool.not_eq_true'] at hlast
      simp [hlast.2]

theorem isFloatChar_of_toLower (h : isFloatChar c.toLower = true) : isFloatChar c = true := by
  by_cases hup : c.isUpper = true
  · exact isFloatChar_iff.mpr (.inl hup)
  · have heq : c.toLower = c := dif_neg fun hc => hup (decide_eq_true hc)
    rwa [heq] at h

theorem isFloatChar_of_digitValue {d : ℕ} (h : digitValue c = some d) : isFloatChar c = true := by
  unfold digitValue at h
  split_ifs at h with h1 h2 h3
  · exact isFloatChar_iff.mpr (.inr (.inr (.inl (Char.isDigit_iff_toNat.mpr h1))))
  · have hrange : 97 ≤ c.toNat ∧ c.toNat ≤ 102 := h2
    exact isFloatChar_iff.mpr (.inr (.inl (isLower_iff.mpr ⟨hrange.1, by omega⟩)))
  · have hrange : 65 ≤ c.toNat ∧ c.toNat ≤ 70 := h3
    exact isFloatChar_iff.mpr (.inl (isUpper_iff.mpr ⟨hrange.1, by omega⟩))

theorem isFloatChar_of_isDigitOf (h : isDigitOf hex c = true) : isFloatChar c = true := by
  obtain ⟨d, hd⟩ := Option.isSome_iff_exists.mp h
  exact isFloatChar_of_digitValue (Option.filter_eq_some_iff.mp hd).1

theorem mem_unsigned (h : c ∈ s) : isFloatChar c = true ∨ c ∈ unsigned s := by
  cases s with
  | nil => cases h
  | cons d ds =>
    simp only [unsigned]
    split_ifs with hsign
    · rcases List.mem_cons.mp h with rfl | hmem
      · left
        rcases hsign with rfl | rfl <;> decide
      · exact .inr hmem
    · exact .inr h

theorem mantissa_prefix (hex sawdot : Bool) (s : List Char) : mantissa hex sawdot s <+: s := by
  induction s generalizing sawdot with
  | nil => exact List.prefix_rfl
  | cons c cs ih =>
    unfold mantissa
    split_ifs
    · exact (List.prefix_cons_inj c).mpr (ih _)
    · exact (List.prefix_cons_inj c).mpr (ih _)
    · exact List.nil_prefix

theorem mantissa_chars (hex sawdot : Bool) (s : List Char) :
    ∀ c ∈ mantissa hex sawdot s, isFloatChar c = true := by
  induction s generalizing sawdot with
  | nil => simp [mantissa]
  | cons c cs ih =>
    unfold mantissa
    split_ifs with hdigit hdot
    · refine List.forall_mem_cons.mpr ⟨?_, ih _⟩
      rcases hdigit with rfl | hd
      · decide
      · exact isFloatChar_of_isDigitOf hd
    · exact List.forall_mem_cons.mpr ⟨by rw [hdot.1]; decide, ih _⟩
    · simp

theorem exponent_chars {e : ℤ} (h : exponent hex s = some e) : ∀ c ∈ s, isFloatChar c = true := by
  cases s with
  | nil => simp
  | cons c cs =>
    simp only [exponent, Option.ite_none_right_eq_some] at h
    obtain ⟨⟨hletter, -, hds⟩, -⟩ := h
    refine List.forall_mem_cons.mpr ⟨?_, fun d hd => ?_⟩
    · refine isFloatChar_of_toLower ?_
      rw [hletter]
      cases hex <;> decide
    · rcases mem_unsigned hd with hfloat | hmem
      · exact hfloat
      · have hd' := List.all_eq_true.mp hds d hmem
        simp only [Bool.or_eq_true, beq_iff_eq] at hd'
        rcases hd' with rfl | hdigit
        · decide
        · exact isFloatChar_of_isDigitOf hdigit

theorem hasPrefix_chars (h : hasPrefix 'x' s = true) :
    ∀ c ∈ s.take 2, isFloatChar c = true := by
  cases s with
  | nil => cases h
  | cons c cs =>
    cases cs with
    | nil => simp [hasPrefix] at h
    | cons d ds =>
      simp only [hasPrefix, List.head?_cons, List.tail_cons, Option.map_some, Bool.and_eq_true,
        beq_iff_eq, Option.some.injEq] at h
      have hd : isFloatChar d = true := isFloatChar_of_toLower (by rw [h.2]; decide)
      simp only [List.take_succ_cons, List.take_zero, List.forall_mem_cons, List.not_mem_nil,
        false_implies, implies_true, and_true]
      exact ⟨by rw [h.1]; decide, hd⟩

theorem isNumber_chars (h : isNumber s = true) :
    (∀ c ∈ s, isFloatChar c = true) ∧ ∃ c ∈ s, ∃ hex, isDigitOf hex c = true := by
  unfold isNumber at h
  dsimp only at h
  generalize hhex : (hasPrefix 'x' (unsigned s) && decide (2 < (unsigned s).length)) = hex at h
  generalize hdigits : (if hex = true then (unsigned s).drop 2 else unsigned s) = digits at h
  split at h
  · cases h
  · rename_i e he
    simp only [Bool.and_eq_true, List.any_eq_true] at h
    obtain ⟨⟨⟨d, hd, hdigit⟩, -⟩, -⟩ := h
    have hmantissa := mantissa_prefix hex false digits
    have hsuffix : digits <:+ unsigned s := by
      rw [← hdigits]
      split_ifs
      · exact List.drop_suffix _ _
      · exact List.suffix_rfl
    have hunsigned : unsigned s <:+ s := by
      cases s with
      | nil => exact List.suffix_rfl
      | cons c cs =>
        simp only [unsigned]
        split_ifs
        · exact List.suffix_cons c cs
        · exact List.suffix_rfl
    refine ⟨fun c hc => ?_, d, hunsigned.subset (hsuffix.subset (hmantissa.subset hd)), hex, hdigit⟩
    rcases mem_unsigned hc with hfloat | hmem
    · exact hfloat
    · have hbody : c ∈ digits ∨ isFloatChar c = true := by
        rw [← hdigits]
        split_ifs with hx
        · rw [← List.take_append_drop 2 (unsigned s)] at hmem
          rcases List.mem_append.mp hmem with hc | hc
          · rw [hx, Bool.and_eq_true] at hhex
            exact .inr (hasPrefix_chars hhex.1 c hc)
          · exact .inl hc
        · exact .inl hmem
      rcases hbody with hc | hfloat
      · rw [List.prefix_iff_eq_append.mp hmantissa |>.symm] at hc
        rcases List.mem_append.mp hc with hc | hc
        · exact mantissa_chars hex false digits c hc
        · exact exponent_chars he c hc
      · exact hfloat

theorem isSpecial_chars (h : isSpecial s = true) :
    (∀ c ∈ s, isFloatChar c = true) ∧ s ≠ [] ∧ s ≠ ['-'] := by
  have hlower : ∀ c ∈ s.map Char.toLower, isFloatChar c = true := by
    have hword {word : String} (hw : ∀ c ∈ word.toList, isFloatChar c = true)
        (heq : unsigned (s.map Char.toLower) = word.toList) :
        ∀ c ∈ s.map Char.toLower, isFloatChar c = true := fun c hc =>
      (mem_unsigned hc).elim id fun hmem => hw c (heq ▸ hmem)
    simp only [isSpecial, Bool.or_eq_true, beq_iff_eq] at h
    rcases h with (hnan | hinf) | hinf
    · rw [hnan]
      exact List.all_iff_forall_prop.mp (by decide)
    · exact hword (List.all_iff_forall_prop.mp (by decide)) hinf
    · exact hword (List.all_iff_forall_prop.mp (by decide)) hinf
  refine ⟨fun c hc => isFloatChar_of_toLower (hlower _ (List.mem_map_of_mem hc)), ?_, ?_⟩
  · rintro rfl
    exact absurd h (by decide)
  · rintro rfl
    exact absurd h (by decide)

theorem parseFloat_plain {ctx : Context} {after : List Char} (h : parseFloat s = true) :
    IsPlain ctx after s := by
  have hchars : (∀ c ∈ s, isFloatChar c = true) ∧ s ≠ [] ∧ s ≠ ['-'] := by
    rcases Bool.or_eq_true_iff.mp h with hspecial | hnumber
    · exact isSpecial_chars hspecial
    · obtain ⟨hall, c, hc, hex, hdigit⟩ := isNumber_chars hnumber
      refine ⟨hall, List.ne_nil_of_mem hc, ?_⟩
      rintro rfl
      rw [List.mem_singleton.mp hc] at hdigit
      cases hex <;> exact absurd hdigit (by decide)
  exact isPlain_of_floatChars hchars.2.1 hchars.1 hchars.2.2

end Floats
end Patchwork.Strconv
