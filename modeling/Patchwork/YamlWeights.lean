import Patchwork.Yaml

/-!
# Weights of YAML texts

A weight under which nothing that is read weighs more than its source, and a quoted
scalar less. Texts that are read back as they were are recognised by it: where no
weight is lost, no scalar was quoted.
-/

namespace Patchwork.YamlWeights
open Yaml

/-- With these weights the source of a quoted scalar weighs more than what it holds. -/
def weight (c : Char) : ℕ :=
  if c = backslash then 3
  else if c = '\n' then 2
  else if c = quoteMark ∨ c = apostrophe ∨ c = 'x' ∨ c = 'u' ∨ c = 'U' then 1
  else 0

def weigh (s : List Char) : ℕ := (s.map weight).sum

@[simp] theorem weigh_nil : weigh [] = 0 := rfl

@[simp] theorem weigh_cons (c : Char) (s : List Char) : weigh (c :: s) = weight c + weigh s := by
  simp [weigh]

@[simp] theorem weigh_append (s s' : List Char) : weigh (s ++ s') = weigh s + weigh s' := by
  simp [weigh]

@[simp] theorem weight_backslash : weight backslash = 3 := rfl
@[simp] theorem weight_quoteMark : weight quoteMark = 1 := rfl
@[simp] theorem weight_apostrophe : weight apostrophe = 1 := rfl

theorem weight_le (c : Char) : weight c ≤ 3 := by
  unfold weight
  split_ifs <;> omega

theorem weigh_suffix {s s' : List Char} (h : s' <:+ s) : weigh s' ≤ weigh s := by
  obtain ⟨u, rfl⟩ := h
  simp

def IsVerbatim (s : List Char) : Prop :=
  ∀ c ∈ s, isJson c = true ∧ c ≠ quoteMark ∧ c ≠ backslash

instance : DecidablePred IsVerbatim := fun s => List.decidableBAll _ s

theorem escapeChar_weight {c e : Char} (h : escapeChar c = some e) : weight e ≤ weight c + 2 := by
  by_cases hb : c = backslash
  · have := weight_le e
    rw [hb, weight_backslash]
    omega
  · have hlight : weight e ≤ 2 := by
      unfold escapeChar at h
      split at h
      case h_14 hc => exact absurd (Char.toNat_inj.mp hc) hb
      all_goals cases h <;> decide
    omega

theorem escapeDigits_weight {c : Char} {digits : ℕ} (h : escapeDigits c = some digits) :
    weight c = 1 := by
  unfold escapeDigits at h
  split_ifs at h with hx hu hU
  · rw [beq_iff_eq.mp hx]
    decide
  · rw [beq_iff_eq.mp hu]
    decide
  · rw [beq_iff_eq.mp hU]
    decide

def owed : Mode → ℕ
  | .text => 0
  | .escape => 3
  | .hex _ _ => 4

theorem push_eq_some {c : Char} {r : Option (List Char × List Char)} {t rest : List Char}
    (h : push c r = some (t, rest)) : ∃ t', r = some (t', rest) ∧ t = c :: t' := by
  obtain ⟨⟨t', rest'⟩, hr, heq⟩ := Option.map_eq_some_iff.mp h
  cases heq
  exact ⟨t', hr, rfl⟩

theorem doubleQuoted_cases {mode : Mode} {s t rest : List Char}
    (h : doubleQuoted mode s = some (t, rest)) :
    (mode = .text ∧ s = t ++ quoteMark :: rest ∧ IsVerbatim t) ∨
      weigh t + weigh rest + 2 ≤ weigh s + owed mode := by
  induction s generalizing mode t with
  | nil => cases mode <;> cases h
  | cons c cs ih =>
    have hle := weight_le c
    -- the weight of a character that an escape stands for is paid by the escape
    have hpush {e : Char} {t : List Char} {n : ℕ} (hn : weight e + 1 ≤ n)
        (h : push e (doubleQuoted .text cs) = some (t, rest)) :
        weigh t + weigh rest + 2 ≤ weigh cs + n := by
      obtain ⟨t', h', rfl⟩ := push_eq_some h
      rcases ih h' with ⟨-, rfl, -⟩ | hcost
      · simp only [weigh_cons, weigh_append, weight_quoteMark]
        omega
      · simp only [weigh_cons, owed] at hcost ⊢
        omega
    cases mode with
    | text =>
      simp only [doubleQuoted] at h
      split_ifs at h with hq hb hj
      · cases h
        exact .inl ⟨rfl, by simp [hq], by simp [IsVerbatim]⟩
      · right
        rcases ih h with ⟨hm, -⟩ | hcost
        · cases hm
        · simp only [hb, weigh_cons, weight_backslash, owed] at hcost ⊢
          omega
      · obtain ⟨t', h', rfl⟩ := push_eq_some h
        rcases ih h' with ⟨-, rfl, hverb⟩ | hcost
        · exact .inl ⟨rfl, rfl, List.forall_mem_cons.mpr ⟨⟨hj, hq, hb⟩, hverb⟩⟩
        · right
          simp only [weigh_cons, owed] at hcost ⊢
          omega
    | escape =>
      right
      simp only [doubleQuoted] at h
      split at h
      · rename_i e he
        have := escapeChar_weight he
        have := hpush (n := weight c + 3) (by omega) h
        simp only [weigh_cons, owed]
        omega
      · rename_i digits hd
        have := escapeDigits_weight hd
        rcases ih h with ⟨hm, -⟩ | hcost
        · cases hm
        · simp only [weigh_cons, owed] at hcost ⊢
          omega
      · cases h
    | hex digits value =>
      right
      simp only [doubleQuoted] at h
      split at h
      · cases h
      · rename_i d hd
        split_ifs at h with hmore hvalid
        · rcases ih h with ⟨hm, -⟩ | hcost
          · cases hm
          · simp only [weigh_cons, owed] at hcost ⊢
            omega
        · have := weight_le (Char.ofNat (16 * value + d))
          have := hpush (n := 4) (by omega) h
          simp only [weigh_cons, owed]
          omega

theorem singleQuoted_cost {escaped : Bool} {s t rest : List Char}
    (h : singleQuoted escaped s = some (t, rest)) :
    weigh t + weigh rest + 1 ≤ weigh s + if escaped then 1 else 0 := by
  induction s generalizing escaped t with
  | nil =>
    cases escaped with
    | false => cases h
    | true =>
      cases h
      simp
  | cons c cs ih =>
    cases escaped with
    | true =>
      simp only [singleQuoted, if_true] at h
      split_ifs at h with ha
      · obtain ⟨t', h', rfl⟩ := push_eq_some h
        have := ih h'
        simp only [weigh_cons, Bool.false_eq_true, if_false, if_true] at this ⊢
        omega
      · cases h
        simp
    | false =>
      simp only [singleQuoted, Bool.false_eq_true, if_false] at h
      split_ifs at h with ha hj
      · have := ih h
        simp only [ha, weigh_cons, weight_apostrophe, Bool.false_eq_true, if_false,
          if_true] at this ⊢
        omega
      · obtain ⟨t', h', rfl⟩ := push_eq_some h
        have := ih h'
        simp only [weigh_cons, Bool.false_eq_true, if_false] at this ⊢
        omega

theorem scalar_cases {ctx : Context} {s rest : List Char} {t : Scalar}
    (h : scalar ctx s = some (t, rest)) :
    (t.quoted = false ∧ s = t.text ++ rest ∧ IsPlain ctx rest t.text) ∨
    (t.quoted = true ∧ s = quoteMark :: t.text ++ quoteMark :: rest ∧ IsVerbatim t.text) ∨
    (t.quoted = true ∧ weigh t.text + weigh rest + 2 ≤ weigh s ∧
      (s.head? = some quoteMark → weigh t.text + weigh rest + 3 ≤ weigh s)) := by
  cases hquoted : t.quoted with
  | false =>
    obtain ⟨hs, hplain⟩ := isPlain_of_scalar h hquoted
    exact .inl ⟨rfl, hs, hplain⟩
  | true =>
    right
    cases s with
    | nil => cases h
    | cons c cs =>
      simp only [scalar] at h
      split_ifs at h with hq ha
      · obtain ⟨⟨text, rest'⟩, hr, heq⟩ := Option.map_eq_some_iff.mp h
        cases heq
        rcases doubleQuoted_cases hr with ⟨-, rfl, hverb⟩ | hcost
        · exact .inl ⟨rfl, by rw [hq]; rfl, hverb⟩
        · simp only [owed] at hcost
          refine .inr ⟨rfl, ?_, fun _ => ?_⟩ <;>
          · simp only [hq, weigh_cons, weight_quoteMark]
            omega
      · obtain ⟨⟨text, rest'⟩, hr, heq⟩ := Option.map_eq_some_iff.mp h
        cases heq
        have hcost := singleQuoted_cost hr
        refine .inr ⟨rfl, ?_, fun hhead => absurd (Option.some.inj hhead) hq⟩
        simp only [ha, weigh_cons, weight_apostrophe, Bool.false_eq_true, if_false] at hcost ⊢
        omega
      · cases h
        cases hquoted

theorem scalar_cost {ctx : Context} {s rest : List Char} {t : Scalar}
    (h : scalar ctx s = some (t, rest)) :
    weigh t.text + weigh rest + (if t.quoted then 2 else 0) ≤ weigh s := by
  rcases scalar_cases h with ⟨hq, rfl, -⟩ | ⟨hq, rfl, -⟩ | ⟨hq, hcost, -⟩
  · simp [hq]
  · simp [hq]
    omega
  · simpa [hq] using hcost

def weighScalars (ts : List Scalar) : ℕ := (ts.map fun t => weigh t.text).sum

@[simp] theorem weighScalars_nil : weighScalars [] = 0 := rfl

@[simp] theorem weighScalars_cons (t : Scalar) (ts : List Scalar) :
    weighScalars (t :: ts) = weigh t.text + weighScalars ts := by
  simp [weighScalars]

theorem weigh_skip (s : List Char) : weigh (skip s) ≤ weigh s :=
  weigh_suffix (List.dropWhile_suffix _)

theorem not_follows_of_skip {rest ds : List Char} {d : Char} (h : skip rest = d :: ds)
    (hd : d = ']' ∨ d = ',') : follows .flow rest = false := by
  cases rest with
  | nil => rfl
  | cons c cs =>
    by_cases hw : isWhite c = true
    · simp [follows, isSafe, isNs, hw]
    · rw [skip, List.dropWhile_cons_of_neg hw] at h
      cases h
      have hmark : isFlowIndicator d = true := by rcases hd with rfl | rfl <;> decide
      simp [follows, isSafe, hmark]

def IsItem (t : Scalar) : Prop := t.quoted = false ∧ IsPlain .flow [] t.text

/-- Items weigh no more than their source, and less if one of them is quoted. -/
theorem items_cost {n : ℕ} {s rest : List Char} {ts : List Scalar}
    (h : items n s = some (ts, rest)) :
    weighScalars ts + weigh rest ≤ weigh s ∧
      ((∀ t ∈ ts, IsItem t) ∨ weighScalars ts + weigh rest < weigh s) := by
  induction n generalizing s ts with
  | zero => cases h
  | succ n ih =>
    have hskip := weigh_skip s
    simp only [items] at h
    split at h
    · cases h
    · rename_i c cs hs
      rw [hs] at hskip
      split_ifs at h with hend
      · cases h
        simp only [weigh_cons] at hskip
        refine ⟨by simp only [weighScalars_nil]; omega, .inl (by simp)⟩
      · obtain ⟨⟨t, after⟩, ht, h⟩ := Option.bind_eq_some_iff.mp h
        have hcost := scalar_cost ht
        have hskip' := weigh_skip after
        dsimp only at h
        split at h
        · cases h
        · rename_i d ds hd
          rw [hd, weigh_cons] at hskip'
          have hitem (hdelim : d = ']' ∨ d = ',') :
              IsItem t ∨ weigh t.text + weigh after < weigh s := by
            cases hq : t.quoted with
            | true =>
              right
              simp only [hq, if_true] at hcost
              omega
            | false =>
              obtain ⟨-, hplain⟩ := isPlain_of_scalar ht hq
              refine .inl ⟨hq, hplain.mono fun hf => ?_⟩
              rw [not_follows_of_skip hd hdelim] at hf
              cases hf
          split_ifs at h with hclose hcomma
          · cases h
            simp only [weighScalars_cons, weighScalars_nil]
            refine ⟨by omega, ?_⟩
            rcases hitem (.inl hclose) with hi | hlt
            · exact .inl (by simpa using hi)
            · right
              omega
          · obtain ⟨⟨ts', rest'⟩, hts, heq⟩ := Option.bind_eq_some_iff.mp h
            cases heq
            obtain ⟨hle, hrest⟩ := ih hts
            dsimp only at hle hrest
            simp only [weighScalars_cons]
            refine ⟨by omega, ?_⟩
            rcases hitem (.inr hcomma) with hi | hlt
            · rcases hrest with hall | hlt
              · exact .inl (List.forall_mem_cons.mpr ⟨hi, hall⟩)
              · right
                omega
            · right
              omega

theorem flowSequence_cost {s : List Char} {ts : List Scalar} (h : flowSequence s = some ts) :
    weighScalars ts ≤ weigh s ∧ ((∀ t ∈ ts, IsItem t) ∨ weighScalars ts < weigh s) := by
  cases s with
  | nil => cases h
  | cons c cs =>
    simp only [flowSequence] at h
    split_ifs at h with hc
    obtain ⟨⟨ts', rest⟩, hts, h⟩ := Option.bind_eq_some_iff.mp h
    dsimp only at h
    split_ifs at h
    cases h
    obtain ⟨hle, hrest⟩ := items_cost hts
    simp only [weigh_cons]
    refine ⟨by omega, hrest.imp_right fun hlt => ?_⟩
    omega

def IsKey (s : List Char) : Prop := (s = [] ∨ IsPlain .key [':'] s) ∧ s.length ≤ keyLimit

instance : DecidablePred IsKey := fun _ => inferInstanceAs (Decidable (_ ∧ _))

def IsQuotedKey (s : List Char) : Prop := IsVerbatim s ∧ s.length + 2 ≤ keyLimit

instance : DecidablePred IsQuotedKey := fun _ => inferInstanceAs (Decidable (_ ∧ _))

def isLoose : List Char → Bool
  | [] => false
  | c :: _ => c != quoteMark && c != ' '

def lineCost (line : List Char) : ℕ := weigh line + if isLoose line then 2 else 0

def entryWeight (e : Entry) : ℕ := weigh e.key.text + weighScalars (e.value.getD [])

def entryCost (e : Entry) : ℕ := entryWeight e + if e.indent = 0 then 2 else 0

structure Clean (e : Entry) : Prop where
  items : ∀ t ∈ e.value.getD [], IsItem t
  plain : e.key.quoted = false → IsKey e.key.text
  quoted : e.key.quoted = true → e.indent = 0 ∧ IsQuotedKey e.key.text

theorem keyScalar_cases {s rest : List Char} {t : Scalar} (h : keyScalar s = some (t, rest)) :
    (t.quoted = false ∧ s = t.text ++ rest ∧ s.head? ≠ some quoteMark ∧
      (t.text = [] ∨ IsPlain .key rest t.text)) ∨
    (t.quoted = true ∧ s = quoteMark :: t.text ++ quoteMark :: rest ∧ IsVerbatim t.text) ∨
    (t.quoted = true ∧ weigh t.text + weigh rest + 2 ≤ weigh s ∧
      (s.head? = some quoteMark → weigh t.text + weigh rest + 3 ≤ weigh s)) := by
  cases s with
  | nil => cases h
  | cons c cs =>
    simp only [keyScalar] at h
    split_ifs at h with hc
    · cases h
      simp only [Bool.and_eq_true, beq_iff_eq] at hc
      refine .inl ⟨rfl, rfl, fun hhead => ?_, .inl rfl⟩
      rw [hc.1] at hhead
      exact absurd (Option.some.inj hhead) (by decide)
    · rcases scalar_cases h with ⟨hq, hs, hplain⟩ | hquoted
      · refine .inl ⟨hq, hs, fun hhead => ?_, .inr hplain⟩
        obtain rfl := Option.some.inj hhead
        cases ht : t.text with
        | nil =>
          rw [ht] at hplain
          exact hplain.elim
        | cons d ds =>
          rw [ht] at hplain hs
          cases hs
          exact (startsPlain_ne hplain.1).1 rfl
      · exact .inr hquoted

theorem weigh_drop_indent (line : List Char) : weigh (line.drop (indentOf line)) ≤ weigh line :=
  weigh_suffix (List.drop_suffix _ _)

theorem head_ne_space {line : List Char} (h : indentOf line = 0) : line.head? ≠ some ' ' := by
  cases line with
  | nil => simp
  | cons c cs =>
    intro hhead
    obtain rfl := Option.some.inj hhead
    simp [indentOf] at h

theorem entry_cases {line : List Char} {e : Entry} (h : entry line = some e) :
    ∃ rest cs, e.indent = indentOf line ∧
      keyScalar (line.drop (indentOf line)) = some (e.key, rest) ∧ skip rest = ':' :: cs ∧
      (line.drop (indentOf line)).length - (skip rest).length ≤ keyLimit ∧
      (e.value = none ∨ ∃ ts, e.value = some ts ∧ flowSequence (skip cs) = some ts) := by
  obtain ⟨⟨k, rest⟩, hkey, h⟩ := Option.bind_eq_some_iff.mp h
  dsimp only at h
  split_ifs at h with hlimit
  split at h
  · cases h
  · rename_i c cs hskip
    split_ifs at h with hcolon hend
    · cases h
      simp only [Bool.and_eq_true, beq_iff_eq] at hcolon
      exact ⟨rest, cs, rfl, hkey, by rw [hskip, hcolon.1], hlimit, .inl rfl⟩
    · obtain ⟨ts, hts, heq⟩ := Option.bind_eq_some_iff.mp h
      cases heq
      simp only [Bool.and_eq_true, beq_iff_eq] at hcolon
      exact ⟨rest, cs, rfl, hkey, by rw [hskip, hcolon.1], hlimit, .inr ⟨ts, rfl, hts⟩⟩

theorem value_cost {rest cs : List Char} {value : Option (List Scalar)}
    (hskip : skip rest = ':' :: cs)
    (hvalue : value = none ∨ ∃ ts, value = some ts ∧ flowSequence (skip cs) = some ts) :
    weighScalars (value.getD []) ≤ weigh rest ∧
      ((∀ t ∈ value.getD [], IsItem t) ∨ weighScalars (value.getD []) < weigh rest) := by
  have hle := weigh_skip rest
  rw [hskip, weigh_cons] at hle
  rcases hvalue with rfl | ⟨ts, rfl, hts⟩
  · exact ⟨Nat.zero_le _, .inl (by simp)⟩
  · have hcs := weigh_skip cs
    obtain ⟨hcost, hitems⟩ := flowSequence_cost hts
    simp only [Option.getD_some]
    refine ⟨by omega, hitems.imp_right fun hlt => ?_⟩
    omega

theorem isLoose_of_head {line : List Char} (hne : line ≠ []) (hq : line.head? ≠ some quoteMark)
    (hspace : line.head? ≠ some ' ') : isLoose line = true := by
  cases line with
  | nil => exact absurd rfl hne
  | cons c cs =>
    have h1 : c ≠ quoteMark := fun h => hq (by rw [h]; rfl)
    have h2 : c ≠ ' ' := fun h => hspace (by rw [h]; rfl)
    simp [isLoose, h1, h2]

theorem entry_cost {line : List Char} {e : Entry} (h : entry line = some e) :
    entryCost e ≤ lineCost line ∧ (Clean e ∨ entryCost e < lineCost line) ∧
      (e.indent = 0 → isLoose line = false → e.key.quoted = true) := by
  obtain ⟨rest, cs, hindent, hkey, hskip, hlimit, hvalue⟩ := entry_cases h
  obtain ⟨hle, hitems⟩ := value_cost hskip hvalue
  have hdrop := weigh_drop_indent line
  have hlength : (skip rest).length ≤ rest.length := (List.dropWhile_suffix _).length_le
  -- a key at the start of the line that is not between quotation marks makes the line loose
  have hloose (h0 : e.indent = 0) (hq : (line.drop (indentOf line)).head? ≠ some quoteMark) :
      isLoose line = true := by
    rw [hindent] at h0
    rw [h0, List.drop_zero] at hq hkey
    refine isLoose_of_head ?_ hq (head_ne_space h0)
    rintro rfl
    cases hkey
  simp only [entryCost, entryWeight, lineCost]
  rcases keyScalar_cases hkey with ⟨hq, hs, hhead, hplain⟩ | ⟨hq, hs, hverb⟩ | ⟨hq, hcost, hmark⟩
  · have hweigh := congrArg weigh hs
    have hlen := congrArg List.length hs
    rw [weigh_append] at hweigh
    rw [List.length_append] at hlen
    have hkeyText : IsKey e.key.text :=
      ⟨hplain.imp_right fun hp => hp.mono fun _ => by decide, by omega⟩
    have hextra : (if e.indent = 0 then 2 else 0) ≤ if isLoose line = true then 2 else 0 := by
      split_ifs with h0 hl
      · exact Nat.le_refl _
      · exact absurd (hloose h0 hhead) hl
      · exact Nat.zero_le _
      · exact Nat.le_refl _
    refine ⟨by omega, ?_, fun h0 hl => ?_⟩
    · rcases hitems with hall | hlt
      · exact .inl ⟨hall, fun _ => hkeyText, fun hq' => by rw [hq] at hq'; cases hq'⟩
      · right
        omega
    · rw [hloose h0 hhead] at hl
      cases hl
  · have hweigh := congrArg weigh hs
    have hlen := congrArg List.length hs
    simp only [weigh_append, weigh_cons, List.cons_append, weight_quoteMark] at hweigh
    simp only [List.length_append, List.length_cons, List.cons_append] at hlen
    refine ⟨by split_ifs <;> omega, ?_, fun _ _ => hq⟩
    by_cases h0 : e.indent = 0
    · rcases hitems with hall | hlt
      · refine .inl ⟨hall, fun hq' => ?_, fun _ => ⟨h0, hverb, by omega⟩⟩
        rw [hq] at hq'
        cases hq'
      · right
        split_ifs <;> omega
    · right
      rw [if_neg h0]
      omega
  · refine ⟨by split_ifs <;> omega, .inr ?_, fun _ _ => hq⟩
    by_cases h0 : e.indent = 0
    · rw [if_pos h0]
      by_cases hhead : (line.drop (indentOf line)).head? = some quoteMark
      · have := hmark hhead
        omega
      · rw [if_pos (hloose h0 hhead)]
        omega
    · rw [if_neg h0]
      omega

theorem entries_cost {lines : List (List Char)} {es : List Entry} (h : entries lines = some es) :
    (es.map entryCost).sum ≤ (lines.map lineCost).sum ∧
      ((∀ e ∈ es, Clean e) ∨ (es.map entryCost).sum < (lines.map lineCost).sum) ∧
      ((∀ line ∈ lines, isLoose line = false) →
        ∀ e ∈ es, e.indent = 0 → e.key.quoted = true) := by
  induction lines generalizing es with
  | nil =>
    cases h
    simp
  | cons line lines ih =>
    simp only [entries] at h
    split_ifs at h with hcomment
    · obtain ⟨hle, hclean, hquoted⟩ := ih h
      simp only [List.map_cons, List.sum_cons]
      refine ⟨by omega, hclean.imp_right fun hlt => by omega, fun hl => ?_⟩
      exact hquoted fun l hmem => hl l (List.mem_cons_of_mem _ hmem)
    · obtain ⟨e, he, h⟩ := Option.bind_eq_some_iff.mp h
      obtain ⟨es', hes, heq⟩ := Option.bind_eq_some_iff.mp h
      cases heq
      obtain ⟨hle, hclean, hquoted⟩ := ih hes
      obtain ⟨hle', hclean', hquoted'⟩ := entry_cost he
      simp only [List.map_cons, List.sum_cons]
      refine ⟨by omega, ?_, fun hl => ?_⟩
      · rcases hclean' with hc | hlt
        · rcases hclean with hcs | hlt
          · exact .inl (List.forall_mem_cons.mpr ⟨hc, hcs⟩)
          · right
            omega
        · right
          omega
      · refine List.forall_mem_cons.mpr ⟨fun h0 => hquoted' h0 (hl line (by simp)), ?_⟩
        exact hquoted fun l hmem => hl l (List.mem_cons_of_mem _ hmem)

def pairWeight (t : Scalar × List Scalar) : ℕ := weigh t.1.text + weighScalars t.2

def nestedWeight (ms : Nested) : ℕ :=
  (ms.map fun m => weigh m.1.text + (m.2.map pairWeight).sum).sum

@[simp] theorem nestedWeight_nil : nestedWeight [] = 0 := rfl

@[simp] theorem nestedWeight_cons (m : Scalar × List (Scalar × List Scalar)) (ms : Nested) :
    nestedWeight (m :: ms) = weigh m.1.text + (m.2.map pairWeight).sum + nestedWeight ms := by
  simp [nestedWeight]

structure CleanNode (m : Scalar × List (Scalar × List Scalar)) : Prop where
  plain : m.1.quoted = false → IsKey m.1.text
  quoted : m.1.quoted = true → IsQuotedKey m.1.text
  pairs : ∀ t ∈ m.2, IsKey t.1.text ∧ ∀ item ∈ t.2, IsItem item

theorem pairs_spec {es : List Entry} {b : List (Scalar × List Scalar)}
    (h : (es.mapM fun e => e.value.map fun ts => (e.key, ts)) = some b) :
    (es.map entryWeight).sum = (b.map pairWeight).sum ∧
      ∀ t ∈ b, ∃ e ∈ es, e.key = t.1 ∧ e.value = some t.2 := by
  induction es generalizing b with
  | nil =>
    cases h
    simp
  | cons e es ih =>
    rw [List.mapM_cons] at h
    obtain ⟨t, ht, h⟩ := Option.bind_eq_some_iff.mp h
    obtain ⟨b', hb, heq⟩ := Option.bind_eq_some_iff.mp h
    cases heq
    obtain ⟨ts, hts, rfl⟩ := Option.map_eq_some_iff.mp ht
    obtain ⟨hsum, hmem⟩ := ih hb
    refine ⟨?_, List.forall_mem_cons.mpr ⟨⟨e, by simp, rfl, hts⟩, fun t ht => ?_⟩⟩
    · simp [hsum, entryWeight, pairWeight, hts]
    · obtain ⟨e', he', hkey⟩ := hmem t ht
      exact ⟨e', List.mem_cons_of_mem _ he', hkey⟩

theorem block_spec {indent : ℕ} {es : List Entry} {b : List (Scalar × List Scalar)}
    (h : block indent es = some b) : b ≠ [] ∧ (es.map entryWeight).sum = (b.map pairWeight).sum ∧
      ∀ t ∈ b, ∃ e ∈ es, e.key = t.1 ∧ e.value = some t.2 := by
  cases es with
  | nil => cases h
  | cons e es =>
    simp only [block, Option.ite_none_right_eq_some] at h
    refine ⟨?_, pairs_spec h.2⟩
    rintro rfl
    have hb := h.2
    rw [List.mapM_cons] at hb
    obtain ⟨t, -, hb⟩ := Option.bind_eq_some_iff.mp hb
    obtain ⟨b', -, heq⟩ := Option.bind_eq_some_iff.mp hb
    cases heq

theorem nest_spec {indent : ℕ} {es waiting : List Entry} {ms : Nested}
    (h : nest indent es = some (waiting, ms)) :
    (∀ e ∈ waiting, e ∈ es ∧ e.indent ≠ indent) ∧
      (es.map entryWeight).sum = (waiting.map entryWeight).sum + nestedWeight ms ∧
      es.countP (fun e => e.indent = indent) = ms.length ∧
      ∀ m ∈ ms, (∃ e ∈ es, e.indent = indent ∧ e.key = m.1) ∧ m.2 ≠ [] ∧
        ∀ t ∈ m.2, ∃ e ∈ es, e.indent ≠ indent ∧ e.key = t.1 ∧ e.value = some t.2 := by
  induction es generalizing waiting ms with
  | nil =>
    cases h
    simp
  | cons e es ih =>
    obtain ⟨⟨waiting', ms'⟩, hrec, h⟩ := Option.bind_eq_some_iff.mp h
    obtain ⟨hwaiting, hsum, hcount, hms⟩ := ih hrec
    have hms' : ∀ m ∈ ms', (∃ e' ∈ e :: es, e'.indent = indent ∧ e'.key = m.1) ∧ m.2 ≠ [] ∧
        ∀ t ∈ m.2, ∃ e' ∈ e :: es, e'.indent ≠ indent ∧ e'.key = t.1 ∧ e'.value = some t.2 := by
      intro m hm
      obtain ⟨⟨e', he', hkey⟩, hne, hpairs⟩ := hms m hm
      refine ⟨⟨e', List.mem_cons_of_mem _ he', hkey⟩, hne, fun t ht => ?_⟩
      obtain ⟨e', he', hpair⟩ := hpairs t ht
      exact ⟨e', List.mem_cons_of_mem _ he', hpair⟩
    dsimp only at h
    split_ifs at h with hindent
    · cases hvalue : e.value with
      | some ts =>
        rw [hvalue] at h
        cases h
      | none =>
        rw [hvalue] at h
        obtain ⟨b, hb, heq⟩ := Option.bind_eq_some_iff.mp h
        cases heq
        obtain ⟨hne, hweight, hpairs⟩ := block_spec hb
        refine ⟨by simp, ?_, ?_, List.forall_mem_cons.mpr ⟨⟨⟨e, by simp, hindent, rfl⟩, hne, ?_⟩,
          hms'⟩⟩
        · have hkey : entryWeight e = weigh e.key.text := by simp [entryWeight, hvalue]
          simp only [List.map_cons, List.sum_cons, List.map_nil, List.sum_nil, nestedWeight_cons]
          omega
        · simp [hindent, hcount]
        · intro t ht
          obtain ⟨e', he', hpair⟩ := hpairs t ht
          obtain ⟨hmem, hindent'⟩ := hwaiting e' he'
          exact ⟨e', List.mem_cons_of_mem _ hmem, hindent', hpair⟩
    · cases h
      refine ⟨List.forall_mem_cons.mpr ⟨⟨by simp, hindent⟩, fun e' he' => ?_⟩, ?_, ?_, hms'⟩
      · obtain ⟨hmem, hindent'⟩ := hwaiting e' he'
        exact ⟨List.mem_cons_of_mem _ hmem, hindent'⟩
      · simp only [List.map_cons, List.sum_cons]
        omega
      · simp [hindent, hcount]

theorem sum_entryCost (es : List Entry) : (es.map entryCost).sum =
    (es.map entryWeight).sum + 2 * es.countP (fun e => e.indent = 0) := by
  induction es with
  | nil => rfl
  | cons e es ih =>
    simp only [List.map_cons, List.sum_cons, List.countP_cons, ih, entryCost, decide_eq_true_eq]
    split_ifs <;> omega

theorem entries_head {text : List Char} {e : Entry} {es : List Entry}
    (hhead : text.head? = some quoteMark) (h : entries (text.splitOn '\n') = some (e :: es)) :
    e.indent = 0 := by
  obtain ⟨cs, rfl⟩ := List.head?_eq_some_iff.mp hhead
  have hline : ∃ l ls, (quoteMark :: cs).splitOn '\n' = (quoteMark :: l) :: ls := by
    obtain ⟨l, ls, hls⟩ := List.exists_cons_of_ne_nil (List.splitOn_ne_nil '\n' cs)
    refine ⟨l, ls, ?_⟩
    rw [List.splitOn_cons_eq_if_modifyHead, hls]
    rfl
  obtain ⟨l, ls, hline⟩ := hline
  rw [hline, entries] at h
  have hcomment : isComment (quoteMark :: l) = false := by
    rw [isComment, skip_of_not_white (by decide)]
    rfl
  rw [hcomment, if_neg (by decide)] at h
  split_ifs at h
  obtain ⟨e', he', h⟩ := Option.bind_eq_some_iff.mp h
  obtain ⟨es', -, heq⟩ := Option.bind_eq_some_iff.mp h
  cases heq
  obtain ⟨-, -, hindent, -⟩ := entry_cases he'
  rw [hindent, indentOf, List.takeWhile_cons_of_neg (by decide), List.length_nil]

theorem mapping_cost {text : List Char} {ms : Nested} (h : mapping text = some ms)
    (hhead : text.head? = some quoteMark) :
    nestedWeight ms + 2 * ms.length ≤ ((text.splitOn '\n').map lineCost).sum ∧
      (((text.splitOn '\n').map lineCost).sum ≤ nestedWeight ms + 2 * ms.length →
        ∀ m ∈ ms, CleanNode m) ∧
      ((∀ line ∈ text.splitOn '\n', isLoose line = false) → ∀ m ∈ ms, m.1.quoted = true) ∧
      ms ≠ [] ∧ ∀ m ∈ ms, m.2 ≠ [] := by
  obtain ⟨es, hes, h⟩ := Option.bind_eq_some_iff.mp h
  split at h
  · cases h
  · rename_i e es
    obtain ⟨⟨waiting, ms'⟩, hnest, h⟩ := Option.bind_eq_some_iff.mp h
    dsimp only at h
    split_ifs at h with hdone
    cases h
    obtain ⟨rfl, -⟩ := hdone
    rw [entries_head hhead hes] at hnest
    obtain ⟨-, hsum, hcount, hms⟩ := nest_spec hnest
    obtain ⟨hle, hclean, hquoted⟩ := entries_cost hes
    rw [sum_entryCost, hsum, hcount] at hle hclean
    simp only [List.map_nil, List.sum_nil, Nat.zero_add] at hle hclean
    refine ⟨hle, fun hcost m hm => ?_, fun hl m hm => ?_, ?_, fun m hm => (hms m hm).2.1⟩
    · have hall := hclean.resolve_right (by omega)
      obtain ⟨⟨e', he', -, hkey⟩, -, hpairs⟩ := hms m hm
      refine ⟨?_, ?_, fun t ht => ?_⟩
      · rw [← hkey]
        exact (hall e' he').plain
      · rw [← hkey]
        exact fun hq => ((hall e' he').quoted hq).2
      · obtain ⟨e'', he'', hindent, hkey', hvalue⟩ := hpairs t ht
        have hc := hall e'' he''
        rw [← hkey']
        constructor
        · cases hq : e''.key.quoted with
          | false => exact hc.plain hq
          | true => exact absurd (hc.quoted hq).1 hindent
        · have hitems := hc.items
          rwa [hvalue] at hitems
    · obtain ⟨⟨e', he', hindent, hkey⟩, -⟩ := hms m hm
      rw [← hkey]
      exact hquoted hl e' he' hindent
    · rintro rfl
      rw [List.length_nil, List.countP_eq_zero] at hcount
      exact hcount e (by simp) (by simp [entries_head hhead hes])

theorem splitOn_weight (s : List Char) :
    ((s.splitOn '\n').map weigh).sum + 2 * ((s.splitOn '\n').tail.countP isLoose) ≤ weigh s := by
  induction s with
  | nil => simp [List.splitOn_nil]
  | cons c cs ih =>
    obtain ⟨l, ls, hls⟩ := List.exists_cons_of_ne_nil (List.splitOn_ne_nil '\n' cs)
    rw [List.splitOn_cons_eq_if_modifyHead]
    rw [hls] at ih ⊢
    simp only [List.map_cons, List.sum_cons, List.tail_cons] at ih
    by_cases hc : c = '\n'
    · subst hc
      have hbreak : weight '\n' = 2 := by decide
      simp only [BEq.rfl, if_true, List.map_cons, List.sum_cons, List.tail_cons, weigh_nil,
        List.countP_cons, weigh_cons, hbreak]
      split_ifs <;> omega
    · simp only [beq_iff_eq, hc, if_false, List.modifyHead_cons, List.map_cons, List.sum_cons,
        List.tail_cons, weigh_cons]
      omega

theorem splitOn_cost {line : List Char} (h : isLoose line = false) (hne : line ≠ []) :
    ((line.splitOn '\n').map lineCost).sum ≤ weigh line := by
  have hweight := splitOn_weight line
  obtain ⟨l, ls, hls⟩ := List.exists_cons_of_ne_nil (List.splitOn_ne_nil '\n' line)
  have hfirst : isLoose l = false := by
    obtain ⟨c, cs, rfl⟩ := List.exists_cons_of_ne_nil hne
    rw [List.splitOn_cons_eq_if_modifyHead] at hls
    split_ifs at hls with hc
    · cases hls
      rfl
    · obtain ⟨l', ls', hls'⟩ := List.exists_cons_of_ne_nil (List.splitOn_ne_nil '\n' cs)
      rw [hls'] at hls
      cases hls
      exact h
  have hsum : (ls.map lineCost).sum = (ls.map weigh).sum + 2 * ls.countP isLoose := by
    clear hls hweight
    induction ls with
    | nil => rfl
    | cons l ls ih =>
      simp only [List.map_cons, List.sum_cons, List.countP_cons, ih, lineCost]
      split_ifs <;> omega
  rw [hls] at hweight ⊢
  simp only [List.map_cons, List.sum_cons, List.tail_cons, hsum, lineCost, hfirst,
    Bool.false_eq_true, if_false] at hweight ⊢
  omega

def sheet (lines : List (List Char)) : List Char := lines.flatMap (· ++ ['\n'])

theorem splitOn_sheet (lines : List (List Char)) :
    (sheet lines).splitOn '\n' = lines.flatMap (fun line => line.splitOn '\n') ++ [[]] := by
  induction lines with
  | nil => rfl
  | cons line lines ih =>
    rw [sheet, List.flatMap_cons, List.append_assoc, List.singleton_append,
      List.splitOn_append_cons_self, List.flatMap_cons, List.append_assoc, ← ih]
    rfl

theorem sheet_cost {lines : List (List Char)}
    (h : ∀ line ∈ lines, isLoose line = false ∧ line ≠ []) :
    (((sheet lines).splitOn '\n').map lineCost).sum ≤ (lines.map weigh).sum := by
  have hlines : ((lines.flatMap fun line => line.splitOn '\n').map lineCost).sum ≤
      (lines.map weigh).sum := by
    induction lines with
    | nil => exact Nat.le_refl _
    | cons line lines ih =>
      obtain ⟨⟨hloose, hne⟩, hrest⟩ := List.forall_mem_cons.mp h
      have := splitOn_cost hloose hne
      have := ih hrest
      simp only [List.flatMap_cons, List.map_append, List.sum_append, List.map_cons, List.sum_cons]
      omega
  rw [splitOn_sheet]
  simpa [lineCost, isLoose] using hlines

end Patchwork.YamlWeights
