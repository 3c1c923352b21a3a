import Mathlib.Algebra.BigOperators.Group.List.Basic
import Mathlib.Data.List.DropRight
import Patchwork.Hex

/-!
# A reader of YAML

Scalars of one line in the three flow styles, flow sequences of them, and block
mappings by indentation, two levels deep. Plain scalars are read where the
characters allow them and as far as they go. What is left out of the language
(other nodes, scalars over several lines, tags, anchors, documents) is refused.
-/

namespace Patchwork.Yaml
open Hex

def quoteMark : Char := Char.ofNat 0x22
def apostrophe : Char := Char.ofNat 0x27
def backslash : Char := Char.ofNat 0x5c

def isWhite (c : Char) : Bool := c == ' ' || c == '\t'

def isNb (c : Char) : Bool :=
  c == '\t' || (0x20 ≤ c.toNat && c.toNat ≤ 0x7e) || c.toNat == 0x85 ||
    (0xa0 ≤ c.toNat && c.toNat ≤ 0xfffd && c.toNat != 0xfeff) || 0x10000 ≤ c.toNat

def isJson (c : Char) : Bool := c == '\t' || 0x20 ≤ c.toNat

def isNs (c : Char) : Bool := isNb c && !isWhite c

def isFlowIndicator (c : Char) : Bool := c ∈ ",[]\x7b\x7d".toList

def isIndicator (c : Char) : Bool := c ∈ "-?:,[]\x7b\x7d#&*!|>'\"%@\x60".toList

/-- Where a plain scalar stands: in a flow sequence, or as a key of a block mapping. -/
inductive Context where
  | flow
  | key
deriving DecidableEq, Repr

def isSafe : Context → Char → Bool
  | .flow, c => isNs c && !isFlowIndicator c
  | .key, c => isNs c

structure Scalar where
  quoted : Bool
  text : List Char
deriving DecidableEq, Repr

def follows (ctx : Context) : List Char → Bool
  | [] => false
  | c :: _ => isSafe ctx c

def isPlainChar (ctx : Context) (before c : Char) (behind : List Char) : Bool :=
  if c == ':' then follows ctx behind
  else if c == '#' then isNs before
  else isSafe ctx c

def startsPlain (ctx : Context) : List Char → Bool
  | [] => false
  | c :: cs =>
    if c == '-' || c == '?' || c == ':' then follows ctx cs else isNs c && !isIndicator c

def plainSpan (ctx : Context) (before : Char) : List Char → List Char
  | [] => []
  | c :: cs =>
    if isWhite c || isPlainChar ctx before c cs then c :: plainSpan ctx c cs else []

/-- A plain scalar goes as far as it can and does not end in white space. -/
def plain (ctx : Context) : List Char → List Char
  | [] => []
  | c :: cs => c :: (plainSpan ctx c cs).rdropWhile isWhite

inductive Mode where
  | text
  | escape
  | hex (digits value : ℕ)

def escapeChar (c : Char) : Option Char :=
  match c.toNat with
  | 0x30 => some (Char.ofNat 0)
  | 0x61 => some (Char.ofNat 7)
  | 0x62 => some (Char.ofNat 8)
  | 0x74 => some '\t'
  | 9 => some '\t'
  | 0x6e => some '\n'
  | 0x76 => some (Char.ofNat 11)
  | 0x66 => some (Char.ofNat 12)
  | 0x72 => some (Char.ofNat 13)
  | 0x65 => some (Char.ofNat 27)
  | 0x20 => some ' '
  | 0x22 => some quoteMark
  | 0x2f => some '/'
  | 0x5c => some backslash
  | 0x4e => some (Char.ofNat 0x85)
  | 0x5f => some (Char.ofNat 0xa0)
  | 0x4c => some (Char.ofNat 0x2028)
  | 0x50 => some (Char.ofNat 0x2029)
  | _ => none

def escapeDigits (c : Char) : Option ℕ :=
  if c == 'x' then some 2 else if c == 'u' then some 4 else if c == 'U' then some 8 else none

def push (c : Char) : Option (List Char × List Char) → Option (List Char × List Char) :=
  Option.map fun r => (c :: r.1, r.2)

def doubleQuoted : Mode → List Char → Option (List Char × List Char)
  | _, [] => none
  | .text, c :: cs =>
    if c = quoteMark then some ([], cs)
    else if c = backslash then doubleQuoted .escape cs
    else if isJson c then push c (doubleQuoted .text cs)
    else none
  | .escape, c :: cs =>
    match escapeChar c, escapeDigits c with
    | some e, _ => push e (doubleQuoted .text cs)
    | none, some digits => doubleQuoted (.hex digits 0) cs
    | none, none => none
  | .hex digits value, c :: cs =>
    match digitValue c with
    | none => none
    | some d =>
      if 1 < digits then doubleQuoted (.hex (digits - 1) (16 * value + d)) cs
      else if (16 * value + d).isValidChar then
        push (Char.ofNat (16 * value + d)) (doubleQuoted .text cs)
      else none

def singleQuoted : Bool → List Char → Option (List Char × List Char)
  | false, [] => none
  | true, [] => some ([], [])
  | escaped, c :: cs =>
    if escaped then
      if c = apostrophe then push c (singleQuoted false cs) else some ([], c :: cs)
    else if c = apostrophe then singleQuoted true cs
    else if isJson c then push c (singleQuoted false cs)
    else none

def scalar (ctx : Context) : List Char → Option (Scalar × List Char)
  | [] => none
  | c :: cs =>
    if c = quoteMark then (doubleQuoted .text cs).map fun r => (⟨true, r.1⟩, r.2)
    else if c = apostrophe then (singleQuoted false cs).map fun r => (⟨true, r.1⟩, r.2)
    else if startsPlain ctx (c :: cs) then
      some (⟨false, plain ctx (c :: cs)⟩, (c :: cs).drop (plain ctx (c :: cs)).length)
    else none

def skip (s : List Char) : List Char := s.dropWhile isWhite

/-- The items of a flow sequence behind its bracket or a comma. The rounds allowed are the
characters of the line. -/
def items : ℕ → List Char → Option (List Scalar × List Char)
  | 0, _ => none
  | n + 1, s =>
    match skip s with
    | [] => none
    | c :: cs =>
      if c = ']' then some ([], cs)
      else do
        let (t, rest) ← scalar .flow (c :: cs)
        match skip rest with
        | [] => none
        | d :: ds =>
          if d = ']' then some ([t], ds)
          else if d = ',' then do
            let (ts, rest) ← items n ds
            some (t :: ts, rest)
          else none

def isComment (s : List Char) : Bool :=
  match skip s with
  | [] => true
  | c :: cs => c == '#' && cs.all isNb

def isLineEnd : List Char → Bool
  | [] => true
  | c :: cs => isWhite c && isComment (c :: cs)

def flowSequence : List Char → Option (List Scalar)
  | [] => none
  | c :: cs =>
    if c = '[' then do
      let (ts, rest) ← items (cs.length + 1) cs
      if isLineEnd rest then some ts else none
    else none

structure Entry where
  indent : ℕ
  key : Scalar
  value : Option (List Scalar)
deriving DecidableEq, Repr

/-- How far the colon of an implicit key may be from the start of the key. -/
def keyLimit : ℕ := 1024

def keyScalar : List Char → Option (Scalar × List Char)
  | [] => none
  | c :: cs =>
    if c == ':' && !follows .key cs then some (⟨false, []⟩, c :: cs) else scalar .key (c :: cs)

def indentOf (line : List Char) : ℕ := (line.takeWhile (· == ' ')).length

def entry (line : List Char) : Option Entry := do
  let s := line.drop (indentOf line)
  let (k, rest) ← keyScalar s
  if s.length - (skip rest).length ≤ keyLimit then
    match skip rest with
    | [] => none
    | c :: cs =>
      if c == ':' && !follows .key cs then
        if isLineEnd cs then some ⟨indentOf line, k, none⟩
        else do
          let ts ← flowSequence (skip cs)
          some ⟨indentOf line, k, some ts⟩
      else none
  else none

def isMarker (line : List Char) : Bool :=
  (line.take 3 == "---".toList || line.take 3 == "...".toList) && !follows .key (line.drop 3)

def entries : List (List Char) → Option (List Entry)
  | [] => some []
  | line :: lines =>
    if isComment line then entries lines
    else if isMarker line then none
    else do
      let e ← entry line
      let es ← entries lines
      some (e :: es)

def block (indent : ℕ) (es : List Entry) : Option (List (Scalar × List Scalar)) :=
  match es with
  | [] => none
  | e :: _ =>
    if indent < e.indent ∧ ∀ e' ∈ es, e'.indent = e.indent then
      es.mapM fun e' => e'.value.map fun ts => (e'.key, ts)
    else none

abbrev Nested := List (Scalar × List (Scalar × List Scalar))

def nest (indent : ℕ) : List Entry → Option (List Entry × Nested)
  | [] => some ([], [])
  | e :: es => do
    let (waiting, ms) ← nest indent es
    if e.indent = indent then
      match e.value with
      | some _ => none
      | none => do
        let b ← block indent waiting
        some ([], (e.key, b) :: ms)
    else some (e :: waiting, ms)

def Unique (ms : Nested) : Prop :=
  (ms.map fun m => m.1.text).Nodup ∧ ∀ m ∈ ms, (m.2.map fun t => t.1.text).Nodup

instance (ms : Nested) : Decidable (Unique ms) := inferInstanceAs (Decidable (_ ∧ _))

/-- A block mapping of block mappings of flow sequences of scalars. -/
def mapping (text : List Char) : Option Nested := do
  let es ← entries (text.splitOn '\n')
  match es with
  | [] => none
  | e :: _ => do
    let (waiting, ms) ← nest e.indent es
    if waiting = [] ∧ Unique ms then some ms else none

theorem unique_of_mapping {text : List Char} {ms : Nested} (h : mapping text = some ms) :
    Unique ms := by
  obtain ⟨es, -, h⟩ := Option.bind_eq_some_iff.mp h
  split at h
  · cases h
  · obtain ⟨⟨waiting, ms'⟩, -, h⟩ := Option.bind_eq_some_iff.mp h
    dsimp only at h
    split_ifs at h with hdone
    cases h
    exact hdone.2

def plainChars (ctx : Context) (after : List Char) : Char → List Char → Bool
  | _, [] => true
  | before, c :: cs =>
    (isWhite c || isPlainChar ctx before c (cs ++ after)) && plainChars ctx after c cs

/-- A text that is a plain scalar when it is written as it is, with `after` behind it. -/
def IsPlain (ctx : Context) (after : List Char) : List Char → Prop
  | [] => False
  | c :: cs =>
    startsPlain ctx (c :: cs ++ after) = true ∧ plainChars ctx after c cs = true ∧
      cs.rdropWhile isWhite = cs

instance (ctx : Context) (after : List Char) : DecidablePred (IsPlain ctx after) := fun s =>
  match s with
  | [] => inferInstanceAs (Decidable False)
  | _ :: _ => inferInstanceAs (Decidable (_ ∧ _))

def Stops (ctx : Context) : List Char → Prop
  | [] => True
  | c :: cs => isWhite c = false ∧ ∀ before, isPlainChar ctx before c cs = false

section Plain
variable {ctx : Context} {after after' s u v : List Char} {before c : Char} {cs : List Char}

theorem follows_append (hf : follows ctx after = true → follows ctx after' = true)
    (h : follows ctx (s ++ after) = true) : follows ctx (s ++ after') = true := by
  cases s with
  | nil => exact hf h
  | cons c cs => exact h

theorem plainChars_append :
    plainChars ctx after before (u ++ v) = true → plainChars ctx (v ++ after) before u = true := by
  induction u generalizing before with
  | nil => exact fun _ => rfl
  | cons c cs ih =>
    simp only [List.cons_append, plainChars, Bool.and_eq_true, List.append_assoc]
    exact And.imp_right ih

theorem plainChars_mono (hf : follows ctx after = true → follows ctx after' = true)
    (h : plainChars ctx after before s = true) : plainChars ctx after' before s = true := by
  induction s generalizing before with
  | nil => rfl
  | cons c cs ih =>
    simp only [plainChars, Bool.and_eq_true, Bool.or_eq_true] at h ⊢
    refine ⟨h.1.imp_right fun hc => ?_, ih h.2⟩
    unfold isPlainChar at hc ⊢
    split_ifs at hc ⊢
    · exact follows_append hf hc
    · exact hc
    · exact hc

theorem startsPlain_mono (hf : follows ctx after = true → follows ctx after' = true)
    (h : startsPlain ctx (c :: cs ++ after) = true) :
    startsPlain ctx (c :: cs ++ after') = true := by
  simp only [List.cons_append, startsPlain] at h ⊢
  split_ifs at h ⊢
  · exact follows_append hf h
  · exact h

theorem IsPlain.mono (hf : follows ctx after = true → follows ctx after' = true)
    (h : IsPlain ctx after s) : IsPlain ctx after' s := by
  cases s with
  | nil => exact h
  | cons c cs => exact ⟨startsPlain_mono hf h.1, plainChars_mono hf h.2.1, h.2.2⟩

theorem plainSpan_spec (ctx : Context) (before : Char) (s : List Char) :
    ∃ after, s = plainSpan ctx before s ++ after ∧
      plainChars ctx after before (plainSpan ctx before s) = true := by
  induction s generalizing before with
  | nil => exact ⟨[], rfl, rfl⟩
  | cons c cs ih =>
    by_cases hc : (isWhite c || isPlainChar ctx before c cs) = true
    · obtain ⟨after, heq, hchars⟩ := ih c
      simp only [plainSpan, if_pos hc]
      refine ⟨after, congrArg (c :: ·) heq, ?_⟩
      rw [plainChars, ← heq, hc, hchars]
      rfl
    · exact ⟨c :: cs, by simp [plainSpan, hc], by simp [plainSpan, hc, plainChars]⟩

theorem plainSpan_of_plainChars (h : plainChars ctx after before s = true)
    (hstop : Stops ctx after) : plainSpan ctx before (s ++ after) = s := by
  induction s generalizing before with
  | nil =>
    cases after with
    | nil => rfl
    | cons c cs => simp [plainSpan, hstop.1, hstop.2 before]
  | cons c cs ih =>
    simp only [plainChars, Bool.and_eq_true] at h
    simp only [List.cons_append, plainSpan, h.1, if_true, ih h.2]

theorem startsPlain_ne (h : startsPlain ctx (c :: cs) = true) :
    c ≠ quoteMark ∧ c ≠ apostrophe ∧ isWhite c = false := by
  have hspecial : ∀ c', isIndicator c' = true → c' ≠ '-' → c' ≠ '?' → c' ≠ ':' → c ≠ c' := by
    rintro c' hi h1 h2 h3 rfl
    simp [startsPlain, hi, h1, h2, h3] at h
  refine ⟨hspecial _ (by decide) (by decide) (by decide) (by decide),
    hspecial _ (by decide) (by decide) (by decide) (by decide), ?_⟩
  by_contra hw
  simp only [Bool.not_eq_false] at hw
  simp only [startsPlain, isNs, hw] at h
  unfold isWhite at hw
  split_ifs at h with hmark
  · simp only [Bool.or_eq_true, beq_iff_eq] at hmark hw
    rcases hw with rfl | rfl <;> simp at hmark
  · simp at h

theorem scalar_of_plain (h : IsPlain ctx after s) (hstop : Stops ctx after) :
    scalar ctx (s ++ after) = some (⟨false, s⟩, after) := by
  cases s with
  | nil => exact h.elim
  | cons c cs =>
    obtain ⟨hstart, hchars, htrim⟩ := h
    obtain ⟨hq, ha, -⟩ := startsPlain_ne hstart
    have hplain : plain ctx (c :: cs ++ after) = c :: cs := by
      rw [List.cons_append, plain, plainSpan_of_plainChars hchars hstop, htrim]
    rw [List.cons_append] at hstart hplain ⊢
    simp [scalar, hq, ha, hstart, hplain]

theorem rdropWhile_split (p : Char → Bool) (s : List Char) :
    ∃ w, s = s.rdropWhile p ++ w := by
  obtain ⟨w, hw⟩ := List.rdropWhile_prefix p s
  exact ⟨w, hw.symm⟩

theorem isPlain_of_scalar {t : Scalar} {rest : List Char} (h : scalar ctx s = some (t, rest))
    (hq : t.quoted = false) : s = t.text ++ rest ∧ IsPlain ctx rest t.text := by
  cases s with
  | nil => cases h
  | cons c cs =>
    simp only [scalar] at h
    split_ifs at h with h1 h2 hstart
    · obtain ⟨r, -, hr⟩ := Option.map_eq_some_iff.mp h
      cases hr
      cases hq
    · obtain ⟨r, -, hr⟩ := Option.map_eq_some_iff.mp h
      cases hr
      cases hq
    · cases h
      obtain ⟨after, hspan, hchars⟩ := plainSpan_spec ctx c cs
      obtain ⟨w, hw⟩ := rdropWhile_split isWhite (plainSpan ctx c cs)
      have hsplit : c :: cs = plain ctx (c :: cs) ++ (w ++ after) := by
        conv_lhs => rw [hspan, hw]
        simp [plain]
      have hrest := congrArg (List.drop (plain ctx (c :: cs)).length) hsplit
      rw [List.drop_left] at hrest
      rw [hrest]
      refine ⟨hsplit, ?_, ?_, List.rdropWhile_idempotent isWhite _⟩
      · change startsPlain ctx (plain ctx (c :: cs) ++ (w ++ after)) = true
        rwa [← hsplit]
      · rw [hw] at hchars
        exact plainChars_append hchars

end Plain

def ItemEnd (rest : List Char) : Prop := ∃ d ds, rest = d :: ds ∧ (d = ',' ∨ d = ']')

structure Spells (src : List Char) (t : Scalar) : Prop where
  starts : ∃ c cs, src = c :: cs ∧ isWhite c = false ∧ c ≠ ']'
  reads : ∀ rest, ItemEnd rest → scalar .flow (src ++ rest) = some (t, rest)

theorem skip_of_not_white {c : Char} {cs : List Char} (h : isWhite c = false) :
    skip (c :: cs) = c :: cs := by
  rw [skip, List.dropWhile_cons_of_neg (by simp [h])]

theorem ItemEnd.skip_eq {rest : List Char} (h : ItemEnd rest) : skip rest = rest := by
  obtain ⟨d, ds, rfl, hd⟩ := h
  refine skip_of_not_white ?_
  rcases hd with rfl | rfl <;> decide

theorem ItemEnd.stops {rest : List Char} (h : ItemEnd rest) : Stops .flow rest := by
  obtain ⟨d, ds, rfl, hd⟩ := h
  rcases hd with rfl | rfl <;>
    exact ⟨by decide, fun _ => by simp [isPlainChar, isSafe, isFlowIndicator]⟩

theorem spells_of_plain {s : List Char} (h : IsPlain .flow [] s) : Spells s ⟨false, s⟩ := by
  constructor
  · cases s with
    | nil => exact h.elim
    | cons c cs =>
      refine ⟨c, cs, rfl, (startsPlain_ne h.1).2.2, ?_⟩
      rintro rfl
      exact absurd h.1 (by simp [startsPlain, isIndicator])
  · intro rest hrest
    have hf : follows .flow [] = true → follows .flow rest = true := fun h => by cases h
    exact scalar_of_plain (h.mono hf) hrest.stops

theorem items_white {n : ℕ} {s : List Char} : items n (' ' :: s) = items n s := by
  cases n with
  | zero => rfl
  | succ n =>
    have hskip : skip (' ' :: s) = skip s := List.dropWhile_cons_of_pos (by decide)
    simp only [items, hskip]

theorem items_of_spells {srcs : List (List Char)} {ts : List Scalar} {n : ℕ}
    (h : List.Forall₂ Spells srcs ts) (hn : srcs.length < n) (rest : List Char) :
    items n ([',', ' '].intercalate srcs ++ ']' :: rest) = some (ts, rest) := by
  induction h generalizing n with
  | nil =>
    obtain ⟨n, rfl⟩ := Nat.exists_eq_succ_of_ne_zero (Nat.ne_of_gt hn)
    rfl
  | @cons src t srcs ts hsrc hrest ih =>
    obtain ⟨n, rfl⟩ := Nat.exists_eq_succ_of_ne_zero (Nat.ne_of_gt (Nat.zero_lt_of_lt hn))
    obtain ⟨c, cs, rfl, hwhite, hclose⟩ := hsrc.starts
    cases hrest with
    | nil =>
      have hend : ItemEnd (']' :: rest) := ⟨_, _, rfl, .inr rfl⟩
      have hread := hsrc.reads _ hend
      rw [List.intercalate_singleton]
      rw [List.cons_append] at hread ⊢
      simp only [items, skip_of_not_white hwhite, if_neg hclose, hread, Option.bind_eq_bind,
        Option.bind_some, hend.skip_eq, if_true]
    | @cons src' t' srcs ts hsrc' hrest =>
      have hend : ItemEnd (',' :: ' ' :: ([',', ' '].intercalate (src' :: srcs) ++ ']' :: rest)) :=
        ⟨_, _, rfl, .inl rfl⟩
      have hread := hsrc.reads _ hend
      have hrec := ih (n := n) (by simpa using hn)
      rw [List.intercalate_cons_cons]
      simp only [List.append_assoc, List.cons_append, List.nil_append] at hread ⊢
      simp only [items, skip_of_not_white hwhite, if_neg hclose, hread, Option.bind_eq_bind,
        Option.bind_some, hend.skip_eq, items_white, hrec, if_true]
      rfl

theorem length_le_intercalate {srcs : List (List Char)} (h : ∀ src ∈ srcs, src ≠ []) :
    srcs.length ≤ ([',', ' '].intercalate srcs).length := by
  induction srcs with
  | nil => exact Nat.zero_le _
  | cons src srcs ih =>
    obtain ⟨hsrc, hsrcs⟩ := List.forall_mem_cons.mp h
    have hpos := List.length_pos_iff.mpr hsrc
    have hle := ih hsrcs
    cases srcs with
    | nil =>
      rw [List.intercalate_singleton, List.length_singleton]
      omega
    | cons src' srcs =>
      rw [List.intercalate_cons_cons]
      simp only [List.length_append, List.length_cons] at hle ⊢
      omega

theorem spells_ne_nil {srcs : List (List Char)} {ts : List Scalar}
    (h : List.Forall₂ Spells srcs ts) : ∀ src ∈ srcs, src ≠ [] := by
  induction h with
  | nil => simp
  | cons hsrc _ ih =>
    obtain ⟨c, cs, rfl, -⟩ := hsrc.starts
    exact List.forall_mem_cons.mpr ⟨by simp, ih⟩

theorem flowSequence_of_spells {srcs : List (List Char)} {ts : List Scalar}
    (h : List.Forall₂ Spells srcs ts) :
    flowSequence ('[' :: [',', ' '].intercalate srcs ++ [']']) = some ts := by
  have hfuel : srcs.length < ([',', ' '].intercalate srcs ++ [']']).length + 1 := by
    have := length_le_intercalate (spells_ne_nil h)
    simp only [List.length_append]
    omega
  simp only [List.cons_append, flowSequence, if_true, items_of_spells h hfuel,
    Option.bind_eq_bind, Option.bind_some, isLineEnd]

end Patchwork.Yaml
