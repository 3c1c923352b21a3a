import Mathlib.Algebra.Group.Int.Defs
import Patchwork.ByteMemory

/-!
# The formatter

`Vsnprintf` reads its format from memory one character at a time and writes to
memory as it goes, so a conversion can change what is read next. An argument
list is a sequence of doublewords, taken in order; `longBits` is the width of
`long`.
-/

namespace Patchwork.Printf
open ByteMemory BoundedLoop

def intMax : ℤ := 2 ^ 31 - 1

/-- The `int` that the machine has for `n`. -/
def int32 (n : ℤ) : ℤ := (BitVec.ofInt 32 n).toInt

theorem int32_eq {n : ℤ} (hlow : -2 ^ 31 ≤ n) (hhigh : n < 2 ^ 31) : int32 n = n := by
  rw [int32, BitVec.toInt_ofInt]
  exact Int.bmod_eq_of_le (by omega) (by omega)

structure Dest where
  str : ℕ
  size : ℕ
deriving DecidableEq, Repr

/-- What the call has produced so far: the length counted in `len`, memory, and the
addresses stored to. -/
structure Output where
  len : ℕ
  mem : Mem
  writes : List ℕ

def element (str i : ℕ) : ℕ := (str + i) % 2 ^ 32

theorem element_eq {str i : ℕ} (h : str + i < 2 ^ 32) : element str i = str + i :=
  Nat.mod_eq_of_lt h

def Output.put (o : Output) (a : ℕ) (bs : List UInt8) : Output :=
  { o with mem := store o.mem a bs, writes := o.writes ++ (List.range bs.length).map (a + ·) }

def outchar (d : Dest) (ch : UInt8) (o : Output) : Output :=
  let o := { o with len := (o.len + 1) % 2 ^ 32 }
  if o.len < d.size then o.put (element d.str ((o.len + 2 ^ 32 - 1) % 2 ^ 32)) [ch] else o

def outchars (d : Dest) (cs : List UInt8) (o : Output) : Output :=
  cs.foldl (fun o ch => outchar d ch o) o

structure Flags where
  minus : Bool
  plus : Bool
  space : Bool
  num : Bool
  zero : Bool
  quote : Bool
  up : Bool
  isUnsigned : Bool
deriving DecidableEq, Repr

def noFlags : Flags := ⟨false, false, false, false, false, false, false, false⟩

/-- The characters behind a `char *`, as memory has them when they are read. -/
abbrev Chars := Mem → ℕ → UInt8

def pointed (value : ℕ) : Chars := fun m i => m (value + i)
def literal (s : String) : Chars := fun _ i =>
  ((s.toList[i]?).map fun c => UInt8.ofNat c.toNat).getD 0

def Within (value : Chars) (precision : ℤ) (m : Mem) (i : ℕ) : Prop :=
  value m i ≠ 0 ∧ (precision = -1 ∨ (i : ℤ) < precision)

instance (value : Chars) (precision : ℤ) (m : Mem) (i : ℕ) :
    Decidable (Within value precision m i) := inferInstanceAs (Decidable (_ ∧ _))

def strlnRound (value : Chars) (precision : ℤ) (m : Mem) (i : ℕ) : Pass ℕ ℕ :=
  if Within value precision m i then .again (i + 1) else .leave i

def fmtstrRound (d : Dest) (value : Chars) (precision : ℤ) :
    ℕ × Output → Pass (ℕ × Output) Output
  | (i, o) =>
    if Within value precision o.mem i then .again (i + 1, outchar d (value o.mem i) o)
    else .leave o

def fmtstr (d : Dest) (value : Chars) (width precision : ℤ) (flags : Flags) (o : Output) :
    Option Output := do
  let strln ← run (strlnRound value precision o.mem) (2 ^ 32) 0
  let padlen := (int32 (width - strln)).toNat
  let spaces := List.replicate padlen 32
  let o := if flags.minus then o else outchars d spaces o
  let o ← run (fmtstrRound d value precision) (2 ^ 32) (0, o)
  some (if flags.minus then outchars d spaces o else o)

def digit (caps : Bool) (n : ℕ) : UInt8 :=
  UInt8.ofNat (if n < 10 then 48 + n else if caps then 55 + n else 87 + n)

def convert (base : ℕ) (caps : Bool) : ℕ → ℕ → List UInt8
  | 0, _ => []
  | size + 1, value =>
    digit caps (value % base) ::
      if value / base ≠ 0 then convert base caps size (value / base) else []

def maxConvertLength : ℕ := 43

def getnumsep (digits : ℕ) : ℕ := (digits - if digits % 3 = 0 then 1 else 0) / 3

def digitsOut (iconvert : List UInt8) (separators : ℕ) : List UInt8 :=
  ((List.range iconvert.length).reverse.map fun pos =>
    (iconvert[pos]?).getD 0 ::
      if separators > 0 ∧ pos > 0 ∧ pos % 3 = 0 then [44] else []).flatten

def signOf (value : BitVec 64) (flags : Flags) : List UInt8 :=
  if flags.isUnsigned then []
  else if value.toInt < 0 then [45]
  else if flags.plus then [43]
  else if flags.space then [32]
  else []

def magnitude (value : BitVec 64) (flags : Flags) : ℕ :=
  if flags.isUnsigned ∨ 0 ≤ value.toInt then value.toNat else (-value).toNat

def intText (value : BitVec 64) (base : ℕ) (width precision : ℤ) (flags : Flags) : List UInt8 :=
  let uvalue := magnitude value flags
  let sign := signOf value flags
  let iconvert := convert base flags.up maxConvertLength uvalue
  let pos := iconvert.length
  let alternative := flags.num ∧ uvalue ≠ 0
  let precision' := if alternative ∧ base = 8 ∧ precision ≤ pos then (pos : ℤ) + 1 else precision
  let hexprefix : List UInt8 :=
    if alternative ∧ base = 16 then [48, if flags.up then 88 else 120] else []
  let separators := if flags.quote then getnumsep pos else 0
  let zpadlen := (precision' - pos - separators).toNat
  let spadlen :=
    (int32 (width - separators - max precision' pos - sign.length - hexprefix.length)).toNat
  let leading := ¬ flags.minus ∧ ¬ (flags.zero ∧ precision = -1)
  let zeros := if ¬ flags.minus ∧ flags.zero ∧ precision = -1 then zpadlen + spadlen else zpadlen
  (if leading then List.replicate spadlen 32 else []) ++ sign ++ hexprefix ++
    List.replicate zeros 48 ++ digitsOut iconvert separators ++
    if flags.minus then List.replicate spadlen 32 else []

def fmtint (d : Dest) (value : BitVec 64) (base : ℕ) (width precision : ℤ) (flags : Flags)
    (o : Output) : Output :=
  outchars d (intText value base width precision flags) o

abbrev VaList := ℕ → BitVec 64

inductive CFlags where
  | none
  | char
  | short
  | long
  | llong
  | size
  | ptrdiff
  | intmax
deriving DecidableEq, Repr

def signedArg (bits : ℕ) (slot : BitVec 64) : BitVec 64 := (slot.setWidth bits).signExtend 64
def unsignedArg (bits : ℕ) (slot : BitVec 64) : BitVec 64 := (slot.setWidth bits).setWidth 64

section Arguments
variable (longBits : ℕ)

/-- The argument of `%d` and `%i`. `SSIZE_T` is `size_t`, so its value is not negative. -/
def intArg (cflags : CFlags) (slot : BitVec 64) : BitVec 64 :=
  match cflags with
  | .char => signedArg 8 slot
  | .short => signedArg 16 slot
  | .long => signedArg longBits slot
  | .llong => slot
  | .size => unsignedArg 32 slot
  | .intmax => slot
  | .ptrdiff => signedArg longBits slot
  | .none => signedArg 32 slot

/-- The argument of `%o`, `%u`, `%x` and `%X`. `UPTRDIFF_T` is the signed `long`. -/
def uintArg (cflags : CFlags) (slot : BitVec 64) : BitVec 64 :=
  match cflags with
  | .char => unsignedArg 8 slot
  | .short => unsignedArg 16 slot
  | .long => unsignedArg longBits slot
  | .llong => slot
  | .size => unsignedArg 32 slot
  | .intmax => slot
  | .ptrdiff => signedArg longBits slot
  | .none => unsignedArg 32 slot

def countBytes : CFlags → ℕ
  | .char => 1
  | .short => 2
  | .long => longBits / 8
  | .llong => 8
  | .size => 4
  | .intmax => 8
  | .ptrdiff => longBits / 8
  | .none => 4

end Arguments

def beBytes (n v : ℕ) : List UInt8 :=
  (List.range n).map fun i => UInt8.ofNat (v / 256 ^ (n - 1 - i))

def pointerArg (slot : BitVec 64) : ℕ := (slot.setWidth 32).toNat

def intOf (slot : BitVec 64) : ℤ := (slot.setWidth 32).toInt

inductive ReadState where
  | default
  | flags
  | width
  | dot
  | precision
  | mod
  | conv
deriving DecidableEq, Repr

structure State where
  state : ReadState
  ch : UInt8
  format : ℕ
  cflags : CFlags
  flags : Flags
  width : ℤ
  precision : ℤ
  args : ℕ
  out : Output

namespace State
variable (s : State)

def next : State := { s with ch := s.out.mem s.format, format := s.format + 1 }

def enter (state : ReadState) : State := { s with state := state }

def flag (flags : Flags) : State := { s with flags := flags }.next

def reset (out : Output) : State :=
  { ({ s with out := out }.next) with
    state := .default, cflags := .none, flags := noFlags, width := 0, precision := -1 }

def took : State := { s with args := s.args + 1 }

def widthOf (width : ℤ) : State :=
  { s with
    width := if width < 0 then int32 (-width) else width
    flags := if width < 0 then { s.flags with minus := true } else s.flags }

def precisionOf (precision : ℤ) : State :=
  { s with precision := if precision < 0 then -1 else precision }

end State

def isDigit (ch : UInt8) : Bool := 48 ≤ ch && ch ≤ 57

def charToInt (ch : UInt8) : ℤ := (ch.toNat : ℤ) - 48

structure Left where
  overflow : Bool
  state : State

section Rounds
variable (longBits : ℕ) (d : Dest) (args : VaList) (s : State)

def defaultRound : State :=
  if s.ch = 37 then (s.enter .flags).next else { s with out := outchar d s.ch s.out }.next

def flagsRound : State :=
  if s.ch = 45 then s.flag { s.flags with minus := true }
  else if s.ch = 43 then s.flag { s.flags with plus := true }
  else if s.ch = 32 then s.flag { s.flags with space := true }
  else if s.ch = 35 then s.flag { s.flags with num := true }
  else if s.ch = 48 then s.flag { s.flags with zero := true }
  else if s.ch = 39 then s.flag { s.flags with quote := true }
  else s.enter .width

def widthRound : Pass State (Option Left) :=
  if isDigit s.ch then
    if s.width > (intMax - charToInt s.ch) / 10 then .leave (some ⟨true, s⟩)
    else .again { s with width := 10 * s.width + charToInt s.ch }.next
  else if s.ch = 42 then .again ((s.took.widthOf (intOf (args s.args))).next.enter .dot)
  else .again (s.enter .dot)

def dotRound : State :=
  if s.ch = 46 then s.next.enter .precision else s.enter .mod

def precisionRound : Pass State (Option Left) :=
  let precision := if s.precision = -1 then 0 else s.precision
  if isDigit s.ch then
    if precision > (intMax - charToInt s.ch) / 10 then .leave (some ⟨true, s⟩)
    else .again { s with precision := 10 * precision + charToInt s.ch }.next
  else if s.ch = 42 then .again ((s.took.precisionOf (intOf (args s.args))).next.enter .mod)
  else .again ({ s with precision := precision }.enter .mod)

def doubled (letter : UInt8) (once twice : CFlags) : State :=
  let s := s.next
  if s.ch = letter then { s.next with cflags := twice } else { s with cflags := once }

def modRound : State :=
  (if s.ch = 104 then doubled s 104 .short .char
  else if s.ch = 108 then doubled s 108 .long .llong
  else if s.ch = 106 then { s with cflags := .intmax }.next
  else if s.ch = 116 then { s with cflags := .ptrdiff }.next
  else if s.ch = 122 then { s with cflags := .size }.next
  else s).enter .conv

/-- `%o`, `%u`, `%x` and `%X`, with the base that the letters above fall through with. -/
def unsignedConv (base : ℕ) (up : Bool) : Option State :=
  let flags := { s.flags with isUnsigned := true, up := s.flags.up || up }
  some (s.took.reset (fmtint d (uintArg longBits s.cflags (args s.args)) base s.width s.precision
    flags s.out))

def stringConv : Option State := do
  let strvalue := pointerArg (args s.args)
  let value := if strvalue = 0 then literal "" else pointed strvalue
  let out ← fmtstr d value s.width s.precision s.flags s.out
  some (s.took.reset out)

def pointerConv : Option State :=
  let strvalue := pointerArg (args s.args)
  if strvalue = 0 then do
    let out ← fmtstr d (literal "(nil)") s.width (-1) s.flags s.out
    some (s.took.reset out)
  else
    let flags := { s.flags with num := true, isUnsigned := true }
    some (s.took.reset (fmtint d strvalue 16 s.width s.precision flags s.out))

def countConv : State :=
  s.took.reset (s.out.put (pointerArg (args s.args))
    (beBytes (countBytes longBits s.cflags) s.out.len))

def convRound : Option State :=
  if s.ch = 100 ∨ s.ch = 105 then
    some (s.took.reset (fmtint d (intArg longBits s.cflags (args s.args)) 10 s.width s.precision
      s.flags s.out))
  else if s.ch = 88 then unsignedConv longBits d args s 16 true
  else if s.ch = 120 then unsignedConv longBits d args s 16 false
  else if s.ch = 111 then unsignedConv longBits d args s 8 false
  else if s.ch = 117 then unsignedConv longBits d args s 10 false
  else if s.ch = 99 then
    some (s.took.reset (outchar d (UInt8.ofBitVec ((args s.args).setWidth 8)) s.out))
  else if s.ch = 115 then stringConv d args s
  else if s.ch = 112 then pointerConv d args s
  else if s.ch = 110 then some (countConv longBits args s)
  else if s.ch = 37 then some (s.reset (outchar d s.ch s.out))
  else some (s.reset s.out)

def round : Pass State (Option Left) :=
  if s.ch = 0 then .leave (some ⟨false, s⟩)
  else match s.state with
  | .default => .again (defaultRound d s)
  | .flags => .again (flagsRound s)
  | .width => widthRound args s
  | .dot => .again (dotRound s)
  | .precision => precisionRound args s
  | .mod => .again (modRound s)
  | .conv =>
    match convRound longBits d args s with
    | some s' => .again s'
    | none => .leave none

end Rounds

structure Printed where
  value : ℤ
  args : ℕ
  mem : Mem
  writes : List ℕ

def start (format : ℕ) (m : Mem) : State :=
  State.next ⟨.default, 0, format, .none, noFlags, 0, -1, 0, ⟨0, m, []⟩⟩

def finish (d : Dest) (l : Left) : Printed :=
  let o := l.state.out
  let o := if o.len < d.size then o.put (element d.str o.len) [0]
    else if d.size > 0 then o.put (element d.str (d.size - 1)) [0] else o
  ⟨if l.overflow ∨ intMax ≤ o.len then -1 else o.len, l.state.args, o.mem, o.writes⟩

/-- The rounds allowed suffice for a format as long as the address space. -/
def vsnprintf (longBits str size format : ℕ) (args : VaList) (m : Mem) : Option Printed :=
  if format = 0 then some ⟨0, 0, m, []⟩
  else do
    let d : Dest := ⟨str, if str = 0 then 0 else size⟩
    let left ← run (round longBits d args) (2 ^ 36) (start format m)
    let l ← left
    some (finish d l)

namespace State
variable (s : State)

@[simp] theorem next_state : s.next.state = s.state := rfl
@[simp] theorem next_out : s.next.out = s.out := rfl
@[simp] theorem next_args : s.next.args = s.args := rfl
@[simp] theorem next_format : s.next.format = s.format + 1 := rfl
@[simp] theorem next_ch : s.next.ch = s.out.mem s.format := rfl

variable (state : ReadState)

@[simp] theorem enter_state : (s.enter state).state = state := rfl
@[simp] theorem enter_out : (s.enter state).out = s.out := rfl
@[simp] theorem enter_args : (s.enter state).args = s.args := rfl
@[simp] theorem enter_format : (s.enter state).format = s.format := rfl
@[simp] theorem enter_ch : (s.enter state).ch = s.ch := rfl

variable (out : Output)

@[simp] theorem reset_state : (s.reset out).state = .default := rfl
@[simp] theorem reset_out : (s.reset out).out = out := rfl
@[simp] theorem reset_args : (s.reset out).args = s.args := rfl
@[simp] theorem reset_format : (s.reset out).format = s.format + 1 := rfl
@[simp] theorem reset_ch : (s.reset out).ch = out.mem s.format := rfl
@[simp] theorem took_args : s.took.args = s.args + 1 := rfl

end State

inductive Move (d : Dest) (s s' : State) : Prop where
  | takes (args : s.args < s'.args)
  | stays (args : s'.args = s.args) (out : s'.out = s.out) (format : s'.format = s.format)
      (ch : s'.ch = s.ch) (inside : s.state ≠ .default) (stays : s'.state ≠ .default)
  | reads (args : s'.args = s.args) (out : s'.out = s.out) (format : s'.format = s.format + 1)
      (ch : s'.ch = s.out.mem s.format)
      (inside : s.state ≠ .default ∨ s.ch = 37 ∧ s'.state ≠ .default)
  | readsTwo (args : s'.args = s.args) (out : s'.out = s.out) (format : s'.format = s.format + 2)
      (first : s.out.mem s.format ≠ 0) (ch : s'.ch = s.out.mem (s.format + 1))
      (inside : s.state ≠ .default)
  | prints (args : s'.args = s.args) (out : s'.out = outchar d s.ch s.out)
      (format : s'.format = s.format + 1) (ch : s'.ch = s'.out.mem s.format)
      (outside : s'.state = .default) (plain : s.state = .default → s.ch ≠ 37)

theorem Move.args_le {d : Dest} {s s' : State} (h : Move d s s') : s.args ≤ s'.args := by
  cases h with
  | takes h => exact Nat.le_of_lt h
  | stays h | reads h | readsTwo h | prints h => exact Nat.le_of_eq h.symm

section Moves
variable {longBits : ℕ} {d : Dest} {args : VaList} {s s' : State}

theorem defaultRound_moves (hs : s.state = .default) : Move d s (defaultRound d s) := by
  unfold defaultRound
  split_ifs with hp
  · exact .reads rfl rfl rfl rfl (.inr ⟨hp, by simp⟩)
  · exact .prints rfl rfl rfl rfl hs fun _ => hp

theorem flagsRound_moves (hs : s.state = .flags) : Move d s (flagsRound s) := by
  have hin : s.state ≠ .default := by simp [hs]
  have hflag (flags : Flags) : Move d s (s.flag flags) := .reads rfl rfl rfl rfl (.inl hin)
  unfold flagsRound
  split_ifs
  iterate 6 exact hflag _
  exact .stays rfl rfl rfl rfl hin (by simp)

theorem widthRound_moves (hs : s.state = .width) (h : widthRound args s = .again s') :
    Move d s s' := by
  have hin : s.state ≠ .default := by simp [hs]
  unfold widthRound at h
  by_cases hdigit : isDigit s.ch
  · rw [if_pos hdigit] at h
    split_ifs at h
    cases h
    exact .reads rfl rfl rfl rfl (.inl hin)
  · rw [if_neg hdigit] at h
    split_ifs at h
    · cases h
      exact .takes (Nat.lt_succ_self _)
    · cases h
      exact .stays rfl rfl rfl rfl hin (by simp)

theorem dotRound_moves (hs : s.state = .dot) : Move d s (dotRound s) := by
  have hin : s.state ≠ .default := by simp [hs]
  unfold dotRound
  split_ifs
  · exact .reads rfl rfl rfl rfl (.inl hin)
  · exact .stays rfl rfl rfl rfl hin (by simp)

theorem precisionRound_moves (hs : s.state = .precision) (h : precisionRound args s = .again s') :
    Move d s s' := by
  have hin : s.state ≠ .default := by simp [hs]
  unfold precisionRound at h
  by_cases hdigit : isDigit s.ch
  · simp only [if_pos hdigit] at h
    generalize (if s.precision = -1 then 0 else s.precision) = precision at h
    split_ifs at h
    cases h
    exact .reads rfl rfl rfl rfl (.inl hin)
  · simp only [if_neg hdigit] at h
    generalize (if s.precision = -1 then 0 else s.precision) = precision at h
    split_ifs at h
    · cases h
      exact .takes (Nat.lt_succ_self _)
    · cases h
      exact .stays rfl rfl rfl rfl hin (by simp)

theorem modRound_moves (hs : s.state = .mod) : Move d s (modRound s) := by
  have hin : s.state ≠ .default := by simp [hs]
  have hdoubled {letter : UInt8} (h0 : letter ≠ 0) (once twice : CFlags) :
      Move d s ((doubled s letter once twice).enter .conv) := by
    unfold doubled
    dsimp only
    split_ifs with htwice
    · refine .readsTwo rfl rfl rfl ?_ rfl hin
      rw [State.next_ch] at htwice
      exact htwice ▸ h0
    · exact .reads rfl rfl rfl rfl (.inl hin)
  unfold modRound
  split_ifs
  · exact hdoubled (by decide) _ _
  · exact hdoubled (by decide) _ _
  iterate 3 exact .reads rfl rfl rfl rfl (.inl hin)
  exact .stays rfl rfl rfl rfl hin (by simp)

theorem convRound_moves (hs : s.state = .conv) (h : convRound longBits d args s = some s') :
    Move d s s' := by
  have htook (out : Output) : Move d s (s.took.reset out) := .takes (Nat.lt_succ_self _)
  have hin : s.state ≠ .default := by simp [hs]
  unfold convRound at h
  iterate 6
    obtain ⟨-, h⟩ | ⟨-, h⟩ := ite_eq_iff.mp h
    · cases h
      exact htook _
  obtain ⟨-, h⟩ | ⟨-, h⟩ := ite_eq_iff.mp h
  · obtain ⟨out, -, hout⟩ := Option.bind_eq_some_iff.mp h
    cases hout
    exact htook _
  obtain ⟨-, h⟩ | ⟨-, h⟩ := ite_eq_iff.mp h
  · obtain ⟨-, h⟩ | ⟨-, h⟩ := ite_eq_iff.mp h
    · obtain ⟨out, -, hout⟩ := Option.bind_eq_some_iff.mp h
      cases hout
      exact htook _
    · cases h
      exact htook _
  obtain ⟨-, h⟩ | ⟨-, h⟩ := ite_eq_iff.mp h
  · cases h
    exact htook _
  obtain ⟨-, h⟩ | ⟨-, h⟩ := ite_eq_iff.mp h
  · cases h
    exact .prints rfl rfl rfl rfl rfl fun hd => absurd hd hin
  · cases h
    exact .reads rfl rfl rfl rfl (.inl hin)

theorem round_moves (h : round longBits d args s = .again s') : Move d s s' ∧ s.ch ≠ 0 := by
  unfold round at h
  split_ifs at h with h0
  refine ⟨?_, h0⟩
  cases hs : s.state with
  | default =>
    rw [hs] at h
    exact Pass.again.inj h ▸ defaultRound_moves hs
  | flags =>
    rw [hs] at h
    exact Pass.again.inj h ▸ flagsRound_moves hs
  | width =>
    rw [hs] at h
    exact widthRound_moves hs h
  | dot =>
    rw [hs] at h
    exact Pass.again.inj h ▸ dotRound_moves hs
  | precision =>
    rw [hs] at h
    exact precisionRound_moves hs h
  | mod =>
    rw [hs] at h
    exact Pass.again.inj h ▸ modRound_moves hs
  | conv =>
    rw [hs] at h
    dsimp only at h
    split at h
    · cases h
      exact convRound_moves hs ‹_›
    · cases h

theorem round_leaves {l : Left} (h : round longBits d args s = .leave (some l)) :
    l.overflow = false ∧ l.state = s ∧ s.ch = 0 ∨ l.overflow = true := by
  unfold round at h
  split_ifs at h with h0
  · cases h
    exact .inl ⟨rfl, rfl, h0⟩
  · cases hs : s.state with
    | width =>
      rw [hs] at h
      unfold widthRound at h
      split_ifs at h
      cases h
      exact .inr rfl
    | precision =>
      rw [hs] at h
      unfold precisionRound at h
      dsimp only at h
      generalize (if s.precision = -1 then 0 else s.precision) = precision at h
      split_ifs at h
      cases h
      exact .inr rfl
    | conv =>
      rw [hs] at h
      dsimp only at h
      split at h <;> cases h
    | _ =>
      rw [hs] at h
      cases h

end Moves

end Patchwork.Printf
