import Patchwork.PlainFormat

/-!
# Formats and their texts

A format as its author reads it: literal characters and directives with flags, a
width, a precision, a length modifier and a conversion. `chars` is how a format is
spelled and `rendered` the text it stands for.
-/

namespace Patchwork.FormatText
open ByteMemory Printf

inductive Flag where
  | minus
  | plus
  | space
  | num
  | zero
  | quote
deriving DecidableEq, Repr

def Flag.char : Flag → UInt8
  | minus => 45
  | plus => 43
  | space => 32
  | num => 35
  | zero => 48
  | quote => 39

def Flag.set : Flag → Flags → Flags
  | minus, f => { f with minus := true }
  | plus, f => { f with plus := true }
  | space, f => { f with space := true }
  | num, f => { f with num := true }
  | zero, f => { f with zero := true }
  | quote, f => { f with quote := true }

inductive Amount where
  | digits (ds : List (Fin 10))
  | star
deriving DecidableEq, Repr

def digitChar (d : Fin 10) : UInt8 := UInt8.ofNat (48 + d)

def decimal (n : ℤ) (ds : List (Fin 10)) : ℤ := ds.foldl (fun n d => 10 * n + d) n

def Amount.chars : Amount → List UInt8
  | digits ds => ds.map digitChar
  | star => [42]

def precisionChars (p : Option Amount) : List UInt8 := p.elim [] fun a => 46 :: a.chars

def modifierChars : CFlags → List UInt8
  | .none => []
  | .char => [104, 104]
  | .short => [104]
  | .long => [108]
  | .llong => [108, 108]
  | .size => [122]
  | .ptrdiff => [116]
  | .intmax => [106]

inductive Conv where
  | d
  | i
  | X
  | x
  | o
  | u
  | c
  | s
  | p
  | percent
deriving DecidableEq, Repr

def Conv.char : Conv → UInt8
  | d => 100
  | i => 105
  | X => 88
  | x => 120
  | o => 111
  | u => 117
  | c => 99
  | s => 115
  | p => 112
  | percent => 37

structure Directive where
  flags : List Flag
  width : Amount
  precision : Option Amount
  modifier : CFlags
  conv : Conv
deriving DecidableEq, Repr

def Directive.chars (D : Directive) : List UInt8 :=
  37 :: (D.flags.map Flag.char ++ (D.width.chars ++
    (precisionChars D.precision ++ (modifierChars D.modifier ++ [D.conv.char]))))

def Amount.Unflagged : Amount → Prop
  | digits ds => ds.head? ≠ some 0
  | star => True

def Amount.InRange : Amount → Prop
  | digits ds => decimal 0 ds ≤ intMax
  | star => True

instance : DecidablePred Amount.Unflagged
  | .digits ds => inferInstanceAs (Decidable (ds.head? ≠ some 0))
  | .star => inferInstanceAs (Decidable True)

instance : DecidablePred Amount.InRange
  | .digits ds => inferInstanceAs (Decidable (decimal 0 ds ≤ intMax))
  | .star => inferInstanceAs (Decidable True)

structure Directive.Formed (D : Directive) : Prop where
  unflagged : D.width.Unflagged
  width : D.width.InRange
  precision : ∀ a ∈ D.precision, a.InRange

instance (D : Directive) : Decidable D.Formed :=
  decidable_of_iff (D.width.Unflagged ∧ D.width.InRange ∧ ∀ a ∈ D.precision, a.InRange)
    ⟨fun ⟨hu, hw, hp⟩ => ⟨hu, hw, hp⟩, fun ⟨hu, hw, hp⟩ => ⟨hu, hw, hp⟩⟩

inductive Piece where
  | literal (ch : UInt8)
  | directive (D : Directive)
deriving DecidableEq, Repr

def Piece.chars : Piece → List UInt8
  | literal ch => [ch]
  | directive D => D.chars

def Piece.Formed : Piece → Prop
  | literal ch => ch ≠ 0 ∧ ch ≠ 37
  | directive D => D.Formed

instance : DecidablePred Piece.Formed
  | .literal ch => inferInstanceAs (Decidable (ch ≠ 0 ∧ ch ≠ 37))
  | .directive D => inferInstanceAs (Decidable D.Formed)

def chars (ps : List Piece) : List UInt8 := ps.flatMap Piece.chars

/-- What a directive comes to before its conversion, and the argument it takes next. -/
structure Spec where
  cflags : CFlags
  flags : Flags
  width : ℤ
  precision : ℤ
  args : ℕ

def Spec.initial (k : ℕ) : Spec := ⟨.none, noFlags, 0, -1, k⟩

def stringText (width precision : ℤ) (flags : Flags) (t : List UInt8) : List UInt8 :=
  let shown := if precision = -1 then t else t.take precision.toNat
  let spaces := List.replicate (int32 (width - shown.length)).toNat 32
  if flags.minus then shown ++ spaces else spaces ++ shown

def nilText : List UInt8 := [40, 110, 105, 108, 41]

section Meaning
variable (longBits : ℕ) (args : VaList) (string : ℕ → List UInt8)

namespace Spec
variable (f : Spec)

def withFlags (fs : List Flag) : Spec := { f with flags := fs.foldl (fun g fl => fl.set g) f.flags }

/-- A negative width is a `-` flag and a width, but for the smallest `int`, which is its own
negative. -/
def withWidth : Amount → Spec
  | .digits ds => { f with width := decimal f.width ds }
  | .star =>
    let width := intOf (args f.args)
    { f with
      width := if width < 0 then int32 (-width) else width
      flags := if width < 0 then { f.flags with minus := true } else f.flags
      args := f.args + 1 }

def withPrecision : Option Amount → Spec
  | none => f
  | some (.digits ds) => { f with precision := decimal 0 ds }
  | some .star =>
    let precision := intOf (args f.args)
    { f with precision := if precision < 0 then -1 else precision, args := f.args + 1 }

def unsignedText (base : ℕ) (up : Bool) : List UInt8 :=
  intText (uintArg longBits f.cflags (args f.args)) base f.width f.precision
    { f.flags with isUnsigned := true, up := f.flags.up || up }

def text : Conv → List UInt8
  | .d | .i => intText (intArg longBits f.cflags (args f.args)) 10 f.width f.precision f.flags
  | .X => f.unsignedText longBits args 16 true
  | .x => f.unsignedText longBits args 16 false
  | .o => f.unsignedText longBits args 8 false
  | .u => f.unsignedText longBits args 10 false
  | .c => [UInt8.ofBitVec ((args f.args).setWidth 8)]
  | .s =>
    let strvalue := pointerArg (args f.args)
    stringText f.width f.precision f.flags (if strvalue = 0 then [] else string strvalue)
  | .p =>
    let strvalue := pointerArg (args f.args)
    if strvalue = 0 then stringText f.width (-1) f.flags nilText
    else intText strvalue 16 f.width f.precision { f.flags with num := true, isUnsigned := true }
  | .percent => [37]

end Spec

def Conv.arity : Conv → ℕ
  | .percent => 0
  | _ => 1

def Directive.spec (D : Directive) (k : ℕ) : Spec :=
  let f := ((Spec.initial k).withFlags D.flags).withWidth args D.width
  { f.withPrecision args D.precision with cflags := D.modifier }

inductive Item where
  | literal (ch : UInt8)
  | conversion (f : Spec) (conv : Conv)
  | count (f : Spec)

def Piece.item (k : ℕ) : Piece → Item
  | .literal ch => .literal ch
  | .directive D => .conversion (D.spec args k) D.conv

def Item.text : Item → List UInt8
  | .literal ch => [ch]
  | .conversion f conv => f.text longBits args string conv
  | .count _ => []

def Item.after (k : ℕ) : Item → ℕ
  | .literal _ => k
  | .conversion f conv => f.args + conv.arity
  | .count f => f.args + 1

def items : List Piece → ℕ → List Item
  | [], _ => []
  | p :: ps, k => p.item args k :: items ps ((p.item args k).after k)

def taken : List Piece → ℕ → ℕ
  | [], k => k
  | p :: ps, k => taken ps ((p.item args k).after k)

def rendered (ps : List Piece) (k : ℕ) : List UInt8 :=
  (items args ps k).flatMap (Item.text longBits args string)

end Meaning
end Patchwork.FormatText
