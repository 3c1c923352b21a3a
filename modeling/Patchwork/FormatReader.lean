import Patchwork.FormatText

/-!
# A format read one character at a time

What `Vsnprintf` makes of any format, well formed or not: a reader that takes each
character once and looks at no memory. A conversion that it does not know is skipped,
and a width or a precision above `INT_MAX` is an overflow.
-/

namespace Patchwork.FormatReader
open Printf FormatText

inductive Mode where
  | settled (state : ReadState)
  | half (letter : UInt8) (twice : CFlags)
deriving DecidableEq, Repr

structure Reader where
  mode : Mode
  spec : Spec
  items : List Item

def flagOf (ch : UInt8) : Option Flag :=
  [Flag.minus, .plus, .space, .num, .zero, .quote].find? fun fl => fl.char = ch

def convOf (ch : UInt8) : Option Conv :=
  [Conv.d, .i, .X, .x, .o, .u, .c, .s, .p, .percent].find? fun conv => conv.char = ch

def begun (f : Spec) : ℤ := if f.precision = -1 then 0 else f.precision

namespace Reader

def start (k : ℕ) (is : List Item) : Reader := ⟨.settled .default, Spec.initial k, is⟩

def settled (state : ReadState) (f : Spec) (is : List Item) : Reader := ⟨.settled state, f, is⟩

end Reader

section Steps
variable (args : VaList) (f : Spec) (is : List Item) (ch : UInt8)

def takeConv : Reader :=
  match convOf ch with
  | some conv => .start (f.args + conv.arity) (is ++ [.conversion f conv])
  | none => if ch = 110 then .start (f.args + 1) (is ++ [.count f]) else .start f.args is

def takeModifier : Reader :=
  if ch = 104 then ⟨.half 104 .char, { f with cflags := .short }, is⟩
  else if ch = 108 then ⟨.half 108 .llong, { f with cflags := .long }, is⟩
  else if ch = 106 then .settled .conv { f with cflags := .intmax } is
  else if ch = 116 then .settled .conv { f with cflags := .ptrdiff } is
  else if ch = 122 then .settled .conv { f with cflags := .size } is
  else takeConv f is ch

def takePrecision : Except Reader Reader :=
  if isDigit ch then
    if begun f > (intMax - charToInt ch) / 10 then .error (.settled .precision f is)
    else .ok (.settled .precision { f with precision := 10 * begun f + charToInt ch } is)
  else if ch = 42 then .ok (.settled .mod (f.withPrecision args (some .star)) is)
  else .ok (takeModifier { f with precision := begun f } is ch)

def takeDot : Reader := if ch = 46 then .settled .precision f is else takeModifier f is ch

def takeWidth : Except Reader Reader :=
  if isDigit ch then
    if f.width > (intMax - charToInt ch) / 10 then .error (.settled .width f is)
    else .ok (.settled .width { f with width := 10 * f.width + charToInt ch } is)
  else if ch = 42 then .ok (.settled .dot (f.withWidth args .star) is)
  else .ok (takeDot f is ch)

def takeFlag : Except Reader Reader :=
  match flagOf ch with
  | some fl => .ok (.settled .flags { f with flags := fl.set f.flags } is)
  | none => takeWidth args f is ch

def readChar (args : VaList) : Reader → UInt8 → Except Reader Reader
  | ⟨.settled .default, f, is⟩, ch =>
    .ok (if ch = 37 then .settled .flags f is else .settled .default f (is ++ [.literal ch]))
  | ⟨.settled .flags, f, is⟩, ch => takeFlag args f is ch
  | ⟨.settled .width, f, is⟩, ch => takeWidth args f is ch
  | ⟨.settled .dot, f, is⟩, ch => .ok (takeDot f is ch)
  | ⟨.settled .precision, f, is⟩, ch => takePrecision args f is ch
  | ⟨.settled .mod, f, is⟩, ch => .ok (takeModifier f is ch)
  | ⟨.settled .conv, f, is⟩, ch => .ok (takeConv f is ch)
  | ⟨.half letter twice, f, is⟩, ch =>
    .ok (if ch = letter then .settled .conv { f with cflags := twice } is else takeConv f is ch)

end Steps

def readAll (args : VaList) : List UInt8 → Reader → Except Reader Reader
  | [], r => .ok r
  | ch :: cs, r => (readChar args r ch).bind (readAll args cs)

def stop : Except Reader Reader → Reader
  | .ok r => r
  | .error r => r

def overflows : Except Reader Reader → Bool
  | .ok _ => false
  | .error _ => true

/-- How a call of `Vsnprintf` reads its format. -/
def readFormat (args : VaList) (cs : List UInt8) : Except Reader Reader :=
  readAll args cs (.start 0 [])

section Grows
variable {args : VaList} {f : Spec} {is : List Item} {ch : UInt8}

theorem takeConv_grows : is <+: (takeConv f is ch).items := by
  unfold takeConv
  cases convOf ch with
  | some conv => exact List.prefix_append ..
  | none =>
    dsimp only
    split_ifs
    · exact List.prefix_append ..
    · exact List.prefix_refl is

theorem takeModifier_grows : is <+: (takeModifier f is ch).items := by
  unfold takeModifier
  split_ifs
  all_goals first | exact List.prefix_refl is | exact takeConv_grows

theorem takeDot_grows : is <+: (takeDot f is ch).items := by
  unfold takeDot
  split_ifs
  · exact List.prefix_refl is
  · exact takeModifier_grows

theorem takePrecision_grows : is <+: (stop (takePrecision args f is ch)).items := by
  unfold takePrecision
  split_ifs
  all_goals first | exact List.prefix_refl is | exact takeModifier_grows

theorem takeWidth_grows : is <+: (stop (takeWidth args f is ch)).items := by
  unfold takeWidth
  split_ifs
  all_goals first | exact List.prefix_refl is | exact takeDot_grows

theorem takeFlag_grows : is <+: (stop (takeFlag args f is ch)).items := by
  unfold takeFlag
  cases flagOf ch with
  | some fl => exact List.prefix_refl is
  | none => exact takeWidth_grows

theorem readChar_grows (args : VaList) (r : Reader) (ch : UInt8) :
    r.items <+: (stop (readChar args r ch)).items := by
  obtain ⟨state | ⟨letter, twice⟩, f, is⟩ := r
  · cases state with
    | default =>
      simp only [readChar, stop]
      split_ifs
      · exact List.prefix_refl is
      · exact List.prefix_append ..
    | flags => exact takeFlag_grows
    | width => exact takeWidth_grows
    | dot => exact takeDot_grows
    | precision => exact takePrecision_grows
    | mod => exact takeModifier_grows
    | conv => exact takeConv_grows
  · simp only [readChar, stop]
    split_ifs
    · exact List.prefix_refl is
    · exact takeConv_grows

theorem readAll_grows (cs : List UInt8) (r : Reader) :
    r.items <+: (stop (readAll args cs r)).items := by
  induction cs generalizing r with
  | nil => exact List.prefix_refl r.items
  | cons ch cs ih =>
    have hchar := readChar_grows args r ch
    rw [readAll]
    cases hread : readChar args r ch with
    | error r' =>
      rw [hread] at hchar
      exact hchar
    | ok r' =>
      rw [hread] at hchar
      exact hchar.trans (ih r')

end Grows

theorem flagOf_char (fl : Flag) : flagOf fl.char = some fl := by
  cases fl <;> rfl

theorem convOf_char (conv : Conv) : convOf conv.char = some conv := by
  cases conv <;> rfl

theorem digitChar_eq : ∀ n : Fin 10, digitChar n ≠ 0 ∧ isDigit (digitChar n) = true ∧
    charToInt (digitChar n) = n ∧ (n ≠ 0 → flagOf (digitChar n) = none) := by
  decide

theorem decimal_cons (n : ℤ) (a : Fin 10) (ds : List (Fin 10)) :
    decimal n (a :: ds) = decimal (10 * n + a) ds := rfl

theorem le_decimal {n : ℤ} (hn : 0 ≤ n) (ds : List (Fin 10)) : n ≤ decimal n ds := by
  induction ds generalizing n with
  | nil => exact Int.le_refl n
  | cons a ds ih =>
    have := ih (n := 10 * n + a) (by omega)
    rw [decimal_cons]
    omega

def followers : List UInt8 :=
  [46, 104, 108, 106, 116, 122, 100, 105, 88, 120, 111, 117, 99, 115, 112, 37]

theorem follower_eq : ∀ ch ∈ followers, isDigit ch = false ∧ ch ≠ 42 ∧ flagOf ch = none := by
  have hall : followers.all fun ch => !isDigit ch && ch != 42 && (flagOf ch).isNone := by rfl
  intro ch hch
  simpa [and_assoc] using List.all_eq_true.mp hall ch hch

section Pieces
variable {args : VaList} {r : Reader} {f : Spec} {is : List Item} {cs : List UInt8}
  {ch : UInt8}

theorem readAll_cons {r' : Reader} (h : readChar args r ch = .ok r') :
    readAll args (ch :: cs) r = readAll args cs r' := by
  rw [readAll, h]
  rfl

theorem readAll_congr {r' : Reader} (h : readChar args r ch = readChar args r' ch) :
    readAll args (ch :: cs) r = readAll args (ch :: cs) r' := by
  rw [readAll, readAll, h]

theorem readAll_flags (fs : List Flag) :
    readAll args (fs.map Flag.char ++ cs) (.settled .flags f is) =
      readAll args cs (.settled .flags (f.withFlags fs) is) := by
  induction fs generalizing f with
  | nil => rfl
  | cons fl fs ih =>
    have hread : readChar args (.settled .flags f is) fl.char =
        .ok (.settled .flags { f with flags := fl.set f.flags } is) := by
      simp only [readChar, Reader.settled, takeFlag, flagOf_char]
    exact (readAll_cons hread).trans ih

theorem readAll_flags_end (h : flagOf ch = none) :
    readAll args (ch :: cs) (.settled .flags f is) =
      readAll args (ch :: cs) (.settled .width f is) := by
  refine readAll_congr ?_
  simp only [readChar, Reader.settled, takeFlag, h]

theorem readAll_width_digits {ds : List (Fin 10)} (hw : 0 ≤ f.width)
    (hfit : decimal f.width ds ≤ intMax) :
    readAll args (ds.map digitChar ++ cs) (.settled .width f is) =
      readAll args cs (.settled .width { f with width := decimal f.width ds } is) := by
  induction ds generalizing f with
  | nil => rfl
  | cons a ds ih =>
    rw [decimal_cons] at hfit ⊢
    obtain ⟨-, hdigit, hvalue, -⟩ := digitChar_eq a
    have hle := le_decimal (n := 10 * f.width + a) (by omega) ds
    have hread : readChar args (.settled .width f is) (digitChar a) =
        .ok (.settled .width { f with width := 10 * f.width + a } is) := by
      simp only [readChar, Reader.settled, takeWidth, hdigit, hvalue, if_true]
      rw [if_neg (by omega)]
    exact (readAll_cons hread).trans (ih (by dsimp only; omega) hfit)

theorem readAll_width {a : Amount} (h : ch ∈ followers) (hw : f.width = 0) (hfit : a.InRange) :
    readAll args (a.chars ++ ch :: cs) (.settled .width f is) =
      readAll args (ch :: cs) (.settled .dot (f.withWidth args a) is) := by
  obtain ⟨hdigit, hstar, -⟩ := follower_eq ch h
  cases a with
  | star => exact readAll_cons rfl
  | digits ds =>
    refine (readAll_width_digits (Int.le_of_eq hw.symm) (hw.symm ▸ hfit)).trans ?_
    refine readAll_congr ?_
    simp [readChar, Reader.settled, takeWidth, hdigit, hstar, Spec.withWidth]

theorem readAll_precision_digits {ds : List (Fin 10)} (hp : 0 ≤ begun f)
    (hfit : decimal (begun f) ds ≤ intMax) (h : ch ∈ followers) :
    readAll args (ds.map digitChar ++ ch :: cs) (.settled .precision f is) =
      readAll args (ch :: cs) (.settled .mod { f with precision := decimal (begun f) ds } is) := by
  induction ds generalizing f with
  | nil =>
    obtain ⟨hdigit, hstar, -⟩ := follower_eq ch h
    refine readAll_congr ?_
    simp [readChar, Reader.settled, takePrecision, hdigit, hstar, decimal, takeModifier]
  | cons a ds ih =>
    rw [decimal_cons] at hfit ⊢
    obtain ⟨-, hdigit, hvalue, -⟩ := digitChar_eq a
    have hle := le_decimal (n := 10 * begun f + a) (by omega) ds
    have hread : readChar args (.settled .precision f is) (digitChar a) =
        .ok (.settled .precision { f with precision := 10 * begun f + a } is) := by
      simp only [readChar, Reader.settled, takePrecision, hdigit, hvalue, if_true]
      rw [if_neg (by omega)]
    have hbegun : begun { f with precision := 10 * begun f + a } = 10 * begun f + a :=
      if_neg (by dsimp only; omega)
    have hrest := ih (f := { f with precision := 10 * begun f + a }) (by rw [hbegun]; omega)
      (by rwa [hbegun])
    rw [hbegun] at hrest
    exact (readAll_cons hread).trans hrest

theorem readAll_precision {p : Option Amount} (h : ch ∈ followers) (hdot : ch ≠ 46)
    (hp : f.precision = -1) (hfit : ∀ a ∈ p, a.InRange) :
    readAll args (precisionChars p ++ ch :: cs) (.settled .dot f is) =
      readAll args (ch :: cs) (.settled .mod (f.withPrecision args p) is) := by
  have hbegun : begun f = 0 := if_pos hp
  rcases p with _ | ds | _
  · refine readAll_congr ?_
    simp [readChar, Reader.settled, takeDot, hdot, Spec.withPrecision]
  · have hdigits : readAll args (ds.map digitChar ++ ch :: cs) (.settled .precision f is) =
        readAll args (ch :: cs) (.settled .mod { f with precision := decimal (begun f) ds } is) :=
      readAll_precision_digits (Int.le_of_eq hbegun.symm) (hbegun.symm ▸ hfit _ rfl) h
    rw [hbegun] at hdigits
    exact (readAll_cons rfl).trans hdigits
  · exact (readAll_cons rfl).trans (readAll_cons rfl)

theorem takeConv_char (conv : Conv) : takeConv f is conv.char =
    .start (f.args + conv.arity) (is ++ [.conversion f conv]) := by
  rw [takeConv, convOf_char]

theorem readAll_conv {M : CFlags} {conv : Conv} (hf : f.cflags = .none) :
    readAll args (modifierChars M ++ conv.char :: cs) (.settled .mod f is) = readAll args cs
      (.start (f.args + conv.arity) (is ++ [.conversion { f with cflags := M } conv])) := by
  have hconv (g : Spec) : readChar args (.settled .conv g is) conv.char =
      .ok (.start (g.args + conv.arity) (is ++ [.conversion g conv])) :=
    congrArg Except.ok (takeConv_char conv)
  cases M with
  | none =>
    have hplain : takeModifier f is conv.char = takeConv f is conv.char := by
      cases conv <;> rfl
    refine readAll_cons ?_
    rw [← hf]
    exact congrArg Except.ok (hplain.trans (takeConv_char conv))
  | short | long =>
    refine (readAll_cons rfl).trans (readAll_cons ?_)
    cases conv <;> rfl
  | char | llong =>
    exact (readAll_cons rfl).trans ((readAll_cons rfl).trans (readAll_cons (hconv _)))
  | size | ptrdiff | intmax => exact (readAll_cons rfl).trans (readAll_cons (hconv _))

theorem modifier_head (M : CFlags) (conv : Conv) (cs : List UInt8) : ∃ ch cs',
    modifierChars M ++ conv.char :: cs = ch :: cs' ∧ ch ∈ followers ∧ ch ≠ 46 := by
  cases M with
  | none => exact ⟨conv.char, cs, rfl, by cases conv <;> decide, by cases conv <;> decide⟩
  | char | short | long | llong | size | ptrdiff | intmax => exact ⟨_, _, rfl, by decide, by decide⟩

theorem precision_head (p : Option Amount) (M : CFlags) (conv : Conv) (cs : List UInt8) :
    ∃ ch cs', precisionChars p ++ (modifierChars M ++ conv.char :: cs) = ch :: cs' ∧
      ch ∈ followers := by
  cases p with
  | none =>
    obtain ⟨ch, cs', heq, hch, -⟩ := modifier_head M conv cs
    exact ⟨ch, cs', heq, hch⟩
  | some a => exact ⟨46, _, rfl, by decide⟩

theorem width_head {w : Amount} (hw : w.Unflagged) (h : ch ∈ followers) (cs : List UInt8) :
    ∃ ch' cs', w.chars ++ ch :: cs = ch' :: cs' ∧ flagOf ch' = none := by
  rcases w with (_ | ⟨a, ds⟩) | _
  · exact ⟨ch, cs, rfl, (follower_eq ch h).2.2⟩
  · exact ⟨digitChar a, _, rfl, (digitChar_eq a).2.2.2 fun h0 => hw (h0 ▸ rfl)⟩
  · exact ⟨42, _, rfl, by decide⟩

theorem readAll_directive {D : Directive} {j : ℕ} (hD : D.Formed) :
    readAll args (D.chars ++ cs) (.start j is) = readAll args cs
      (.start ((D.spec args j).args + D.conv.arity)
        (is ++ [.conversion (D.spec args j) D.conv])) := by
  let f := (Spec.initial j).withFlags D.flags
  let g := f.withWidth args D.width
  let fromModifier := modifierChars D.modifier ++ D.conv.char :: cs
  let fromPrecision := precisionChars D.precision ++ fromModifier
  have hspelled : D.chars ++ cs = 37 :: (D.flags.map Flag.char ++
      (D.width.chars ++ fromPrecision)) := by
    simp [Directive.chars, fromPrecision, fromModifier]
  have hprecision : g.precision = -1 := by
    dsimp only [g]
    cases D.width <;> rfl
  have hcflags : (g.withPrecision args D.precision).cflags = .none := by
    dsimp only [g]
    rcases D.precision with _ | _ | _ <;> cases D.width <;> rfl
  obtain ⟨ch, cs₁, hhead, hch⟩ := precision_head D.precision D.modifier D.conv cs
  obtain ⟨ch', cs₂, hhead', hflag⟩ := width_head hD.unflagged hch cs₁
  obtain ⟨ch'', cs₃, hhead'', hch'', hdot⟩ := modifier_head D.modifier D.conv cs
  change fromPrecision = ch :: cs₁ at hhead
  change fromModifier = ch'' :: cs₃ at hhead''
  rw [hspelled]
  calc readAll args (37 :: (D.flags.map Flag.char ++ (D.width.chars ++ fromPrecision)))
        (.start j is)
      = readAll args (D.flags.map Flag.char ++ (D.width.chars ++ fromPrecision))
        (.settled .flags (Spec.initial j) is) := readAll_cons rfl
    _ = readAll args (D.width.chars ++ fromPrecision) (.settled .flags f is) :=
        readAll_flags D.flags
    _ = readAll args (D.width.chars ++ fromPrecision) (.settled .width f is) := by
        rw [hhead, hhead']
        exact readAll_flags_end hflag
    _ = readAll args fromPrecision (.settled .dot g is) := by
        rw [hhead]
        exact readAll_width hch rfl hD.width
    _ = readAll args fromModifier (.settled .mod (g.withPrecision args D.precision) is) := by
        dsimp only [fromPrecision]
        rw [hhead'']
        exact readAll_precision hch'' hdot hprecision hD.precision
    _ = _ := readAll_conv hcflags

theorem readAll_chars {ps : List Piece} (hps : ∀ p ∈ ps, p.Formed) (j : ℕ) (is : List Item) :
    readAll args (chars ps) (.start j is) =
      .ok (.start (taken args ps j) (is ++ items args ps j)) := by
  induction ps generalizing j is with
  | nil =>
    rw [items, List.append_nil]
    rfl
  | cons p ps ih =>
    have hrest := ih fun p' hp' => hps p' (List.mem_cons_of_mem _ hp')
    have hp := hps p List.mem_cons_self
    rw [show chars (p :: ps) = p.chars ++ chars ps from rfl, taken, items, List.append_cons]
    cases p with
    | literal ch =>
      have hread : readChar args (.start j is) ch = .ok (.start j (is ++ [.literal ch])) :=
        congrArg Except.ok (if_neg hp.2)
      exact (readAll_cons hread).trans (hrest j _)
    | directive D => exact (readAll_directive hp).trans (hrest _ _)

end Pieces

end Patchwork.FormatReader
