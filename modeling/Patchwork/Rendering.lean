import Patchwork.FormatReader

/-!
# The formatter prints what its format stands for

One directive is followed through the read states of `Vsnprintf`, and the pieces
of a format one after the other.
-/

namespace Patchwork.Rendering
open ByteMemory BoundedLoop Printf PlainFormat FormatText FormatReader

structure Holds (d : Dest) (m : Mem) (t : List UInt8) (o : Output) : Prop where
  len : o.len = t.length
  mem : o.mem = store m d.str (t.take (d.size - 1))
  writes : ∀ a ∈ o.writes, d.str ≤ a ∧ a < d.str + d.size

section Texts
variable {d : Dest} {m : Mem} {t cs : List UInt8} {o : Output} {ch : UInt8}

theorem Holds.changes (h : Holds d m t o) : ChangesIn [(d.str, d.size)] m o.mem := by
  rw [h.mem]
  refine .store (r := (d.str, d.size)) (by simp) (Nat.le_refl _) ?_
  simp only [List.length_take]
  omega

theorem Holds.outchar (h : Holds d m t o) (hd : d.str + d.size ≤ 2 ^ 32)
    (hlen : t.length + 1 < 2 ^ 32) (ch : UInt8) : Holds d m (t ++ [ch]) (outchar d ch o) := by
  have hlen' : o.len + 1 < 2 ^ 32 := by rwa [h.len]
  by_cases hsize : o.len + 1 < d.size
  · have hfit : t.length < d.size - 1 := by
      have := h.len
      omega
    rw [outchar_inside hlen' hsize]
    refine ⟨by simp [Output.put, h.len], ?_, ?_⟩
    · rw [Output.put, element_eq (by omega)]
      dsimp only
      rw [h.mem, h.len, List.take_of_length_le (by omega),
        List.take_of_length_le (by simp; omega), store_append]
    · intro a ha
      rcases List.mem_append.mp ha with ha | ha
      · exact h.writes a ha
      · rw [element_eq (by omega)] at ha
        simp only [List.length_singleton, List.range_one, List.map_cons, Nat.add_zero,
          List.map_nil, List.mem_singleton] at ha
        omega
  · have hfull : d.size - 1 ≤ t.length := by
      have := h.len
      omega
    rw [outchar_outside hlen' hsize]
    refine ⟨by simp [h.len], ?_, h.writes⟩
    rw [List.take_append_of_le_length hfull]
    exact h.mem

theorem Holds.outchars (h : Holds d m t o) (hd : d.str + d.size ≤ 2 ^ 32)
    (hlen : (t ++ cs).length < 2 ^ 32) : Holds d m (t ++ cs) (outchars d cs o) := by
  induction cs generalizing t o with
  | nil => rwa [List.append_nil]
  | cons c cs ih =>
    rw [List.append_cons] at hlen ⊢
    refine ih (h.outchar hd ?_ c) hlen
    simp only [List.length_append, List.length_singleton] at hlen ⊢
    omega

end Texts

structure Reads (value : Chars) (precision : ℤ) (t : List UInt8) (m : Mem) : Prop where
  char : ∀ i (h : i < t.length), value m i = t[i]
  nonzero : 0 ∉ t
  stop : value m t.length = 0 ∨ precision ≠ -1 ∧ precision ≤ t.length

def shown (precision : ℤ) (t : List UInt8) : List UInt8 :=
  if precision = -1 then t else t.take precision.toNat

section Strings
variable {d : Dest} {m : Mem} {t s : List UInt8} {value : Chars} {width precision : ℤ}
  {flags : Flags} {o : Output}

theorem shown_length (hp : -1 ≤ precision) :
    (shown precision s).length = s.length ∧ (precision = -1 ∨ s.length ≤ precision) ∨
      ((shown precision s).length : ℤ) = precision ∧ precision < s.length := by
  unfold shown
  split_ifs with h
  · exact .inl ⟨rfl, .inl h⟩
  · rw [List.length_take]
    omega

theorem shown_isPrefix (precision : ℤ) (s : List UInt8) : shown precision s <+: s := by
  unfold shown
  split_ifs
  · exact List.prefix_refl s
  · exact List.take_prefix _ _

theorem Reads.within_iff (h : Reads value precision s m) (hp : -1 ≤ precision) {i : ℕ}
    (hi : i ≤ (shown precision s).length) :
    Within value precision m i ↔ i < (shown precision s).length := by
  unfold Within
  rcases shown_length (s := s) hp with ⟨hlen, hcut⟩ | ⟨hlen, hcut⟩
  · rw [hlen] at hi ⊢
    constructor
    · rintro ⟨hne, hwithin⟩
      refine Nat.lt_of_le_of_ne hi fun he => ?_
      subst he
      rcases h.stop with hstop | ⟨hne', hle⟩
      · exact hne hstop
      · omega
    · intro hlt
      refine ⟨fun h0 => h.nonzero ?_, by omega⟩
      rw [← h0, h.char i hlt]
      exact List.getElem_mem hlt
  · constructor
    · rintro ⟨-, hwithin⟩
      omega
    · intro hlt
      have hlt' : i < s.length := by omega
      refine ⟨fun h0 => h.nonzero ?_, by omega⟩
      rw [← h0, h.char i hlt']
      exact List.getElem_mem hlt'

theorem strln_eq (h : Reads value precision s m) (hp : -1 ≤ precision)
    (hlen : s.length < 2 ^ 32) :
    run (strlnRound value precision m) (2 ^ 32) 0 = some (shown precision s).length := by
  have hle := (shown_isPrefix precision s).length_le
  have hrounds : (shown precision s).length - 0 < 2 ^ 32 := by omega
  obtain ⟨r, hr, rfl⟩ := run_spec (strlnRound value precision m)
    (fun i => i ≤ (shown precision s).length) (fun i => (shown precision s).length - i)
    (fun r => r = (shown precision s).length)
    (fun i i' hi hb => by
      unfold strlnRound at hb
      split_ifs at hb with hw
      cases hb
      have := (h.within_iff hp hi).mp hw
      omega)
    (fun i r hi hb => by
      unfold strlnRound at hb
      split_ifs at hb with hw
      cases hb
      have := mt (h.within_iff hp hi).mpr hw
      omega)
    (Nat.zero_le _) hrounds
  exact hr

theorem fmtstrRounds (hd : d.str + d.size ≤ 2 ^ 32)
    (h : ∀ m', ChangesIn [(d.str, d.size)] m m' → Reads value precision s m')
    (hp : -1 ≤ precision) (ho : Holds d m t o) (hlen : (t ++ shown precision s).length < 2 ^ 32) :
    ∃ o', run (fmtstrRound d value precision) (2 ^ 32) (0, o) = some o' ∧
      Holds d m (t ++ shown precision s) o' := by
  have hsum := hlen
  rw [List.length_append] at hsum
  refine run_spec (fmtstrRound d value precision)
    (fun x => x.1 ≤ (shown precision s).length ∧ Holds d m (t ++ (shown precision s).take x.1) x.2)
    (fun x => (shown precision s).length - x.1) _ (fun x x' hx hb => ?_) (fun x r hx hb => ?_)
    (by simpa using ho) (by dsimp only; omega)
  · obtain ⟨i, o⟩ := x
    obtain ⟨hi, hx⟩ := hx
    have hreads := h o.mem hx.changes
    unfold fmtstrRound at hb
    dsimp only at hb
    split_ifs at hb with hw
    cases hb
    have hlt := (hreads.within_iff hp hi).mp hw
    have hchar : value o.mem i = (shown precision s)[i] := by
      rw [(shown_isPrefix precision s).getElem hlt, hreads.char]
    refine ⟨⟨hlt, ?_⟩, by dsimp only; omega⟩
    dsimp only at hx ⊢
    rw [List.take_succ_eq_append_getElem hlt, ← List.append_assoc, hchar]
    refine hx.outchar hd ?_ _
    rw [List.length_append, List.length_take]
    omega
  · obtain ⟨i, o⟩ := x
    obtain ⟨hi, hx⟩ := hx
    unfold fmtstrRound at hb
    dsimp only at hb
    split_ifs at hb with hw
    cases hb
    have hge := mt ((h _ hx.changes).within_iff hp hi).mpr hw
    rwa [List.take_of_length_le (by omega)] at hx

theorem fmtstr_eq (hd : d.str + d.size ≤ 2 ^ 32)
    (h : ∀ m', ChangesIn [(d.str, d.size)] m m' → Reads value precision s m')
    (hp : -1 ≤ precision) (hs : s.length < 2 ^ 32) (ho : Holds d m t o)
    (hlen : (t ++ stringText width precision flags s).length < 2 ^ 32) :
    ∃ o', fmtstr d value width precision flags o = some o' ∧
      Holds d m (t ++ stringText width precision flags s) o' := by
  have htext : stringText width precision flags s =
      if flags.minus then
        shown precision s ++ List.replicate (int32 (width - (shown precision s).length)).toNat 32
      else List.replicate (int32 (width - (shown precision s).length)).toNat 32 ++
        shown precision s := rfl
  rw [htext] at hlen ⊢
  simp only [fmtstr, strln_eq (h o.mem ho.changes) hp hs, Option.bind_eq_bind, Option.bind_some]
  by_cases hminus : flags.minus
  · simp only [hminus, if_true] at hlen ⊢
    rw [← List.append_assoc] at hlen ⊢
    have hpart := hlen
    rw [List.length_append] at hpart
    obtain ⟨o', hrun, ho'⟩ := fmtstrRounds hd h hp ho (by omega)
    rw [hrun]
    exact ⟨_, rfl, ho'.outchars hd hlen⟩
  · simp only [hminus, Bool.false_eq_true, if_false] at hlen ⊢
    rw [← List.append_assoc] at hlen ⊢
    have hpart := hlen
    rw [List.length_append] at hpart
    obtain ⟨o', hrun, ho'⟩ := fmtstrRounds hd h hp (ho.outchars hd (by omega)) hlen
    rw [hrun]
    exact ⟨_, rfl, ho'⟩

end Strings

def reading (state : ReadState) (q : ℕ) (f : Spec) (o : Output) : State :=
  ⟨state, o.mem q, q + 1, f.cflags, f.flags, f.width, f.precision, f.args, o⟩

structure Supplies (d : Dest) (m : Mem) (p : ℕ) (precision : ℤ) (t : List UInt8) : Prop where
  reads : Reads (pointed p) precision t m
  apart : Apart p (t.length + 1) d.str d.size
  length : t.length < 2 ^ 32

theorem Supplies.stays {d : Dest} {m m' : Mem} {p : ℕ} {precision : ℤ} {t : List UInt8}
    (h : Supplies d m p precision t) (hm : ChangesIn [(d.str, d.size)] m m') :
    Reads (pointed p) precision t m' := by
  have hsame : ∀ i ≤ t.length, m' (p + i) = m (p + i) := fun i hi => by
    refine hm _ fun r hr => ?_
    obtain rfl := List.mem_singleton.mp hr
    have := h.apart
    unfold Apart at this
    dsimp only
    omega
  refine ⟨fun i hi => ?_, h.reads.nonzero, ?_⟩
  · exact (hsame i (by omega)).trans (h.reads.char i hi)
  · have hstop := h.reads.stop
    rwa [pointed, ← hsame _ (Nat.le_refl _)] at hstop

theorem reads_empty (precision : ℤ) (m : Mem) : Reads (literal "") precision [] m :=
  ⟨fun i hi => absurd hi (Nat.not_lt_zero i), by simp, .inl rfl⟩

theorem reads_nil (m : Mem) : Reads (literal "(nil)") (-1) nilText m := by
  have hchars : ∀ i (h : i < nilText.length),
      (("(nil)".toList[i]?).map fun c => UInt8.ofNat c.toNat).getD 0 = nilText[i] := by
    decide
  have hstop : (("(nil)".toList[nilText.length]?).map fun c => UInt8.ofNat c.toNat).getD 0 =
      (0 : UInt8) := by
    decide
  exact ⟨hchars, by decide, .inl hstop⟩

section Conversions
variable {longBits q : ℕ} {d : Dest} {args : VaList} {string : ℕ → List UInt8} {f : Spec}
  {o : Output} {m : Mem} {t : List UInt8}

def Item.Supplied (d : Dest) (m : Mem) (args : VaList) (string : ℕ → List UInt8) : Item → Prop
  | .conversion f .s => pointerArg (args f.args) ≠ 0 →
      Supplies d m (pointerArg (args f.args)) f.precision (string (pointerArg (args f.args)))
  | .count _ => False
  | _ => True

def converted (longBits : ℕ) (d : Dest) (args : VaList) (s : State) : Conv → Option State
  | .d | .i => some (s.took.reset (fmtint d (intArg longBits s.cflags (args s.args)) 10 s.width
      s.precision s.flags s.out))
  | .X => unsignedConv longBits d args s 16 true
  | .x => unsignedConv longBits d args s 16 false
  | .o => unsignedConv longBits d args s 8 false
  | .u => unsignedConv longBits d args s 10 false
  | .c => some (s.took.reset (outchar d (UInt8.ofBitVec ((args s.args).setWidth 8)) s.out))
  | .s => stringConv d args s
  | .p => pointerConv d args s
  | .percent => some (s.reset (outchar d 37 s.out))

theorem convRound_eq (longBits : ℕ) (d : Dest) (args : VaList) {s : State} {conv : Conv}
    (h : s.ch = conv.char) : convRound longBits d args s = converted longBits d args s conv := by
  unfold convRound
  rw [h]
  cases conv <;> rfl

theorem converted_reading (hd : d.str + d.size ≤ 2 ^ 32) (ho : Holds d m t o) (conv : Conv)
    (hs : Item.Supplied d m args string (.conversion f conv)) (hp : -1 ≤ f.precision)
    (hlen : (t ++ f.text longBits args string conv).length < 2 ^ 32) :
    ∃ o', converted longBits d args (reading .conv q f o) conv =
        some (reading .default (q + 1) (Spec.initial (f.args + conv.arity)) o') ∧
      Holds d m (t ++ f.text longBits args string conv) o' := by
  cases conv with
  | d | i | X | x | o | u => exact ⟨_, rfl, ho.outchars hd hlen⟩
  | c | percent => exact ⟨_, rfl, ho.outchar hd (by simpa [Spec.text] using hlen) _⟩
  | s =>
    dsimp only [Spec.text] at hlen ⊢
    by_cases hnull : pointerArg (args f.args) = 0
    · rw [if_pos hnull] at hlen ⊢
      obtain ⟨o', hrun, ho'⟩ := fmtstr_eq hd (fun m' _ => reads_empty f.precision m') hp
        (by simp) ho hlen
      refine ⟨o', ?_, ho'⟩
      simp only [converted, stringConv, reading, hnull, if_true, hrun, Option.bind_eq_bind,
        Option.bind_some]
      rfl
    · rw [if_neg hnull] at hlen ⊢
      have hstring := hs hnull
      obtain ⟨o', hrun, ho'⟩ := fmtstr_eq hd (fun m' hm => hstring.stays hm) hp hstring.length ho
        hlen
      refine ⟨o', ?_, ho'⟩
      simp only [converted, stringConv, reading, hnull, if_false, hrun, Option.bind_eq_bind,
        Option.bind_some]
      rfl
  | p =>
    dsimp only [Spec.text] at hlen ⊢
    by_cases hnull : pointerArg (args f.args) = 0
    · rw [if_pos hnull] at hlen ⊢
      obtain ⟨o', hrun, ho'⟩ := fmtstr_eq hd (fun m' _ => reads_nil m') (by decide) (by decide) ho
        hlen
      refine ⟨o', ?_, ho'⟩
      simp only [converted, pointerConv, reading, hnull, if_true, hrun, Option.bind_eq_bind,
        Option.bind_some]
      rfl
    · rw [if_neg hnull] at hlen ⊢
      refine ⟨_, ?_, ho.outchars hd hlen⟩
      simp only [converted, pointerConv, reading, hnull, if_false]
      rfl

theorem conv_round (hd : d.str + d.size ≤ 2 ^ 32) (ho : Holds d m t o) {conv : Conv}
    (h : o.mem q = conv.char) (hs : Item.Supplied d m args string (.conversion f conv))
    (hp : -1 ≤ f.precision) (hlen : (t ++ f.text longBits args string conv).length < 2 ^ 32) :
    ∃ o', Printf.round longBits d args (reading .conv q f o) =
        .again (reading .default (q + 1) (Spec.initial (f.args + conv.arity)) o') ∧
      Holds d m (t ++ f.text longBits args string conv) o' := by
  obtain ⟨o', hconv, ho'⟩ := converted_reading (q := q) hd ho conv hs hp hlen
  refine ⟨o', ?_, ho'⟩
  have hch : (reading .conv q f o).ch = conv.char := h
  have h0 : (reading .conv q f o).ch ≠ 0 := by
    rw [hch]
    cases conv <;> decide
  have hround := (convRound_eq longBits d args hch).trans hconv
  rw [Printf.round, if_neg h0]
  dsimp only [reading] at hround ⊢
  rw [hround]

end Conversions

section Format
variable {longBits q : ℕ} {d : Dest} {args : VaList} {string : ℕ → List UInt8} {f : Spec}
  {o : Output} {m : Mem} {t cs : List UInt8} {is : List Item} {ch : UInt8} {r : Reader}
  {s : State}

structure Lies (d : Dest) (m : Mem) (q : ℕ) (cs : List UInt8) : Prop where
  string : IsCString m q cs
  apart : Apart q (cs.length + 1) d.str d.size

theorem Lies.stays (h : Lies d m q cs) (ho : Holds d m t o) {i : ℕ} (hi : i ≤ cs.length) :
    o.mem (q + i) = m (q + i) := by
  refine ho.changes _ fun r hr => ?_
  obtain rfl := List.mem_singleton.mp hr
  have := h.apart
  unfold Apart at this
  dsimp only
  omega

theorem Lies.head (h : Lies d m q (ch :: cs)) (ho : Holds d m t o) : o.mem q = ch :=
  (h.stays ho (Nat.zero_le _)).trans (h.string.char (Nat.zero_lt_succ _))

theorem Lies.head_ne_zero (h : Lies d m q (ch :: cs)) : ch ≠ 0 := fun h0 =>
  h.string.nonzero (h0 ▸ List.mem_cons_self)

theorem Lies.tail (h : Lies d m q (ch :: cs)) : Lies d m (q + 1) cs := by
  obtain ⟨⟨hchars, hnonzero, hstop⟩, hapart⟩ := h
  rw [List.length_cons, Nat.add_comm] at hchars
  refine ⟨⟨(load_eq_append m [ch] cs hchars).2, fun h0 => hnonzero ?_, ?_⟩, ?_⟩
  · exact List.mem_cons_of_mem _ h0
  · rwa [List.length_cons, Nat.add_comm cs.length, ← Nat.add_assoc] at hstop
  · unfold Apart at hapart ⊢
    rw [List.length_cons] at hapart
    omega

theorem Lies.stop (h : Lies d m q []) (ho : Holds d m t o) : o.mem q = 0 :=
  (h.stays ho (Nat.le_refl _)).trans h.string.stop

def meaning (longBits : ℕ) (args : VaList) (string : ℕ → List UInt8) (is : List Item) :
    List UInt8 := is.flatMap (Item.text longBits args string)

theorem meaning_append (is is' : List Item) : meaning longBits args string (is ++ is') =
    meaning longBits args string is ++ meaning longBits args string is' := List.flatMap_append

def doublings : List (UInt8 × CFlags × CFlags) := [(104, .short, .char), (108, .long, .llong)]

/-- The loop is where the reader is. Behind one letter of a modifier it has yet to look at the
letter. -/
inductive Stands (longBits : ℕ) (d : Dest) (args : VaList) (string : ℕ → List UInt8) (m : Mem) :
    Reader → ℕ → State → Prop
  | settled {state : ReadState} {f : Spec} {is : List Item} {q : ℕ} {o : Output}
      (holds : Holds d m (meaning longBits args string is) o) (precision : -1 ≤ f.precision)
      (cflags : state ≠ .conv → f.cflags = .none) :
      Stands longBits d args string m (.settled state f is) q (reading state q f o)
  | half {letter : UInt8} {once twice : CFlags} {f : Spec} {is : List Item} {q : ℕ} {o : Output}
      (doubling : (letter, once, twice) ∈ doublings) (here : o.mem q = letter)
      (holds : Holds d m (meaning longBits args string is) o) (precision : -1 ≤ f.precision)
      (cflags : f.cflags = .none) :
      Stands longBits d args string m ⟨.half letter twice, { f with cflags := once }, is⟩ (q + 1)
        (reading .mod q f o)

/-- What the items take is there, and their text is one that can be counted. -/
structure Admits (longBits : ℕ) (d : Dest) (args : VaList) (string : ℕ → List UInt8) (m : Mem)
    (is : List Item) : Prop where
  supplied : ∀ i ∈ is, Item.Supplied d m args string i
  length : (meaning longBits args string is).length < 2 ^ 32

theorem Admits.mono {is' : List Item} (h : Admits longBits d args string m is')
    (hle : is <+: is') : Admits longBits d args string m is := by
  obtain ⟨is₁, rfl⟩ := hle
  refine ⟨fun i hi => h.supplied i (List.mem_append_left _ hi), ?_⟩
  have hlen := h.length
  rw [meaning_append, List.length_append] at hlen
  omega

def Comes (longBits : ℕ) (d : Dest) (args : VaList) (string : ℕ → List UInt8) (m : Mem) (n : ℕ)
    (s : State) (r : Reader) (q : ℕ) : Prop :=
  ∃ k ≤ n, ∃ s', Reaches (Printf.round longBits d args) k s s' ∧
    Stands longBits d args string m r q s'

theorem Stands.comes (h : Stands longBits d args string m r q s) :
    Comes longBits d args string m 0 s r q := ⟨0, Nat.le_refl _, s, .refl s, h⟩

theorem Comes.after {n : ℕ} {s' : State} (h : Comes longBits d args string m n s' r q)
    (hround : Printf.round longBits d args s = .again s') :
    Comes longBits d args string m (n + 1) s r q := by
  obtain ⟨k, hk, s₁, hreach, hstands⟩ := h
  exact ⟨1 + k, by omega, s₁, (Reaches.one hround).trans hreach, hstands⟩

theorem Comes.mono {n n' : ℕ} (h : Comes longBits d args string m n s r q) (hn : n ≤ n') :
    Comes longBits d args string m n' s r q := by
  obtain ⟨k, hk, hrest⟩ := h
  exact ⟨k, hk.trans hn, hrest⟩

section Rounds
variable (hd : d.str + d.size ≤ 2 ^ 32) (ho : Holds d m (meaning longBits args string is) o)
  (hp : -1 ≤ f.precision) (hch : o.mem q = ch) (h0 : ch ≠ 0)

include hch h0

variable (longBits d args) in
theorem round_reading (state : ReadState) : Printf.round longBits d args (reading state q f o) =
    match state with
    | .default => .again (defaultRound d (reading .default q f o))
    | .flags => .again (flagsRound (reading .flags q f o))
    | .width => widthRound args (reading .width q f o)
    | .dot => .again (dotRound (reading .dot q f o))
    | .precision => precisionRound args (reading .precision q f o)
    | .mod => .again (modRound (reading .mod q f o))
    | .conv =>
      match convRound longBits d args (reading .conv q f o) with
      | some s' => .again s'
      | none => .leave none := by
  have hne : (reading state q f o).ch ≠ 0 := by
    rw [← hch] at h0
    exact h0
  rw [Printf.round, if_neg hne]
  cases state <;> rfl

theorem unknown_round (hconv : convOf ch = none) (hcount : ch ≠ 110) :
    Printf.round longBits d args (reading .conv q f o) =
      .again (reading .default (q + 1) (Spec.initial f.args) o) := by
  have hne : ch ≠ 100 ∧ ch ≠ 105 ∧ ch ≠ 88 ∧ ch ≠ 120 ∧ ch ≠ 111 ∧ ch ≠ 117 ∧ ch ≠ 99 ∧ ch ≠ 115 ∧
      ch ≠ 112 ∧ ch ≠ 37 := by
    simpa [Conv.char, eq_comm] using List.find?_eq_none.mp hconv
  have hconvRound : convRound longBits d args (reading .conv q f o) =
      some ((reading .conv q f o).reset o) := by
    simp [convRound, reading, hch, hne, hcount]
  rw [round_reading longBits d args hch h0, hconvRound]
  rfl

include hd ho hp

theorem takeConv_comes (ha : Admits longBits d args string m (takeConv f is ch).items) :
    Comes longBits d args string m 1 (reading .conv q f o) (takeConv f is ch) (q + 1) := by
  unfold takeConv at ha ⊢
  cases hconv : convOf ch with
  | some conv =>
    rw [hconv] at ha
    have hchar : conv.char = ch := by
      simpa using List.find?_some hconv
    have hlen := ha.length
    dsimp only [Reader.start] at hlen
    rw [meaning_append] at hlen
    obtain ⟨o', hround, ho'⟩ := conv_round hd ho (hch.trans hchar.symm)
      (ha.supplied _ (List.mem_append_right _ (List.mem_singleton_self _))) hp
      (by simpa [meaning, Item.text] using hlen)
    refine Comes.after (Stands.comes (.settled ?_ (Int.le_refl _) fun _ => rfl)) hround
    rw [meaning_append]
    simpa [meaning, Item.text] using ho'
  | none =>
    rw [hconv] at ha
    dsimp only at ha ⊢
    by_cases hcount : ch = 110
    · rw [if_pos hcount] at ha
      exact absurd (ha.supplied (.count f) (by simp [Reader.start])) not_false
    · rw [if_neg hcount] at ha ⊢
      exact Comes.after (Stands.comes (.settled ho (Int.le_refl _) fun _ => rfl))
        (unknown_round hch h0 hconv hcount)

theorem takeModifier_comes (hf : f.cflags = .none)
    (ha : Admits longBits d args string m (takeModifier f is ch).items) :
    Comes longBits d args string m 2 (reading .mod q f o) (takeModifier f is ch) (q + 1) := by
  have hround := round_reading longBits d args (f := f) hch h0 .mod
  dsimp only at hround
  have hto (M : CFlags) (heq : modRound (reading .mod q f o) =
      reading .conv (q + 1) { f with cflags := M } o) :
      Comes longBits d args string m 2 (reading .mod q f o)
        (.settled .conv { f with cflags := M } is) (q + 1) := by
    refine Comes.mono (Comes.after (Stands.comes (.settled ho hp fun h => absurd rfl h))
      (hround.trans (congrArg _ heq))) (by decide)
  unfold takeModifier at ha ⊢
  split_ifs at ha ⊢ with h104 h108 h106 h116 h122
  · have hdouble : (104, .short, .char) ∈ doublings := by simp [doublings]
    exact Comes.mono (Stands.comes (.half hdouble (hch.trans h104) ho hp hf)) (by decide)
  · have hdouble : (108, .long, .llong) ∈ doublings := by simp [doublings]
    exact Comes.mono (Stands.comes (.half hdouble (hch.trans h108) ho hp hf)) (by decide)
  · exact hto .intmax (by simp [modRound, reading, hch, h106, State.next, State.enter])
  · exact hto .ptrdiff (by simp [modRound, reading, hch, h116, State.next, State.enter])
  · exact hto .size (by simp [modRound, reading, hch, h122, State.next, State.enter])
  · refine Comes.after (takeConv_comes hd ho hp hch h0 ha) (hround.trans (congrArg _ ?_))
    simp [modRound, reading, hch, h104, h108, h106, h116, h122, State.enter]

theorem takeDot_comes (hf : f.cflags = .none)
    (ha : Admits longBits d args string m (takeDot f is ch).items) :
    Comes longBits d args string m 3 (reading .dot q f o) (takeDot f is ch) (q + 1) := by
  have hround := round_reading longBits d args (f := f) hch h0 .dot
  dsimp only at hround
  unfold takeDot at ha ⊢
  split_ifs at ha ⊢ with h46
  · refine Comes.mono (Comes.after (Stands.comes (.settled ho hp fun _ => hf))
      (hround.trans (congrArg _ ?_))) (by decide)
    simp [dotRound, reading, hch, h46, State.next, State.enter]
  · refine Comes.after (takeModifier_comes hd ho hp hch h0 hf ha) (hround.trans (congrArg _ ?_))
    simp [dotRound, reading, hch, h46, State.enter]

end Rounds

structure Ends (longBits : ℕ) (d : Dest) (args : VaList) (string : ℕ → List UInt8) (m : Mem)
    (overflow : Bool) (r : Reader) (s : State) : Prop where
  leaves : Printf.round longBits d args s = .leave (some ⟨overflow, s⟩)
  holds : Holds d m (meaning longBits args string r.items) s.out
  args : s.args = r.spec.args

/-- In `n` rounds at most the loop does what the reader did. -/
def Answers (longBits : ℕ) (d : Dest) (args : VaList) (string : ℕ → List UInt8) (m : Mem) (n : ℕ)
    (s : State) (q : ℕ) : Except Reader Reader → Prop
  | .ok r => Comes longBits d args string m n s r q
  | .error r => ∃ k ≤ n, ∃ s', Reaches (Printf.round longBits d args) k s s' ∧
      Ends longBits d args string m true r s'

theorem Answers.after {n : ℕ} {s' : State} {a : Except Reader Reader}
    (h : Answers longBits d args string m n s' q a)
    (hround : Printf.round longBits d args s = .again s') :
    Answers longBits d args string m (n + 1) s q a := by
  cases a with
  | ok r => exact Comes.after h hround
  | error r =>
    obtain ⟨k, hk, s₁, hreach, hends⟩ := h
    exact ⟨1 + k, by omega, s₁, (Reaches.one hround).trans hreach, hends⟩

theorem Answers.mono {n n' : ℕ} {a : Except Reader Reader}
    (h : Answers longBits d args string m n s q a) (hn : n ≤ n') :
    Answers longBits d args string m n' s q a := by
  cases a with
  | ok r => exact Comes.mono h hn
  | error r =>
    obtain ⟨k, hk, hrest⟩ := h
    exact ⟨k, hk.trans hn, hrest⟩

theorem charToInt_nonneg (h : isDigit ch = true) : 0 ≤ charToInt ch := by
  have hle : 48 ≤ ch.toNat := by
    unfold isDigit at h
    simp only [Bool.and_eq_true, decide_eq_true_eq, UInt8.le_iff_toNat_le] at h
    exact h.1
  unfold charToInt
  omega

theorem begun_nonneg (h : -1 ≤ f.precision) : 0 ≤ begun f := by
  unfold begun
  split_ifs <;> omega

section Amounts
variable (hd : d.str + d.size ≤ 2 ^ 32) (ho : Holds d m (meaning longBits args string is) o)
  (hp : -1 ≤ f.precision) (hf : f.cflags = .none) (hch : o.mem q = ch) (h0 : ch ≠ 0)
include hd ho hp hf hch h0

theorem takePrecision_answers
    (ha : Admits longBits d args string m (stop (takePrecision args f is ch)).items) :
    Answers longBits d args string m 3 (reading .precision q f o) (q + 1)
      (takePrecision args f is ch) := by
  have hround := round_reading longBits d args (f := f) hch h0
    .precision
  dsimp only at hround
  have hbegun := begun_nonneg hp
  unfold takePrecision at ha ⊢
  split_ifs at ha ⊢ with hdigit hbig h42
  · refine ⟨0, by decide, _, .refl _, ⟨hround.trans ?_, ho, rfl⟩⟩
    unfold begun at hbig
    simp [precisionRound, reading, hch, hdigit, hbig]
  · refine Comes.mono (Comes.after (Stands.comes (.settled ho ?_ fun _ => hf))
      (hround.trans ?_)) (by decide)
    · have := charToInt_nonneg hdigit
      dsimp only
      omega
    · unfold begun at hbig ⊢
      simp only [precisionRound, reading, hch, hdigit, hbig, State.next, if_true, if_false]
  · refine Comes.mono (Comes.after (Stands.comes (.settled ho ?_ fun _ => hf))
      (hround.trans ?_)) (by decide)
    · dsimp only [Spec.withPrecision]
      split_ifs <;> omega
    · have hstar : isDigit 42 = false := by decide
      simp [precisionRound, reading, hch, hstar, h42, State.next, State.enter, State.took,
        State.precisionOf, Spec.withPrecision]
  · have hf' : ({ f with precision := begun f } : Spec).cflags = .none := hf
    refine Comes.after (takeModifier_comes hd ho (show -1 ≤ begun f by omega) hch h0 hf' ha)
      (hround.trans ?_)
    simp [precisionRound, reading, hch, hdigit, h42, State.enter, begun]

theorem takeWidth_answers
    (ha : Admits longBits d args string m (stop (takeWidth args f is ch)).items) :
    Answers longBits d args string m 4 (reading .width q f o) (q + 1) (takeWidth args f is ch) := by
  have hround := round_reading longBits d args (f := f) hch h0 .width
  dsimp only at hround
  unfold takeWidth at ha ⊢
  split_ifs at ha ⊢ with hdigit hbig h42
  · refine ⟨0, by decide, _, .refl _, ⟨hround.trans ?_, ho, rfl⟩⟩
    simp [widthRound, reading, hch, hdigit, hbig]
  · refine Comes.mono (Comes.after (Stands.comes (.settled ho hp fun _ => hf))
      (hround.trans ?_)) (by decide)
    simp [widthRound, reading, hch, hdigit, hbig, State.next]
  · refine Comes.mono (Comes.after (Stands.comes (.settled ho hp fun _ => hf))
      (hround.trans ?_)) (by decide)
    have hstar : isDigit 42 = false := by decide
    simp [widthRound, reading, hch, hstar, h42, State.next, State.enter, State.took,
      State.widthOf, Spec.withWidth]
  · refine Comes.after (takeDot_comes hd ho hp hch h0 hf ha) (hround.trans ?_)
    simp [widthRound, reading, hch, hdigit, h42, State.enter]

theorem takeFlag_answers
    (ha : Admits longBits d args string m (stop (takeFlag args f is ch)).items) :
    Answers longBits d args string m 5 (reading .flags q f o) (q + 1) (takeFlag args f is ch) := by
  have hround := round_reading longBits d args (f := f) hch h0 .flags
  dsimp only at hround
  unfold takeFlag at ha ⊢
  cases hflag : flagOf ch with
  | some fl =>
    have hchar : fl.char = ch := by
      simpa using List.find?_some hflag
    refine Comes.mono (Comes.after (Stands.comes (.settled ho hp fun _ => hf))
      (hround.trans (congrArg _ ?_))) (by decide)
    rw [← hchar] at hch
    cases fl <;> simp [reading, flagsRound, hch, Flag.char, Flag.set, State.flag, State.next]
  | none =>
    rw [hflag] at ha
    have hplain : ch ≠ 45 ∧ ch ≠ 43 ∧ ch ≠ 32 ∧ ch ≠ 35 ∧ ch ≠ 48 ∧ ch ≠ 39 := by
      simpa [Flag.char, eq_comm] using List.find?_eq_none.mp hflag
    refine Answers.after (takeWidth_answers hd ho hp hf hch h0 ha) (hround.trans (congrArg _ ?_))
    simp [reading, flagsRound, hch, hplain, State.enter]

end Amounts

variable (longBits d args) in
theorem half_round {letter : UInt8} {once twice : CFlags}
    (hdouble : (letter, once, twice) ∈ doublings) (h : o.mem q = letter) :
    Printf.round longBits d args (reading .mod q f o) = .again
      (if o.mem (q + 1) = letter then reading .conv (q + 2) { f with cflags := twice } o
      else reading .conv (q + 1) { f with cflags := once } o) := by
  have hcases : letter = 104 ∧ once = .short ∧ twice = .char ∨
      letter = 108 ∧ once = .long ∧ twice = .llong := by
    simpa [doublings] using hdouble
  rcases hcases with ⟨rfl, rfl, rfl⟩ | ⟨rfl, rfl, rfl⟩ <;>
    · rw [round_reading longBits d args h (by decide)]
      simp only [modRound, doubled, reading, h, State.next, State.enter]
      split_ifs <;> simp_all

/-- What the reader makes of one character, the loop does in five rounds. -/
theorem readChar_answers (hd : d.str + d.size ≤ 2 ^ 32) (h : Stands longBits d args string m r q s)
    (hlies : Lies d m q (ch :: cs))
    (ha : Admits longBits d args string m (stop (readChar args r ch)).items) :
    Answers longBits d args string m 5 s (q + 1) (readChar args r ch) := by
  have h0 := hlies.head_ne_zero
  cases h with
  | @half letter once twice f is q o doubling here holds precision cflags =>
    have hch : o.mem (q + 1) = ch := hlies.head holds
    have hround := half_round longBits d args (f := f) doubling here
    simp only [readChar] at ha ⊢
    split_ifs at ha ⊢ with hletter
    · refine Comes.mono (Comes.after (Stands.comes (.settled holds precision fun h => ?_)) ?_)
        (by decide)
      · exact absurd rfl h
      · rw [hround, if_pos (hch.trans hletter)]
    · refine Comes.mono (Comes.after (takeConv_comes hd holds precision hch h0 ha) ?_) (by decide)
      rw [hround, if_neg fun h => hletter (hch.symm.trans h)]
  | @settled state f is q o holds precision cflags =>
    have hch : o.mem q = ch := hlies.head holds
    cases state with
    | default =>
      have hround := round_reading longBits d args (f := f) hch h0
        .default
      dsimp only at hround
      have hf := cflags (by decide)
      simp only [readChar, Reader.settled] at ha ⊢
      split_ifs at ha ⊢ with hpercent
      · refine Comes.mono (Comes.after (Stands.comes (.settled holds precision fun _ => hf))
          (hround.trans (congrArg _ ?_))) (by decide)
        simp [defaultRound, reading, hch, hpercent, State.next, State.enter]
      · have hlen := ha.length
        dsimp only [stop] at hlen
        rw [meaning_append, List.length_append] at hlen
        have hput := holds.outchar hd hlen ch
        refine Comes.mono (Comes.after (Stands.comes (.settled (o := outchar d ch o) ?_ precision
          fun _ => hf)) (hround.trans (congrArg _ ?_))) (by decide)
        · rw [meaning_append]
          exact hput
        · simp [defaultRound, reading, hch, hpercent, State.next]
    | flags => exact takeFlag_answers hd holds precision (cflags (by decide)) hch h0 ha
    | width =>
      exact Answers.mono (takeWidth_answers hd holds precision (cflags (by decide)) hch h0 ha)
        (by decide)
    | dot =>
      exact Comes.mono (takeDot_comes hd holds precision hch h0 (cflags (by decide)) ha)
        (by decide)
    | precision =>
      exact Answers.mono (takePrecision_answers hd holds precision (cflags (by decide)) hch h0 ha)
        (by decide)
    | mod =>
      exact Comes.mono (takeModifier_comes hd holds precision hch h0 (cflags (by decide)) ha)
        (by decide)
    | conv => exact Comes.mono (takeConv_comes hd holds precision hch h0 ha) (by decide)

theorem Stands.ends (h : Stands longBits d args string m r q s) (hlies : Lies d m q []) :
    ∃ k ≤ 1, ∃ s', Reaches (Printf.round longBits d args) k s s' ∧
      Ends longBits d args string m false r s' := by
  have hleaves {state : ReadState} {q : ℕ} {f : Spec} {o : Output} (h0 : o.mem q = 0) :
      Printf.round longBits d args (reading state q f o) =
        .leave (some ⟨false, reading state q f o⟩) := if_pos h0
  cases h with
  | settled holds => exact ⟨0, Nat.zero_le 1, _, .refl _, hleaves (hlies.stop holds), holds, rfl⟩
  | @half letter once twice f is q o doubling here holds =>
    have h0 : o.mem (q + 1) = 0 := hlies.stop holds
    have hround := half_round longBits d args (f := f) doubling here
    have hne : letter ≠ 0 := by
      rintro rfl
      simp [doublings] at doubling
    rw [h0, if_neg hne.symm] at hround
    exact ⟨1, Nat.le_refl 1, _, .one hround, hleaves h0, holds, rfl⟩

theorem readAll_ends (hd : d.str + d.size ≤ 2 ^ 32) (h : Stands longBits d args string m r q s)
    (hlies : Lies d m q cs)
    (ha : Admits longBits d args string m (stop (readAll args cs r)).items) :
    ∃ k ≤ 5 * cs.length + 1, ∃ s', Reaches (Printf.round longBits d args) k s s' ∧
      Ends longBits d args string m (overflows (readAll args cs r))
        (stop (readAll args cs r)) s' := by
  induction cs generalizing q r s with
  | nil =>
    obtain ⟨k, hk, s', hends⟩ := h.ends hlies
    exact ⟨k, by omega, s', hends⟩
  | cons ch cs ih =>
    rw [readAll] at ha ⊢
    have hchar : Admits longBits d args string m (stop (readChar args r ch)).items := by
      refine ha.mono ?_
      cases readChar args r ch with
      | error r' => exact List.prefix_refl _
      | ok r' => exact readAll_grows cs r'
    have hanswers := readChar_answers hd h hlies hchar
    cases hread : readChar args r ch with
    | error r' =>
      rw [hread] at hanswers
      obtain ⟨k, hk, s', hends⟩ := hanswers
      exact ⟨k, by rw [List.length_cons]; omega, s', hends⟩
    | ok r' =>
      rw [hread] at hanswers ha
      obtain ⟨k, hk, s₁, hreach, hstands⟩ := hanswers
      obtain ⟨k', hk', s', hreach', hends⟩ := ih hstands hlies.tail ha
      exact ⟨k + k', by rw [List.length_cons]; omega, s', hreach.trans hreach', hends⟩

end Format

def kept (size : ℕ) (t : List UInt8) : List UInt8 :=
  if size = 0 then [] else t.take (size - 1) ++ [0]

theorem Holds.finish {d : Dest} {m : Mem} {t : List UInt8} {s : State} (h : Holds d m t s.out)
    (hd : d.str + d.size ≤ 2 ^ 32) (overflow : Bool) :
    let r := Printf.finish d ⟨overflow, s⟩
    r.value = (if overflow = true ∨ intMax ≤ (t.length : ℤ) then -1 else (t.length : ℤ)) ∧
      r.args = s.args ∧ r.mem = store m d.str (kept d.size t) ∧
      ∀ a ∈ r.writes, d.str ≤ a ∧ a < d.str + d.size := by
  by_cases hpos : 0 < d.size
  · have hin : Inside d m s.out := ⟨h.changes, h.writes⟩
    rw [finish_eq _ hpos]
    dsimp only
    refine ⟨by rw [h.len], rfl, ?_, (hin.put hd (by omega)).writes⟩
    rw [Output.put, element_eq (by omega), kept, if_neg (by omega), h.len]
    dsimp only
    rw [h.mem, ← store_append, List.length_take, Nat.min_comm]
  · have hzero : d.size = 0 := by omega
    have hout : Printf.finish d ⟨overflow, s⟩ =
        ⟨if overflow = true ∨ intMax ≤ (s.out.len : ℤ) then -1 else s.out.len, s.args, s.out.mem,
          s.out.writes⟩ := by
      simp [Printf.finish, hzero]
    rw [hout]
    refine ⟨by rw [h.len], rfl, ?_, h.writes⟩
    rw [h.mem, hzero]
    rfl

def room (str size : ℕ) : ℕ := if str = 0 then 0 else size

structure Returns (str size : ℕ) (m : Mem) (overflow : Bool) (t : List UInt8) (args : ℕ)
    (r : Printed) : Prop where
  value : r.value = if overflow = true ∨ intMax ≤ (t.length : ℤ) then -1 else (t.length : ℤ)
  args : r.args = args
  mem : r.mem = store m str (kept (room str size) t)
  writes : ∀ a ∈ r.writes, str ≤ a ∧ a < str + room str size

section Any
variable {str size q : ℕ} {m : Mem} {string : ℕ → List UInt8} {cs : List UInt8}

/-- A format, apart from the buffer, with what it takes. -/
structure Given (longBits str size q : ℕ) (args : VaList) (string : ℕ → List UInt8) (m : Mem)
    (cs : List UInt8) : Prop where
  format : q ≠ 0
  buffer : str + room str size ≤ 2 ^ 32
  lies : Lies ⟨str, room str size⟩ m q cs
  length : cs.length < 2 ^ 32
  admits : Admits longBits ⟨str, room str size⟩ args string m (stop (readFormat args cs)).items

theorem Lies.mono {d d' : Dest} (h : Lies d m q cs) (hstr : d'.str = d.str)
    (hsize : d'.size ≤ d.size) : Lies d' m q cs := by
  obtain ⟨hstring, hapart⟩ := h
  refine ⟨hstring, ?_⟩
  unfold Apart at hapart ⊢
  omega

theorem Item.Supplied.mono {d d' : Dest} {args : VaList} {i : Item}
    (h : Item.Supplied d m args string i) (hstr : d'.str = d.str) (hsize : d'.size ≤ d.size) :
    Item.Supplied d' m args string i := by
  match i with
  | .conversion f .s =>
    intro hnull
    obtain ⟨hreads, hapart, hlen⟩ := h hnull
    refine ⟨hreads, ?_, hlen⟩
    unfold Apart at hapart ⊢
    omega
  | .count _ => exact h
  | .literal _ | .conversion _ .d | .conversion _ .i | .conversion _ .X | .conversion _ .x
  | .conversion _ .o | .conversion _ .u | .conversion _ .c | .conversion _ .p
  | .conversion _ .percent => trivial

theorem Given.mono {longBits size' : ℕ} {args : VaList}
    (h : Given longBits str size q args string m cs) (hle : size' ≤ size) :
    Given longBits str size' q args string m cs := by
  have hroom : room str size' ≤ room str size := by
    unfold room
    split_ifs <;> omega
  refine ⟨h.format, (Nat.add_le_add_left hroom _).trans h.buffer, h.lies.mono rfl hroom, h.length,
    fun i hi => (h.admits.supplied i hi).mono rfl hroom, h.admits.length⟩

theorem Given.ends (h : Given longBits str size q args string m cs) :
    ∃ s, vsnprintf longBits str size q args m =
        some (finish ⟨str, room str size⟩ ⟨overflows (readFormat args cs), s⟩) ∧
      Ends longBits ⟨str, room str size⟩ args string m (overflows (readFormat args cs))
        (stop (readFormat args cs)) s := by
  have hempty : Holds ⟨str, room str size⟩ m [] ⟨0, m, []⟩ :=
    ⟨rfl, by simp, fun a ha => by cases ha⟩
  have hstart : Stands longBits ⟨str, room str size⟩ args string m (.start 0 []) q
      (Printf.start q m) := .settled hempty (Int.le_refl _) fun _ => rfl
  obtain ⟨k, hk, s, hreach, hends⟩ := readAll_ends h.buffer hstart h.lies h.admits
  have hlen := h.length
  have hrun := hreach.run_eq hends.leaves (n := 2 ^ 36) (by omega)
  refine ⟨s, ?_, hends⟩
  rw [vsnprintf, if_neg h.format]
  dsimp only
  rw [← room, hrun]
  rfl

/-- `Vsnprintf` does what the reader makes of its format, well formed or not. -/
theorem vsnprintf_reads (longBits : ℕ) (args : VaList)
    (h : Given longBits str size q args string m cs) :
    ∃ r, vsnprintf longBits str size q args m = some r ∧
      Returns str size m (overflows (readFormat args cs))
        (meaning longBits args string (stop (readFormat args cs)).items)
        (stop (readFormat args cs)).spec.args r := by
  obtain ⟨s, hcall, hends⟩ := h.ends
  obtain ⟨hvalue, hargs, hmem, hwrites⟩ := hends.holds.finish h.buffer
    (overflows (readFormat args cs))
  exact ⟨_, hcall, hvalue, hargs.trans hends.args, hmem, hwrites⟩

end Any

def oddFormat : List UInt8 := [120, 37, 107, 37, 57, 57, 57, 57, 57, 57, 57, 57, 57, 57, 100]

def oddMem : Mem := store (fun _ => 0) 4096 oddFormat

theorem odd_given : Given 64 16384 16 4096 (fun _ => 7) (fun _ => []) oddMem oddFormat where
  format := by decide
  buffer := by decide
  lies := ⟨⟨by decide, by decide, by decide⟩, .inl (by decide)⟩
  length := by decide
  admits := by
    have hitems : (stop (readFormat (fun _ => 7) oddFormat)).items = [.literal 120] := by rfl
    rw [hitems]
    exact ⟨by simp [Item.Supplied], by decide⟩

theorem vsnprintf_reads_odd : ∃ r, vsnprintf 64 16384 16 4096 (fun _ => 7) oddMem = some r ∧
    Returns 16384 16 oddMem true [120] 0 r :=
  vsnprintf_reads 64 (fun _ => 7) odd_given

structure Prints (str size : ℕ) (m : Mem) (t : List UInt8) (args : ℕ) (r : Printed) : Prop where
  value : r.value = if (t.length : ℤ) < intMax then (t.length : ℤ) else -1
  args : r.args = args
  mem : r.mem = store m str (kept (room str size) t)
  writes : ∀ a ∈ r.writes, str ≤ a ∧ a < str + room str size

section Call
variable {str size q : ℕ} {m : Mem} {string : ℕ → List UInt8} {ps : List Piece}

structure Ready (longBits str size q : ℕ) (args : VaList) (string : ℕ → List UInt8) (m : Mem)
    (ps : List Piece) : Prop where
  format : q ≠ 0
  buffer : str + room str size ≤ 2 ^ 32
  formed : ∀ p ∈ ps, p.Formed
  lies : Lies ⟨str, room str size⟩ m q (chars ps)
  length : (chars ps).length < 2 ^ 32
  strings : ∀ i ∈ items args ps 0, Item.Supplied ⟨str, room str size⟩ m args string i
  text : (rendered longBits args string ps 0).length < 2 ^ 32

theorem Ready.given (h : Ready longBits str size q args string m ps) :
    readFormat args (chars ps) = .ok (.start (taken args ps 0) (items args ps 0)) ∧
      Given longBits str size q args string m (chars ps) := by
  have hread : readFormat args (chars ps) = .ok (.start (taken args ps 0) (items args ps 0)) :=
    readAll_chars h.formed 0 []
  exact ⟨hread, h.format, h.buffer, h.lies, h.length, hread ▸ ⟨h.strings, h.text⟩⟩

theorem Ready.holds (h : Ready longBits str size q args string m ps) :
    ∃ s, vsnprintf longBits str size q args m = some (finish ⟨str, room str size⟩ ⟨false, s⟩) ∧
      Holds ⟨str, room str size⟩ m (rendered longBits args string ps 0) s.out ∧
      s.args = taken args ps 0 := by
  obtain ⟨hread, hgiven⟩ := h.given
  obtain ⟨s, hcall, hends⟩ := hgiven.ends
  rw [hread] at hcall hends
  exact ⟨s, hcall, hends.holds, hends.args⟩

theorem Holds.prints {t : List UInt8} {s : State} (h : Holds ⟨str, room str size⟩ m t s.out)
    (hd : str + room str size ≤ 2 ^ 32) :
    Prints str size m t s.args (Printf.finish ⟨str, room str size⟩ ⟨false, s⟩) := by
  obtain ⟨hvalue, hargs, hmem, hwrites⟩ := h.finish hd false
  refine ⟨hvalue.trans ?_, hargs, hmem, hwrites⟩
  simp only [Bool.false_eq_true, false_or]
  split_ifs <;> first | rfl | omega

theorem vsnprintf_prints (longBits : ℕ) (args : VaList)
    (h : Ready longBits str size q args string m ps) :
    ∃ r, vsnprintf longBits str size q args m = some r ∧
      Prints str size m (rendered longBits args string ps 0) (taken args ps 0) r := by
  obtain ⟨s, hcall, hholds, hargs⟩ := h.holds
  exact ⟨_, hcall, hargs ▸ hholds.prints h.buffer⟩

end Call

def fieldFormat : List Piece :=
  [.literal 61, .directive ⟨[.minus], .digits [⟨4, by decide⟩], none, .none, .d⟩,
    .directive ⟨[], .digits [], some .star, .none, .s⟩]

def fieldArgs : VaList := fun k => [-7, 1, 8192].getD k 0

def fieldMem : Mem := store (store (fun _ => 0) 4096 (chars fieldFormat)) 8192 [97, 98]

theorem fieldReady : Ready 64 16384 16 4096 fieldArgs (fun _ => [97, 98]) fieldMem fieldFormat where
  format := by decide
  buffer := by decide
  formed := by decide
  lies := ⟨⟨by decide, by decide, by decide⟩, .inl (by decide)⟩
  length := by decide
  strings := by
    intro i hi
    simp only [fieldFormat, items, List.mem_cons, List.not_mem_nil, or_false] at hi
    rcases hi with rfl | rfl | rfl
    · trivial
    · trivial
    · exact fun _ => ⟨⟨by decide, by decide, .inl (by decide)⟩, .inl (by decide), by decide⟩
  text := by decide

theorem vsnprintf_prints_field : ∃ r, vsnprintf 64 16384 16 4096 fieldArgs fieldMem = some r ∧
    Prints 16384 16 fieldMem [61, 45, 55, 32, 32, 97] 3 r :=
  vsnprintf_prints 64 fieldArgs fieldReady

end Patchwork.Rendering
