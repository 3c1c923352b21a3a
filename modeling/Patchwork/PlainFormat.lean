import Patchwork.Printf

/-!
# Formats that are given no arguments

A format without a percent sign is printed as it stands. One with a percent sign
takes an argument or prints fewer characters than it has: a specification of two
or more characters puts out one at most.
-/

namespace Patchwork.PlainFormat
open ByteMemory BoundedLoop Printf

section Outchar
variable {d : Dest} {ch : UInt8} {o : Output}

theorem outchar_len (d : Dest) (ch : UInt8) (h : o.len + 1 < 2 ^ 32) :
    (outchar d ch o).len = o.len + 1 := by
  unfold outchar
  dsimp only
  split_ifs <;> exact Nat.mod_eq_of_lt h

theorem outchar_inside (h : o.len + 1 < 2 ^ 32) (hsize : o.len + 1 < d.size) :
    outchar d ch o = { o with len := o.len + 1 }.put (element d.str o.len) [ch] := by
  have hwrap : (o.len + 1) % 2 ^ 32 = o.len + 1 := Nat.mod_eq_of_lt h
  have hback : (o.len + 1 + 2 ^ 32 - 1) % 2 ^ 32 = o.len := by omega
  simp only [outchar, hwrap, hback, hsize, if_true]

theorem outchar_outside (h : o.len + 1 < 2 ^ 32) (hsize : ¬ o.len + 1 < d.size) :
    outchar d ch o = { o with len := o.len + 1 } := by
  have hwrap : (o.len + 1) % 2 ^ 32 = o.len + 1 := Nat.mod_eq_of_lt h
  simp only [outchar, hwrap, hsize, if_false]

structure Inside (d : Dest) (m : Mem) (o : Output) : Prop where
  mem : ChangesIn [(d.str, d.size)] m o.mem
  writes : ∀ a ∈ o.writes, d.str ≤ a ∧ a < d.str + d.size

theorem Inside.put {m : Mem} (h : Inside d m o) (hd : d.str + d.size ≤ 2 ^ 32) {i : ℕ}
    (hi : i < d.size) : Inside d m (o.put (element d.str i) [ch]) := by
  rw [element_eq (by omega)]
  refine ⟨h.mem.trans (.store (r := (d.str, d.size)) (by simp) (Nat.le_add_right _ _) ?_), ?_⟩
  · simp only [List.length_singleton]
    omega
  · intro a ha
    rcases List.mem_append.mp ha with ha | ha
    · exact h.writes a ha
    · simp only [List.length_singleton, List.range_one, List.map_cons, Nat.add_zero, List.map_nil,
        List.mem_singleton] at ha
      omega

theorem Inside.outchar {m : Mem} (h : Inside d m o) (hd : d.str + d.size ≤ 2 ^ 32)
    (hlen : o.len + 1 < 2 ^ 32) : Inside d m (outchar d ch o) := by
  have hcounted : Inside d m { o with len := o.len + 1 } := ⟨h.mem, h.writes⟩
  by_cases hsize : o.len + 1 < d.size
  · rw [outchar_inside hlen hsize]
    exact hcounted.put hd (by omega)
  · rw [outchar_outside hlen hsize]
    exact hcounted

end Outchar

section Formats
variable {longBits str size p : ℕ} {args : VaList} {d : Dest} {m : Mem} {t : List UInt8}

structure Reading (d : Dest) (m : Mem) (p : ℕ) (t : List UInt8) (i : ℕ) (s : State) : Prop where
  args : s.args = 0
  inside : Inside d m s.out
  format : s.format = p + i + 1
  ch : s.ch = m (p + i)
  bound : i ≤ t.length

structure Placed (d : Dest) (m : Mem) (p : ℕ) (t : List UInt8) : Prop where
  string : IsCString m p t
  buffer : d.str + d.size ≤ 2 ^ 32
  apart : Apart p (t.length + 1) d.str d.size
  length : t.length < 2 ^ 32

namespace Reading
variable {i : ℕ} {s s' : State}

theorem lt_length (h : Reading d m p t i s) (hp : Placed d m p t) (h0 : s.ch ≠ 0) :
    i < t.length := by
  refine Nat.lt_of_le_of_ne h.bound fun he => h0 ?_
  rw [h.ch, he, hp.string.stop]

theorem at_end (h : Reading d m p t i s) (hp : Placed d m p t) (h0 : s.ch = 0) :
    i = t.length := by
  refine Nat.le_antisymm h.bound (Nat.le_of_not_lt fun hlt => ?_)
  exact hp.string.char_ne_zero hlt (h.ch.symm.trans h0)

theorem ch_eq (h : Reading d m p t i s) (hp : Placed d m p t) (hi : i < t.length) :
    s.ch = t[i] := by
  rw [h.ch, hp.string.char hi]

theorem advance (h : Reading d m p t i s) (hp : Placed d m p t) (h0 : s.ch ≠ 0)
    (hargs : s'.args = s.args) (hinside : Inside d m s'.out) (hformat : s'.format = s.format + 1)
    (hch : s'.ch = s'.out.mem s.format) : Reading d m p t (i + 1) s' := by
  have hi := h.lt_length hp h0
  refine ⟨hargs.trans h.args, hinside, by rw [hformat, h.format]; omega, ?_, hi⟩
  rw [hch, h.format]
  refine hinside.mem _ fun r hr => ?_
  obtain rfl := List.mem_singleton.mp hr
  have := hp.apart
  unfold Apart at this
  dsimp only
  omega

theorem start : Reading d m p t 0 (Printf.start p m) :=
  ⟨rfl, ⟨.refl m, fun _ ha => by cases ha⟩, rfl, rfl, Nat.zero_le _⟩

end Reading

structure Plain (d : Dest) (m : Mem) (p : ℕ) (t : List UInt8) (s : State) : Prop where
  reading : Reading d m p t s.out.len s
  state : s.state = .default
  mem : s.out.mem = store m d.str ((t.take (d.size - 1)).take s.out.len)

theorem Plain.step {s s' : State} (h : Plain d m p t s) (hp : Placed d m p t) (ht : 37 ∉ t)
    (hb : Printf.round longBits d args s = .again s') :
    Plain d m p t s' ∧ t.length - s'.out.len < t.length - s.out.len := by
  have h0 := (round_moves hb).2
  have hi := h.reading.lt_length hp h0
  have hch := h.reading.ch_eq hp hi
  have hplain : s.ch ≠ 37 := fun he => ht (he ▸ hch ▸ List.getElem_mem hi)
  have hlen : s.out.len + 1 < 2 ^ 32 := by
    have := hp.length
    omega
  obtain rfl : { s with out := outchar d s.ch s.out }.next = s' := by
    simpa [Printf.round, h0, h.state, defaultRound, hplain] using hb
  have hcount := outchar_len d s.ch hlen
  refine ⟨⟨?_, h.state, ?_⟩, ?_⟩
  · rw [State.next_out, hcount]
    exact h.reading.advance hp h0 rfl (h.reading.inside.outchar hp.buffer hlen) rfl rfl
  · rw [State.next_out, hcount]
    by_cases hsize : s.out.len + 1 < d.size
    · have hbuf := hp.buffer
      have hhead : ((t.take (d.size - 1)).take s.out.len).length = s.out.len := by
        simp only [List.length_take]
        omega
      rw [outchar_inside hlen hsize, Output.put, element_eq (by omega)]
      dsimp only
      rw [h.mem, List.take_succ_eq_append_getElem (by simp; omega), ← store_append, hhead,
        List.getElem_take, hch]
    · rw [outchar_outside hlen hsize]
      have hall {k : ℕ} (hk : d.size - 1 ≤ k) :
          (t.take (d.size - 1)).take k = t.take (d.size - 1) :=
        List.take_of_length_le (by simp only [List.length_take]; omega)
      dsimp only
      rw [h.mem, hall (by omega), hall (by omega)]
  · rw [State.next_out, hcount]
    omega

theorem finish_eq (l : Left) (hpos : 0 < d.size) :
    finish d l = ⟨if l.overflow ∨ intMax ≤ l.state.out.len then -1 else l.state.out.len,
      l.state.args, (l.state.out.put (element d.str (min l.state.out.len (d.size - 1))) [0]).mem,
      (l.state.out.put (element d.str (min l.state.out.len (d.size - 1))) [0]).writes⟩ := by
  unfold finish
  dsimp only
  by_cases hsize : l.state.out.len < d.size
  · rw [if_pos hsize, Nat.min_eq_left (by omega)]
    rfl
  · rw [if_neg hsize, if_pos hpos, Nat.min_eq_right (by omega)]
    rfl

theorem Plain.finish {s : State} (h : Plain d m p t s) (hp : Placed d m p t) (hpos : 0 < d.size)
    (hlen : (t.length : ℤ) < intMax) (h0 : s.ch = 0) :
    let r := Printf.finish d ⟨false, s⟩
    r.value = t.length ∧ r.args = 0 ∧ r.mem = store m d.str (t.take (d.size - 1) ++ [0]) ∧
      ∀ a ∈ r.writes, d.str ≤ a ∧ a < d.str + d.size := by
  have hend := h.reading.at_end hp h0
  have hbuf := hp.buffer
  have hin : min t.length (d.size - 1) < d.size := by omega
  rw [finish_eq _ hpos]
  dsimp only
  rw [hend]
  refine ⟨by simp; omega, h.reading.args, ?_, (h.reading.inside.put hp.buffer hin).writes⟩
  have hall : (t.take (d.size - 1)).take t.length = t.take (d.size - 1) :=
    List.take_of_length_le (by simp only [List.length_take]; omega)
  rw [Output.put, element_eq (by omega)]
  dsimp only
  rw [h.mem, hend, hall, ← store_append, List.length_take, Nat.min_comm]

theorem vsnprintf_plain (longBits : ℕ) (args : VaList) (hp : Placed ⟨str, size⟩ m p t)
    (hstr : str ≠ 0) (hformat : p ≠ 0) (hpos : 0 < size) (hlen : (t.length : ℤ) < intMax)
    (ht : 37 ∉ t) :
    ∃ r, vsnprintf longBits str size p args m = some r ∧ r.value = t.length ∧ r.args = 0 ∧
      r.mem = store m str (t.take (size - 1) ++ [0]) ∧
      ∀ a ∈ r.writes, str ≤ a ∧ a < str + size := by
  have hsteps : t.length < 2 ^ 36 := Nat.lt_trans hp.length (by decide)
  obtain ⟨left, hrun, s, rfl, hs, h0⟩ := run_spec (Printf.round longBits ⟨str, size⟩ args)
    (Plain ⟨str, size⟩ m p t) (fun s => t.length - s.out.len)
    (fun left => ∃ s, left = some ⟨false, s⟩ ∧ Plain ⟨str, size⟩ m p t s ∧ s.ch = 0)
    (fun s s' h hb => h.step hp ht hb)
    (fun s left h hb => by
      unfold Printf.round at hb
      split_ifs at hb with h0
      · cases hb
        exact ⟨s, rfl, h, h0⟩
      · simp [h.state] at hb)
    (n := 2 ^ 36) (s := Printf.start p m) ⟨.start, rfl, by simp [Printf.start]⟩
    (Nat.lt_of_le_of_lt (Nat.sub_le _ _) hsteps)
  refine ⟨finish ⟨str, size⟩ ⟨false, s⟩, ?_, hs.finish hp hpos hlen h0⟩
  rw [vsnprintf, if_neg hformat, if_neg hstr]
  dsimp only
  rw [hrun]
  rfl

structure Lagging (d : Dest) (m : Mem) (p : ℕ) (t : List UInt8) (i : ℕ) (s : State) : Prop where
  reading : Reading d m p t i s
  outside : s.out.len ≤ i
  after : s.state ≠ .default ∨ 37 ∈ t.take i → s.out.len < i

theorem Lagging.move {i : ℕ} {s s' : State} (h : Lagging d m p t i s) (hp : Placed d m p t)
    (h0 : s.ch ≠ 0) (hm : Move d s s') (hargs : s'.args = s.args) :
    ∃ j, Lagging d m p t j s' := by
  have hi := h.reading.lt_length hp h0
  have hch := h.reading.ch_eq hp hi
  cases hm with
  | takes ha => omega
  | stays _ hout hformat hch' hin hin' =>
    refine ⟨i, ⟨hargs.trans h.reading.args, hout ▸ h.reading.inside, hformat.trans h.reading.format,
      hch'.trans h.reading.ch, h.reading.bound⟩, hout ▸ h.outside, fun _ => ?_⟩
    exact hout ▸ h.after (.inl hin)
  | reads _ hout hformat hch' hin =>
    refine ⟨i + 1, h.reading.advance hp h0 hargs (hout ▸ h.reading.inside) hformat (hout ▸ hch'),
      ?_, fun _ => ?_⟩
    all_goals
      have := h.outside
      rw [hout]
      omega
  | readsTwo _ hout hformat hfirst hch' hin =>
    have hnext : Reading d m p t (i + 1) s.next :=
      h.reading.advance hp h0 rfl h.reading.inside rfl rfl
    refine ⟨i + 2, hnext.advance hp hfirst hargs (hout ▸ h.reading.inside) hformat (hout ▸ hch'),
      ?_, fun _ => ?_⟩
    all_goals
      have := h.outside
      rw [hout]
      omega
  | prints _ hout hformat hch' hdone hplain =>
    have hlen : s.out.len + 1 < 2 ^ 32 := by
      have := hp.length
      have := h.outside
      omega
    have hcount : s'.out.len = s.out.len + 1 := by rw [hout, outchar_len _ _ hlen]
    refine ⟨i + 1, h.reading.advance hp h0 hargs (hout ▸ h.reading.inside.outchar hp.buffer hlen)
      hformat hch', by have := h.outside; omega, fun hafter => ?_⟩
    -- a percent sign that was printed closed a specification
    have hbefore : s.state ≠ .default ∨ 37 ∈ t.take i := by
      rcases hafter with hs' | hmem
      · exact absurd hdone hs'
      · rw [List.take_succ_eq_append_getElem hi, List.mem_append, List.mem_singleton] at hmem
        rcases hmem with hmem | hlast
        · exact .inr hmem
        · exact .inl fun hs => hplain hs (hch.trans hlast.symm)
    have := h.after hbefore
    omega

/-- A format with a percent sign takes an argument, or prints less than it has. -/
theorem vsnprintf_lags (hp : Placed ⟨str, size⟩ m p t) (hstr : str ≠ 0) (hformat : p ≠ 0)
    (hpos : 0 < size) (ht : 37 ∈ t) {r : Printed}
    (h : vsnprintf longBits str size p args m = some r) :
    r.args ≠ 0 ∨ -1 ≤ r.value ∧ r.value < t.length := by
  rw [vsnprintf, if_neg hformat, if_neg hstr] at h
  obtain ⟨left, hrun, h⟩ := Option.bind_eq_some_iff.mp h
  obtain ⟨l, rfl, h⟩ := Option.bind_eq_some_iff.mp h
  cases h
  have hleft := run_invariant (Printf.round longBits ⟨str, size⟩ args)
    (fun s => s.args ≠ 0 ∨ ∃ i, Lagging ⟨str, size⟩ m p t i s)
    (fun left => ∀ l, left = some l → l.state.args ≠ 0 ∨ l.overflow = true ∨
      l.state.out.len < t.length)
    (fun s s' h hb => ?_) (fun s left h hb l hl => ?_) (.inr ⟨0, .start, ?_, ?_⟩) hrun l rfl
  · rw [finish_eq _ hpos]
    dsimp only
    rcases hleft with hargs | hover | hlen
    · exact .inl hargs
    · right
      rw [if_pos (.inl hover)]
      omega
    · right
      split_ifs <;> omega
  · obtain ⟨hm, h0⟩ := round_moves hb
    have hle := hm.args_le
    by_cases hargs : s'.args = s.args
    · rcases h with htook | ⟨i, hi⟩
      · exact .inl (hargs ▸ htook)
      · exact .inr (hi.move hp h0 hm hargs)
    · exact .inl (by omega)
  · subst hl
    rcases round_leaves hb with ⟨-, rfl, h0⟩ | hover
    · rcases h with htook | ⟨i, hi⟩
      · exact .inl htook
      · have hend := hi.reading.at_end hp h0
        have hall : 37 ∈ t.take i := by rwa [hend, List.take_length]
        exact .inr (.inr (hend ▸ hi.after (.inr hall)))
    · exact .inr (.inl hover)
  · simp [Printf.start]
  · simp [Printf.start]

end Formats
end Patchwork.PlainFormat
