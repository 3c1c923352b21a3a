import Patchwork.NumberText
import Patchwork.Rendering

/-!
# Numbers through the formatter and back

A directive that prints a number is called on a buffer with room for its text, and
the text is read from memory again.
-/

namespace Patchwork.PrintedNumbers
open ByteMemory Printf FormatText NumberText Numeral Rendering

section Texts
variable {value : BitVec 64} {base : ℕ} {width precision : ℤ} {flags : Flags} {c : UInt8}

theorem digit_ne_zero : ∀ caps : Bool, ∀ n : Fin 16, digit caps n ≠ 0 := by
  decide

theorem intText_nonzero (hb : 8 ≤ base) (hb' : base ≤ 16) :
    0 ∉ intText value base width precision flags := by
  obtain ⟨before, zeros, after, htext, -⟩ := intText_layout value base width precision flags
  have hsign : 0 ∉ signOf value flags := by
    unfold signOf
    split_ifs <;> decide
  have hprefix : 0 ∉ hexPrefix value base flags := by
    unfold hexPrefix
    split_ifs <;> decide
  have hdigits : 0 ∉ digits value base flags := by
    rw [digits_eq hb]
    intro h
    obtain ⟨n, hn, h0⟩ := List.mem_map.mp h
    exact digit_ne_zero flags.up ⟨n, Nat.lt_of_lt_of_le (numeral_lt (by omega) hn) hb'⟩ h0
  have hout : 0 ∉ digitsOut (digits value base flags) (separators value base flags) := fun h => by
    rcases mem_digitsOut h with h44 | h
    · exact absurd h44 (by decide)
    · exact hdigits h
  rw [htext]
  simp [hsign, hprefix, hout]

end Texts

def printed (longBits : ℕ) (args : VaList) (f : Spec) : Conv → Option (ℕ × ℤ)
  | .d | .i => some (10, number (intArg longBits f.cflags (args f.args)) f.flags)
  | .X | .x => some (16, (uintArg longBits f.cflags (args f.args)).toNat)
  | .o => some (8, (uintArg longBits f.cflags (args f.args)).toNat)
  | .u => some (10, (uintArg longBits f.cflags (args f.args)).toNat)
  | _ => none

theorem text_reads {longBits : ℕ} {args : VaList} {f : Spec} {conv : Conv} {base : ℕ} {n : ℤ}
    (h : printed longBits args f conv = some (base, n)) (string : ℕ → List UInt8) :
    readNumber base (f.text longBits args string conv) = n ∧
      0 ∉ f.text longBits args string conv := by
  have hunsigned (base : ℕ) (hb : 8 ≤ base) (hb' : base ≤ 16) (up : Bool) :
      readNumber base (f.unsignedText longBits args base up) =
        (uintArg longBits f.cflags (args f.args)).toNat ∧
      0 ∉ f.unsignedText longBits args base up :=
    ⟨readNumber_intText _ hb hb' _ _ _, intText_nonzero hb hb'⟩
  cases conv with
  | d | i =>
    cases h
    exact ⟨readNumber_intText _ (by decide) (by decide) _ _ _,
      intText_nonzero (by decide) (by decide)⟩
  | X | x | o | u =>
    cases h
    exact hunsigned _ (by decide) (by decide) _
  | c | s | p | percent => cases h

theorem isCString_store {m : Mem} {a : ℕ} {t : List UInt8} (h0 : 0 ∉ t) :
    IsCString (store m a (t ++ [0])) a t := by
  have hstored : IsCString (store m a (t ++ [0])) a (upToZero (t ++ [0])) :=
    (isCString_stored_iff m (t ++ [0])).mpr (.inl (by simp))
  rwa [upToZero_append h0] at hstored

section Call
variable {str size q : ℕ} {m : Mem} {string : ℕ → List UInt8} {D : Directive}

/-- The number of a directive is what its text says, wherever the buffer has room for it. -/
theorem vsnprintf_reads_back (longBits : ℕ) (args : VaList)
    (h : Ready longBits str size q args string m [.directive D]) {base : ℕ} {n : ℤ}
    (hn : printed longBits args (D.spec args 0) D.conv = some (base, n))
    (hroom : ((D.spec args 0).text longBits args string D.conv).length < room str size) :
    ∃ r t, vsnprintf longBits str size q args m = some r ∧ IsCString r.mem str t ∧
      readNumber base t = n := by
  obtain ⟨s, hr, hholds, -⟩ := h.holds
  obtain ⟨hread, hnonzero⟩ := text_reads hn string
  have hrendered : rendered longBits args string [.directive D] 0 =
      (D.spec args 0).text longBits args string D.conv := by
    simp [rendered, items, Piece.item, Item.text]
  have hmem := (hholds.prints h.buffer).mem
  rw [hrendered, kept, if_neg (by omega), List.take_of_length_le (by omega)] at hmem
  refine ⟨_, (D.spec args 0).text longBits args string D.conv, hr, ?_, hread⟩
  rw [hmem]
  exact isCString_store hnonzero

def octal : Directive := ⟨[.plus, .num, .quote, .zero],
  .digits [⟨1, by decide⟩, ⟨2, by decide⟩], none, .llong, .o⟩

def octalMem : Mem := store (fun _ => 0) 4096 (chars [.directive octal])

theorem octalReady : Ready 64 16384 32 4096 (fun _ => 4096) (fun _ => []) octalMem
    [.directive octal] where
  format := by decide
  buffer := by decide
  formed := by decide
  lies := ⟨⟨by decide, by decide, by decide⟩, .inl (by decide)⟩
  length := by decide
  strings := by
    intro i hi
    simp only [items, List.mem_singleton] at hi
    subst hi
    trivial
  text := by decide

theorem vsnprintf_reads_back_octal : ∃ r t,
    vsnprintf 64 16384 32 4096 (fun _ => 4096) octalMem = some r ∧ IsCString r.mem 16384 t ∧
      readNumber 8 t = 4096 :=
  vsnprintf_reads_back 64 _ octalReady rfl (by decide)

end Call
end Patchwork.PrintedNumbers
