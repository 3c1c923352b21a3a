import Patchwork.Util

/-!
# What `TrimEnd` leaves

Trailing white space is what follows the longest prefix that is empty or ends in
another character. `TrimEnd` leaves that prefix, except of a string of white
space, of which it leaves the first character: two such strings need not become
equal, nor one of them and the empty string.
-/

namespace Patchwork.TrimmedStrings
open ByteMemory Util

section Longest
variable {α : Type*} {p : α → Bool} {s t q : List α}

def EndsOutside (p : α → Bool) (q : List α) : Prop := ∀ h : q ≠ [], ¬ p (q.getLast h)

structure Longest (p : α → Bool) (s q : List α) : Prop where
  isPrefix : q <+: s
  ends : EndsOutside p q
  longest : ∀ r, r <+: s → EndsOutside p r → r.length ≤ q.length

theorem prefix_rdropWhile (hq : EndsOutside p q) (r : List α) :
    q <+: (q ++ r).rdropWhile p := by
  induction r using List.reverseRecOn with
  | nil =>
    have hself : q.rdropWhile p = q := (List.rdropWhile_eq_self_iff ..).mpr hq
    exact ⟨[], by rw [List.append_nil, hself]⟩
  | append_singleton r x ih =>
    rw [← List.append_assoc]
    by_cases hx : p x
    · rwa [List.rdropWhile_concat_pos _ _ _ hx]
    · rw [List.rdropWhile_concat_neg _ _ _ hx, List.append_assoc]
      exact List.prefix_append q (r ++ [x])

theorem longest_rdropWhile (p : α → Bool) (s : List α) : Longest p s (s.rdropWhile p) where
  isPrefix := List.rdropWhile_prefix p s
  ends := fun h => List.rdropWhile_last_not p s h
  longest := by
    rintro r ⟨rest, rfl⟩ hr
    exact (prefix_rdropWhile hr rest).length_le

theorem longest_iff : Longest p s q ↔ q = s.rdropWhile p := by
  refine ⟨fun h => ?_, fun h => h ▸ longest_rdropWhile p s⟩
  have hmine := longest_rdropWhile p s
  have hlen : q.length = (s.rdropWhile p).length := Nat.le_antisymm
    (hmine.longest q h.isPrefix h.ends) (h.longest _ hmine.isPrefix hmine.ends)
  exact (List.prefix_of_prefix_length_le h.isPrefix hmine.isPrefix hlen.le).eq_of_length hlen

def AgreeBeforeEnd (p : α → Bool) (s t : List α) : Prop :=
  ∃ q u v, s = q ++ u ∧ t = q ++ v ∧ (∀ x ∈ u, p x) ∧ ∀ x ∈ v, p x

end Longest

/-- `TrimEnd` leaves of the string at `a` its longest prefix without white space at the end,
writes only in the string and its terminator, and does nothing more when called again. -/
def TrimsExactly (m : Mem) (a : ℕ) (s : List UInt8) : Prop :=
  ∃ m', trimEnd a m = some (a, m') ∧
    (∃ q, Longest isSpace s q ∧ IsCString m' a q) ∧
    ChangesIn [(a, s.length + 1)] m m' ∧ trimEnd a m' = some (a, m')

def TrimEqual (m : Mem) (a : ℕ) (n : Mem) (b : ℕ) : Prop :=
  ∃ m' n' q, trimEnd a m = some (a, m') ∧ trimEnd b n = some (b, n') ∧
    IsCString m' a q ∧ IsCString n' b q

section Trimmed
variable {m n : Mem} {a b : ℕ} {s t : List UInt8}

theorem trimmed_trimmed : ∀ s : List UInt8, trimmed (trimmed s) = trimmed s
  | [] => rfl
  | c :: cs => congrArg (c :: ·) (List.rdropWhile_idempotent isSpace cs)

theorem trimmed_eq_stripped_iff : trimmed s = stripped s ↔ ¬ Blank s := by
  refine ⟨fun h hb => ?_, trimmed_eq_stripped⟩
  cases s with
  | nil => exact hb.1 rfl
  | cons c cs =>
    rw [trimmed_of_blank hb, stripped_of_blank hb] at h
    cases h

theorem trimEnd_changes (m : Mem) (a : ℕ) (s : List UInt8) :
    ChangesIn [(a, s.length + 1)] m (store m (a + (trimmed s).length) [0]) := by
  have hle := trimmed_length_le s
  refine .store (List.mem_singleton_self _) (Nat.le_add_right _ _) ?_
  simp only [List.length_singleton]
  omega

theorem trimEnd_again (ha : a ≠ 0) (h : IsCString m a s) (hs : s.length < 2 ^ 32) :
    trimEnd a (store m (a + (trimmed s).length) [0]) =
      some (a, store m (a + (trimmed s).length) [0]) := by
  have hlen : (trimmed s).length < 2 ^ 32 := (trimmed_length_le s).trans_lt hs
  rw [trimEnd_eq ha (isCString_trimmed h) hlen, trimmed_trimmed, store_store m [0] (Nat.le_refl _)]

theorem trimsExactly_iff (ha : a ≠ 0) (h : IsCString m a s) (hs : s.length < 2 ^ 32) :
    TrimsExactly m a s ↔ ¬ Blank s := by
  rw [← trimmed_eq_stripped_iff]
  constructor
  · rintro ⟨m', hm', ⟨q, hq, hqs⟩, -⟩
    rw [trimEnd_eq ha h hs] at hm'
    cases hm'
    exact ((isCString_trimmed h).unique hqs).trans (longest_iff.mp hq)
  · intro he
    exact ⟨_, trimEnd_eq ha h hs, ⟨trimmed s, longest_iff.mpr he, isCString_trimmed h⟩,
      trimEnd_changes m a s, trimEnd_again ha h hs⟩

theorem trimEqual_iff (ha : a ≠ 0) (h : IsCString m a s) (hs : s.length < 2 ^ 32) (hb : b ≠ 0)
    (h' : IsCString n b t) (ht : t.length < 2 ^ 32) :
    TrimEqual m a n b ↔ trimmed s = trimmed t := by
  constructor
  · rintro ⟨m', n', q, hm', hn', hq, hq'⟩
    rw [trimEnd_eq ha h hs] at hm'
    rw [trimEnd_eq hb h' ht] at hn'
    cases hm'
    cases hn'
    exact ((isCString_trimmed h).unique hq).trans (hq'.unique (isCString_trimmed h'))
  · intro he
    have hsame : IsCString (store n (b + (trimmed t).length) [0]) b (trimmed s) :=
      he.symm ▸ isCString_trimmed h'
    exact ⟨_, _, trimmed s, trimEnd_eq ha h hs, trimEnd_eq hb h' ht, isCString_trimmed h, hsame⟩

theorem AgreeBeforeEnd.stripped (h : AgreeBeforeEnd isSpace s t) : stripped s = stripped t := by
  obtain ⟨q, u, v, rfl, rfl, hu, hv⟩ := h
  exact (rdropWhile_append_all q hu).trans (rdropWhile_append_all q hv).symm

theorem trimmed_head? : ∀ s : List UInt8, (trimmed s).head? = s.head?
  | [] => rfl
  | _ :: _ => rfl

theorem trimmed_blank (h : Blank s) : trimmed s = s.head?.toList := by
  cases s with
  | nil => exact absurd rfl h.1
  | cons c cs => exact trimmed_of_blank h

theorem trimmed_ne_of_blank (h : stripped s = stripped t) (hs : Blank s) (ht : ¬ Blank t) :
    trimmed s ≠ trimmed t := by
  rw [trimmed_eq_stripped ht, ← h]
  exact fun he => trimmed_eq_stripped_iff.mp he hs

theorem trimmed_eq_iff (h : stripped s = stripped t) :
    trimmed s = trimmed t ↔ (Blank s ↔ Blank t) ∧ (Blank s → s.head? = t.head?) := by
  by_cases hs : Blank s
  · by_cases ht : Blank t
    · have hhead : trimmed s = trimmed t ↔ s.head? = t.head? := by
        refine ⟨fun he => ?_, fun he => by rw [trimmed_blank hs, trimmed_blank ht, he]⟩
        rw [← trimmed_head? s, he, trimmed_head?]
      simpa [hs, ht] using hhead
    · exact iff_of_false (trimmed_ne_of_blank h hs ht) fun hb => ht (hb.1.mp hs)
  · by_cases ht : Blank t
    · exact iff_of_false (trimmed_ne_of_blank h.symm ht hs).symm fun hb => hs (hb.1.mpr ht)
    · rw [trimmed_eq_stripped hs, trimmed_eq_stripped ht]
      exact iff_of_true h ⟨iff_of_false hs ht, fun hb => absurd hb hs⟩

end Trimmed

/-- `TrimEnd` trims a string exactly if the string is not white space throughout; two strings
that agree before their end become equal exactly if neither is white space throughout, or both
are and start with the same character. -/
theorem trimEnd_exact_iff {m n : Mem} {a b : ℕ} {s t : List UInt8} (ha : a ≠ 0)
    (h : IsCString m a s) (hs : s.length < 2 ^ 32) (hb : b ≠ 0) (h' : IsCString n b t)
    (ht : t.length < 2 ^ 32) :
    (TrimsExactly m a s ↔ ¬ Blank s) ∧
      (AgreeBeforeEnd isSpace s t →
        (TrimEqual m a n b ↔ (Blank s ↔ Blank t) ∧ (Blank s → s.head? = t.head?))) :=
  ⟨trimsExactly_iff ha h hs, fun hagree =>
    (trimEqual_iff ha h hs hb h' ht).trans (trimmed_eq_iff hagree.stripped)⟩

def spaced (a : ℕ) (s : String) : Mem := store (fun _ => 0) a (ascii s)

theorem isCString_spaced (a : ℕ) {s : String} (h : 0 ∉ ascii s) :
    IsCString (spaced a s) a (ascii s) :=
  ⟨load_store_same _ _, h, store_outside _ _ (.inr (Nat.le_refl _))⟩

theorem trimEnd_exact_iff_key :
    TrimsExactly (spaced 64 "key \t") 64 (ascii "key \t") ∧
      TrimEqual (spaced 64 "key \t") 64 (spaced 96 "key") 96 := by
  obtain ⟨hexact, hequal⟩ := trimEnd_exact_iff (a := 64) (b := 96) (by decide)
    (isCString_spaced 64 (s := "key \t") (by decide)) (by decide) (by decide)
    (isCString_spaced 96 (s := "key") (by decide)) (by decide)
  have hkey : ¬ Blank (ascii "key \t") := fun h => absurd (h.2 107 (by decide)) (by decide)
  have hshort : ¬ Blank (ascii "key") := fun h => absurd (h.2 107 (by decide)) (by decide)
  refine ⟨hexact.mpr hkey, (hequal ?_).mpr ⟨iff_of_false hkey hshort, fun h => absurd h hkey⟩⟩
  exact ⟨ascii "key", ascii " \t", [], by decide, by decide, List.all_eq_true.mp (by decide),
    List.forall_mem_nil _⟩

theorem trimEnd_not_exact : ¬ ∀ (m : Mem) (a : ℕ) (s : List UInt8), a ≠ 0 → IsCString m a s →
    s.length < 2 ^ 32 → TrimsExactly m a s := by
  intro h
  have hspace := isCString_spaced 64 (s := " ") (by decide)
  have hexact := h _ 64 (ascii " ") (by decide) hspace (by decide)
  exact (trimsExactly_iff (by decide) hspace (by decide)).mp hexact
    ⟨by decide, List.all_eq_true.mp (by decide)⟩

end Patchwork.TrimmedStrings
