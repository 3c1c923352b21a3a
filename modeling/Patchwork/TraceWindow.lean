import Mathlib.Data.List.Basic
import Mathlib.Tactic.Common

/-!
# Windows of a trace

A kind of event is kept within a window of a trace if it occurs only behind one
position and before another.
-/

namespace Patchwork.TraceWindow

variable {E : Type*} {L : E → Prop}

/-- Events of the kind `L` occur only strictly between the positions `p` and `q`. -/
def Within (L : E → Prop) (es : List E) (p q : ℕ) : Prop :=
  ∀ i e, es[i]? = some e → L e → p < i ∧ i < q

section Append
variable {xs ys zs : List E} {o : E}

theorem getElem?_window (i : ℕ) : (xs ++ o :: (ys ++ zs))[xs.length + 1 + i]? = (ys ++ zs)[i]? := by
  rw [List.getElem?_append_right (by omega), Nat.add_assoc, Nat.add_sub_cancel_left,
    Nat.add_comm, List.getElem?_cons_succ]

theorem Within.before (h : Within L (xs ++ o :: (ys ++ zs)) xs.length (xs.length + 1 + ys.length)) :
    ∀ e ∈ xs, ¬ L e := by
  intro e he hL
  obtain ⟨i, hi, rfl⟩ := List.mem_iff_getElem.mp he
  have hget : (xs ++ o :: (ys ++ zs))[i]? = some xs[i] := by
    rw [List.getElem?_append_left hi, List.getElem?_eq_getElem hi]
  exact Nat.lt_asymm hi (h i _ hget hL).1

theorem Within.after (h : Within L (xs ++ o :: (ys ++ zs)) xs.length (xs.length + 1 + ys.length)) :
    ∀ e ∈ zs, ¬ L e := by
  intro e he hL
  obtain ⟨i, hi, rfl⟩ := List.mem_iff_getElem.mp he
  have hget : (xs ++ o :: (ys ++ zs))[xs.length + 1 + (ys.length + i)]? = some zs[i] := by
    rw [getElem?_window, List.getElem?_append_right (by omega), Nat.add_sub_cancel_left,
      List.getElem?_eq_getElem hi]
  have hlt := (h _ _ hget hL).2
  omega

theorem within_iff (ho : ¬ L o) :
    Within L (xs ++ o :: (ys ++ zs)) xs.length (xs.length + 1 + ys.length) ↔
      (∀ e ∈ xs, ¬ L e) ∧ ∀ e ∈ zs, ¬ L e := by
  refine ⟨fun h => ⟨h.before, h.after⟩, fun ⟨hxs, hzs⟩ i e hi hL => ?_⟩
  rcases Nat.lt_trichotomy i xs.length with hlt | rfl | hgt
  · rw [List.getElem?_append_left hlt] at hi
    exact absurd hL (hxs e (List.mem_of_getElem? hi))
  · rw [List.getElem?_append_right (Nat.le_refl _), Nat.sub_self, List.getElem?_cons_zero] at hi
    cases hi
    exact absurd hL ho
  · obtain ⟨k, rfl⟩ := Nat.exists_eq_add_of_lt hgt
    rw [show xs.length + k + 1 = xs.length + 1 + k by omega, getElem?_window] at hi
    rcases Nat.lt_or_ge k ys.length with hk | hk
    · omega
    · rw [List.getElem?_append_right hk] at hi
      exact absurd hL (hzs e (List.mem_of_getElem? hi))

end Append

end Patchwork.TraceWindow
