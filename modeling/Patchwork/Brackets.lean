import Mathlib.Data.List.Basic
import Mathlib.Tactic.Common

/-!
# Well-bracketed resources

Acquisitions and releases nest: what is used is open, what is released was the
last to be opened, and nothing is open at the end.
-/

namespace Patchwork.Brackets

inductive Action (R : Type*) where
  | acquire (r : R)
  | use (r : R)
  | release (r : R)
deriving DecidableEq, Repr

variable {R : Type*}

/-- The actions close what is open, the last opened first, and touch nothing else. -/
def WellBracketed : List R → List (Action R) → Prop
  | s, [] => s = []
  | s, .acquire r :: as => WellBracketed (r :: s) as
  | s, .use r :: as => r ∈ s ∧ WellBracketed s as
  | [], .release _ :: _ => False
  | r' :: s, .release r :: as => r = r' ∧ WellBracketed s as

section Rules
variable {r : R} {s : List R} {as bs : List (Action R)}

@[simp] theorem wellBracketed_nil : WellBracketed s ([] : List (Action R)) ↔ s = [] := by
  cases s <;> simp [WellBracketed]

@[simp] theorem wellBracketed_acquire :
    WellBracketed s (.acquire r :: as) ↔ WellBracketed (r :: s) as := by
  cases s <;> rfl

@[simp] theorem wellBracketed_use :
    WellBracketed s (.use r :: as) ↔ r ∈ s ∧ WellBracketed s as := by
  cases s <;> rfl

@[simp] theorem wellBracketed_release :
    WellBracketed s (.release r :: as) ↔ ∃ s', s = r :: s' ∧ WellBracketed s' as := by
  cases s with
  | nil => simp [WellBracketed]
  | cons r' s =>
    constructor
    · intro h
      obtain ⟨rfl, h⟩ := h
      exact ⟨s, rfl, h⟩
    · intro h
      obtain ⟨s', hs, h⟩ := h
      cases hs
      exact ⟨rfl, h⟩

def Action.Opens (P : R → Prop) : Action R → Prop
  | .acquire r => P r
  | .use _ => True
  | .release _ => False

theorem WellBracketed.after {P : R → Prop} (hP : ∀ a ∈ as, a.Opens P)
    (h : WellBracketed s (as ++ bs)) : ∃ rs, (∀ r ∈ rs, P r) ∧ WellBracketed (rs ++ s) bs := by
  induction as generalizing s with
  | nil => exact ⟨[], by simp, h⟩
  | cons a as ih =>
    have hrest : ∀ a ∈ as, a.Opens P := fun b hb => hP b (List.mem_cons_of_mem a hb)
    cases a with
    | acquire r =>
      obtain ⟨rs, hrs, h⟩ := ih hrest (wellBracketed_acquire.mp h)
      refine ⟨rs ++ [r], fun x hx => ?_, by simpa using h⟩
      rcases List.mem_append.mp hx with hx | hx
      · exact hrs x hx
      · rw [List.mem_singleton.mp hx]
        exact hP _ List.mem_cons_self
    | use r => exact ih hrest (wellBracketed_use.mp h).2
    | release r => exact absurd (hP _ List.mem_cons_self) not_false

end Rules

instance decideWellBracketed [DecidableEq R] :
    (s : List R) → (as : List (Action R)) → Decidable (WellBracketed s as)
  | s, [] => decidable_of_iff (s = []) wellBracketed_nil.symm
  | s, .acquire r :: as =>
    have := decideWellBracketed (r :: s) as
    decidable_of_iff _ wellBracketed_acquire.symm
  | s, .use r :: as =>
    have := decideWellBracketed s as
    decidable_of_iff (r ∈ s ∧ _) wellBracketed_use.symm
  | [], .release _ :: _ => .isFalse not_false
  | r' :: s, .release r :: as =>
    have := decideWellBracketed s as
    inferInstanceAs (Decidable (r = r' ∧ WellBracketed s as))

section Balanced
variable [DecidableEq R] {r : R} {s s' s'' : List R} {as bs : List (Action R)}

/-- From what is open, everything that is or becomes open is released once, in whatever order,
and nothing else is touched. -/
def Balanced : List R → List (Action R) → Prop
  | s, [] => s = []
  | s, .acquire r :: as => r ∉ s ∧ Balanced (r :: s) as
  | s, .use r :: as => r ∈ s ∧ Balanced s as
  | s, .release r :: as => r ∈ s ∧ Balanced (s.erase r) as

def Leads (s : List R) (as : List (Action R)) (s' : List R) : Prop :=
  ∀ bs, Balanced s (as ++ bs) ↔ Balanced s' bs

namespace Leads

theorem nil : Leads s [] s := fun _ => Iff.rfl

theorem append (h : Leads s as s') (h' : Leads s' bs s'') : Leads s (as ++ bs) s'' := fun cs => by
  rw [List.append_assoc, h, h']

theorem acquire (hr : r ∉ s) : Leads s [.acquire r] (r :: s) := fun _ => and_iff_right hr

theorem use (hr : r ∈ s) : Leads s [.use r] s := fun _ => and_iff_right hr

theorem release (hr : r ∈ s) : Leads s [.release r] (s.erase r) := fun _ => and_iff_right hr

theorem balanced_iff (h : Leads s as s') : Balanced s as ↔ s' = [] := by
  have hend := h []
  rwa [List.append_nil] at hend

end Leads

theorem Balanced.count (h : Balanced s as) :
    as.count (.release r) = as.count (.acquire r) + s.count r := by
  induction as generalizing s with
  | nil =>
    obtain rfl : s = [] := h
    rfl
  | cons a as ih =>
    cases a with
    | acquire r' =>
      have hrest := ih h.2
      rw [List.count_cons_of_ne (by simp), hrest]
      by_cases hr : r' = r
      · subst hr
        rw [List.count_cons_self, List.count_cons_self]
        omega
      · rw [List.count_cons_of_ne hr, List.count_cons_of_ne (by simpa using hr)]
    | use r' =>
      have hrest := ih h.2
      rwa [List.count_cons_of_ne (by simp), List.count_cons_of_ne (by simp)]
    | release r' =>
      have hrest := ih h.2
      rw [List.count_cons_of_ne (show Action.release r' ≠ .acquire r by simp)]
      by_cases hr : r' = r
      · subst hr
        have hpos := List.count_pos_iff.mpr h.1
        rw [List.count_erase_self] at hrest
        rw [List.count_cons_self, hrest]
        omega
      · rw [List.count_erase_of_ne (Ne.symm hr)] at hrest
        rwa [List.count_cons_of_ne (by simpa using hr)]

end Balanced

end Patchwork.Brackets
