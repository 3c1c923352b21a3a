import Mathlib.Logic.Relation
import Mathlib.Tactic.Common

/-!
# Loops with an explicit number of rounds

A loop body takes the loop's state and either asks for another round or leaves
with a result. `run body n s` allows `n` rounds; `none` means that they were not
enough. The rules below are the ones a proof about a loop needs: an invariant, a
variant that bounds the rounds, and the independence of the result from them.
-/

namespace Patchwork.BoundedLoop

universe u v
variable {σ : Type u} {ρ : Type v}

inductive Pass (σ : Type u) (ρ : Type v) where
  | again : σ → Pass σ ρ
  | leave : ρ → Pass σ ρ

def run (body : σ → Pass σ ρ) : ℕ → σ → Option ρ
  | 0, _ => none
  | n + 1, s =>
    match body s with
    | .again s' => run body n s'
    | .leave r => some r

theorem run_again {body : σ → Pass σ ρ} {s s' : σ} (h : body s = .again s') (n : ℕ) :
    run body (n + 1) s = run body n s' := by
  simp only [run, h]

theorem run_leave {body : σ → Pass σ ρ} {s : σ} {r : ρ} (h : body s = .leave r) (n : ℕ) :
    run body (n + 1) s = some r := by
  simp only [run, h]

/-- The invariant rule: what every round preserves holds when the loop leaves. -/
theorem run_invariant (body : σ → Pass σ ρ) (I : σ → Prop) (Q : ρ → Prop)
    (step : ∀ s s', I s → body s = .again s' → I s')
    (exit : ∀ s r, I s → body s = .leave r → Q r)
    {n : ℕ} {s : σ} {r : ρ} (hs : I s) (h : run body n s = some r) : Q r := by
  induction n generalizing s with
  | zero => simp [run] at h
  | succ n ih =>
    cases hb : body s with
    | again s' =>
      rw [run_again hb] at h
      exact ih (step s s' hs hb) h
    | leave r' =>
      rw [run_leave hb] at h
      cases h
      exact exit s r hs hb

/-- The variant rule: a measure that falls in every round bounds the rounds. -/
theorem run_total (body : σ → Pass σ ρ) (I : σ → Prop) (μ : σ → ℕ)
    (step : ∀ s s', I s → body s = .again s' → I s' ∧ μ s' < μ s)
    {n : ℕ} {s : σ} (hs : I s) (hn : μ s < n) : ∃ r, run body n s = some r := by
  induction n generalizing s with
  | zero => omega
  | succ n ih =>
    cases hb : body s with
    | again s' =>
      obtain ⟨hI, hμ⟩ := step s s' hs hb
      rw [run_again hb]
      exact ih hI (by omega)
    | leave r => exact ⟨r, run_leave hb n⟩

theorem run_spec (body : σ → Pass σ ρ) (I : σ → Prop) (μ : σ → ℕ) (Q : ρ → Prop)
    (step : ∀ s s', I s → body s = .again s' → I s' ∧ μ s' < μ s)
    (exit : ∀ s r, I s → body s = .leave r → Q r)
    {n : ℕ} {s : σ} (hs : I s) (hn : μ s < n) : ∃ r, run body n s = some r ∧ Q r := by
  obtain ⟨r, hr⟩ := run_total body I μ step hs hn
  exact ⟨r, hr, run_invariant body I Q (fun s s' h hb => (step s s' h hb).1) exit hs hr⟩

/-- `Rounds body s s'`: from `s` the loop comes to `s'` after some rounds. -/
def Rounds (body : σ → Pass σ ρ) : σ → σ → Prop :=
  Relation.ReflTransGen (fun s s' => body s = .again s')

namespace Rounds
variable {body : σ → Pass σ ρ} {s s' s'' : σ}

theorem refl (s : σ) : Rounds body s s := Relation.ReflTransGen.refl

theorem head (h : body s = .again s') (t : Rounds body s' s'') : Rounds body s s'' :=
  Relation.ReflTransGen.head h t

theorem trans (h : Rounds body s s') (t : Rounds body s' s'') : Rounds body s s'' :=
  Relation.ReflTransGen.trans h t

theorem run_eq {r : ρ} {n : ℕ} (h : Rounds body s s') (hl : body s' = .leave r)
    (hn : ∃ r, run body n s = some r) : run body n s = some r := by
  induction h using Relation.ReflTransGen.head_induction_on generalizing n with
  | refl =>
    obtain ⟨q, hq⟩ := hn
    cases n with
    | zero => simp [run] at hq
    | succ n => exact run_leave hl n
  | head hstep _ ih =>
    obtain ⟨q, hq⟩ := hn
    cases n with
    | zero => simp [run] at hq
    | succ n =>
      rw [run_again hstep] at hq ⊢
      exact ih ⟨q, hq⟩

end Rounds

def Reaches (body : σ → Pass σ ρ) (k : ℕ) (s s' : σ) : Prop :=
  ∀ n, run body (k + n) s = run body n s'

namespace Reaches
variable {body : σ → Pass σ ρ} {s s' s'' : σ} {k k' : ℕ}

theorem refl (s : σ) : Reaches body 0 s s := fun n => by rw [Nat.zero_add]

theorem one (h : body s = .again s') : Reaches body 1 s s' := fun n => by
  rw [Nat.add_comm, run_again h]

theorem trans (h : Reaches body k s s') (h' : Reaches body k' s' s'') :
    Reaches body (k + k') s s'' := fun n => by
  rw [Nat.add_assoc, h, h']

theorem run_eq {r : ρ} {n : ℕ} (h : Reaches body k s s') (hl : body s' = .leave r) (hn : k < n) :
    run body n s = some r := by
  obtain ⟨j, rfl⟩ := Nat.exists_eq_add_of_lt hn
  rw [Nat.add_assoc, h, run_leave hl]

end Reaches
end Patchwork.BoundedLoop
