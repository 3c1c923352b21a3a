import Patchwork.Update

/-!
# The three answers

`DownloadUpdate` sets its answer by the two header calls, and the status and the
comparison overwrite it. A readable header makes any status but 200 look up to date,
and the comparison is made after a 200 whether the header was read or not.
-/

namespace Patchwork.UpdateAnswers
open Console Update

section Answers
variable (env : Env) (locals : Locals) (pool poolSize serverUrl : ℕ) (w : World)

def HeaderReadable : Prop :=
  0 ≤ env.code (connected env locals pool poolSize serverUrl w).world.now ∧
    0 ≤ env.code ((connected env locals pool poolSize serverUrl w).world.now + 1)

structure Honest (answer : ℤ) : Prop where
  upToDate : answer = 0 → Answered env locals pool poolSize serverUrl w 204
  downloaded : answer = 1 → Answered env locals pool poolSize serverUrl w 200 ∧
    HeaderReadable env locals pool poolSize serverUrl w
  otherwise : answer = 0 ∨ answer = 1 ∨ answer = 2

/-- An answer with another status has no readable header, and one with status 200 is not
accepted without it. -/
structure HeaderDecides : Prop where
  other : ∀ status, Answered env locals pool poolSize serverUrl w status → status ≠ 200 →
    status ≠ 204 → ¬ HeaderReadable env locals pool poolSize serverUrl w
  unread : Answered env locals pool poolSize serverUrl w 200 →
    ¬ HeaderReadable env locals pool poolSize serverUrl w →
    ¬ Accepted env locals pool poolSize serverUrl w

variable {env locals pool poolSize serverUrl w}

theorem headerFetched_iff : HeaderFetched env locals pool poolSize serverUrl w ↔
    HeaderReadable env locals pool poolSize serverUrl w := by
  unfold HeaderFetched HeaderReadable fetched fetchHeader
  generalize (connected env locals pool poolSize serverUrl w).world = w₁
  by_cases hfirst : env.code w₁.now < 0
  · refine iff_of_false (fun herr => ?_) fun h => Int.not_lt.mpr h.1 hfirst
    simp only [cellHttp, hfirst, if_true] at herr
    split_ifs at herr <;> simp at herr
  · by_cases hsecond : env.code (w₁.now + 1) < 0
    · simp [cellHttp, hfirst, hsecond]
    · simp [cellHttp, hfirst, hsecond, Int.not_lt.mp hfirst, Int.not_lt.mp hsecond]

variable (env locals pool poolSize serverUrl w)

/-- The answers mean what they are to mean exactly when the header decides nothing that the
status should decide. -/
theorem downloadUpdate_honest_iff :
    ∃ r, downloadUpdate env locals pool poolSize serverUrl w = some r ∧
      (Honest env locals pool poolSize serverUrl w r.value ↔
        HeaderDecides env locals pool poolSize serverUrl w) := by
  obtain ⟨r, hr, -, hthree, hone, hzero⟩ :=
    downloadUpdate_answers env locals pool poolSize serverUrl w
  refine ⟨r, hr, fun honest => ⟨fun status answered not200 not204 readable => ?_,
    fun _ unreadable accepted => ?_⟩, fun decides => ⟨fun h0 => ?_, fun h1 => ?_, hthree⟩⟩
  · have h0 := hzero.mpr (.unchanged answered not200 (headerFetched_iff.mpr readable))
    exact not204 (answered.unique (honest.upToDate h0))
  · exact unreadable (honest.downloaded (hone.mpr accepted)).2
  · cases hzero.mp h0 with
    | noContent answered => exact answered
    | @unchanged status answered not200 header =>
      by_cases h204 : status = 204
      · exact h204 ▸ answered
      · exact absurd (headerFetched_iff.mp header) (decides.other _ answered not200 h204)
  · have accepted := hone.mp h1
    exact ⟨accepted.answered, not_not.mp fun unreadable =>
      decides.unread accepted.answered unreadable accepted⟩

end Answers

def missingEnv : Env := { unopenedEnv with statusCode := 404 }

theorem downloadUpdate_dishonest : ¬ ∀ (env : Env) (locals : Locals) (pool poolSize url : ℕ)
    (w : World) (r : Called ℤ), downloadUpdate env locals pool poolSize url w = some r →
    Honest env locals pool poolSize url w r.value := by
  intro h
  have hv : (downloadUpdate missingEnv staleLocals 1 65536 1 freshWorld).map
      (fun r => r.value) = some 0 := by decide +kernel
  obtain ⟨r, hr, h0⟩ := Option.map_eq_some_iff.mp hv
  have hstatus := ((h _ _ _ _ _ _ _ hr).upToDate h0).status
  exact absurd hstatus (by decide +kernel)

end Patchwork.UpdateAnswers
