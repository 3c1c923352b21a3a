import Patchwork.Brackets
import Patchwork.CopyOutcome

/-!
# Descriptors

Which descriptors the four functions on files open, use and close. `ReadFile` and
`CopyFile` close on every exit what they have opened. `WriteFile` closes its local
also when the open failed, and `HttpDownloadFile` returns without closing when a
receive fails or a write takes nothing.
-/

namespace Patchwork.Descriptors
open Brackets BoundedLoop Console Fs Http CopyOutcome

def descriptorActions : Event → List (Action ℕ)
  | .opened _ _ (some fd) => [.acquire fd]
  | .read fd _ => [.use fd]
  | .written fd .. => [.use fd]
  | .closed fd => [.release fd]
  | _ => []

def Closes (w w' : World) : Prop :=
  ∃ es, w'.trace = w.trace ++ es ∧ Balanced [] (es.flatMap descriptorActions)

def Turns (s s' : List ℕ) (w w' : World) : Prop :=
  ∃ es, w'.trace = w.trace ++ es ∧ Leads s (es.flatMap descriptorActions) s'

namespace Turns
variable {s s' s'' : List ℕ} {w w₁ w₂ : World} {fd : ℕ} {e : Event}

theorem trans (h : Turns s s' w w₁) (h' : Turns s' s'' w₁ w₂) : Turns s s'' w w₂ := by
  obtain ⟨es, he, hleads⟩ := h
  obtain ⟨es', he', hleads'⟩ := h'
  refine ⟨es ++ es', by rw [he', he, List.append_assoc], ?_⟩
  rw [List.flatMap_append]
  exact hleads.append hleads'

theorem one (h : w₁.trace = w.trace ++ [e]) (hleads : Leads s (descriptorActions e) s') :
    Turns s s' w w₁ := ⟨[e], h, by simpa using hleads⟩

theorem of_emits {P : Event → Prop} (h : Emits P w w₁)
    (hP : ∀ e, P e → Leads s (descriptorActions e) s) : Turns s s w w₁ := by
  obtain ⟨es, he, hall⟩ := h
  refine ⟨es, he, ?_⟩
  clear he
  induction es with
  | nil => exact .nil
  | cons e es ih =>
    rw [List.flatMap_cons]
    exact (hP e (hall e List.mem_cons_self)).append
      (ih fun e' he' => hall e' (List.mem_cons_of_mem _ he'))

theorem closes_iff (h : Turns [] s w w₁) : Closes w w₁ ↔ s = [] := by
  obtain ⟨es, he, hleads⟩ := h
  rw [← hleads.balanced_iff, Closes]
  constructor
  · intro hcloses
    obtain ⟨es', he', hbalanced⟩ := hcloses
    rwa [List.append_cancel_left (he.symm.trans he')]
  · exact fun hbalanced => ⟨es, he, hbalanced⟩

end Turns

theorem Closes.once {w w' : World} (h : Closes w w') (fd : ℕ) :
    ∃ es, w'.trace = w.trace ++ es ∧ (es.flatMap descriptorActions).count (.release fd) =
      (es.flatMap descriptorActions).count (.acquire fd) := by
  obtain ⟨es, he, hbalanced⟩ := h
  exact ⟨es, he, hbalanced.count⟩

theorem Event.Uses.leads {s : List ℕ} {fd : ℕ} {e : Event} (h : e.Uses fd) (hfd : fd ∈ s) :
    Leads s (descriptorActions e) s := by
  cases e with
  | read fd' count =>
    obtain rfl : fd' = fd := h
    exact .use hfd
  | written fd' ok count =>
    obtain rfl : fd' = fd := h
    exact .use hfd
  | _ => exact h.elim

section Steps
variable (env : Env) {s : List ℕ} {w w₁ : World} {fd : ℕ} {path : String} {mode : Mode}

theorem afterOpen_turns (h : w.now + 1 ∉ s) :
    Turns s ((w.now + 1) :: s) w (afterOpen path mode w) := .one rfl (.acquire h)

theorem unopened_turns : Turns s s w (w.emit (.opened path mode none)) := .one rfl .nil

theorem close_turns (h : fd ∈ s) (hw : w₁.trace = w.trace ++ [.closed fd]) :
    Turns s (s.erase fd) w w₁ := .one hw (.release h)

theorem uses_turns (h : Emits (Event.Uses fd) w w₁) (hfd : fd ∈ s) : Turns s s w w₁ :=
  .of_emits h fun _ he => Event.Uses.leads he hfd

theorem closeBoth_turns {source target : ℕ} (hne : target ≠ source) (w : World) :
    Turns [target, source] [] w (cellFsClose target (cellFsClose source w)) := by
  have hfirst : Turns [target, source] ([target, source].erase source) w (cellFsClose source w) :=
    close_turns (by simp) rfl
  have hsecond : Turns [target] ([target].erase target) (cellFsClose source w)
      (cellFsClose target (cellFsClose source w)) := close_turns (by simp) rfl
  rw [List.erase_cons_tail (by simpa using hne), List.erase_cons_head] at hfirst
  rw [List.erase_cons_head] at hsecond
  exact hfirst.trans hsecond

end Steps

section Functions
variable (env : Env)

theorem readFile_closes (path : String) (buf size : ℕ) (w : World) :
    Closes w (readFile env path buf size w).world := by
  by_cases ho : Opens env path .rdonly w
  · have hread : Turns [] [w.now + 1] w
        (cellFsRead env (w.now + 1) size (afterOpen path .rdonly w)).world :=
      (afterOpen_turns (by simp)).trans (uses_turns (cellFsRead_uses env) (by simp))
    unfold readFile
    rw [cellFsOpen_pos env ho]
    dsimp only
    split
    · have hdialog : Turns [w.now + 1] [w.now + 1] _ (errorDialog "Failed to read file"
          (cellFsRead env (w.now + 1) size (afterOpen path .rdonly w)).world) := .one rfl .nil
      exact ((hread.trans hdialog).trans (close_turns (by simp) rfl)).closes_iff.mpr (by simp)
    · exact (hread.trans (close_turns (by simp) rfl)).closes_iff.mpr (by simp)
  · unfold readFile
    rw [cellFsOpen_neg env ho]
    exact (unopened_turns (s := [])).closes_iff.mpr rfl

theorem writeFile_closes_iff (fp₀ : ℕ) (path : String) (bytes : List UInt8) (w : World) :
    Closes w (writeFile env fp₀ path bytes w) ↔ env.opens w.now = true := by
  by_cases ho : env.opens w.now = true
  · have hwrite : Turns [] [w.now + 1] w
        (cellFsWrite env (w.now + 1) bytes (afterOpen path .wronlyCreatTrunc w)).world :=
      (afterOpen_turns (by simp)).trans (uses_turns (cellFsWrite_uses env) (by simp))
    rw [writeFile, cellFsOpen_pos env ⟨ho, by simp⟩]
    exact iff_of_true
      ((hwrite.trans (close_turns (by simp) rfl)).closes_iff.mpr (by simp)) ho
  · -- nothing is open when the local is closed
    rw [writeFile, cellFsOpen_neg env (by simp [Opens, ho])]
    refine iff_of_false (fun hcloses => ?_) ho
    obtain ⟨es, he, hbalanced⟩ := hcloses
    have hes : es = [.opened path .wronlyCreatTrunc none, .closed fp₀] := by
      refine List.append_cancel_left (he.symm.trans ?_)
      simp [cellFsClose]
    rw [hes] at hbalanced
    exact absurd hbalanced.1 (by simp)

theorem copyFile_opened_closes {src dst : String} {w : World} {r : Called ℤ}
    (hs : Opens env src .rdonly w) (ht : env.opens (w.now + 1) = true)
    (hr : copyFile env src dst w = some r) : Closes w r.world := by
  let w₁ := afterOpen src .rdonly w
  let w₂ := afterOpen dst .wronlyCreatTrunc w₁
  have hsource : Turns [] [w.now + 1] w w₁ := afterOpen_turns (by simp)
  have htarget : Turns [w.now + 1] [w.now + 2, w.now + 1] w₁ w₂ := by
    have h : Turns [w.now + 1] [w₁.now + 1, w.now + 1] w₁ w₂ := afterOpen_turns (by simp [w₁])
    rwa [show w₁.now = w.now + 1 from afterOpen_now] at h
  rw [copyFile_opened env hs ht] at hr
  obtain ⟨r₀, hrun, rfl⟩ := Option.map_eq_some_iff.mp hr
  have hloop : Turns [w.now + 2, w.now + 1] [w.now + 2, w.now + 1] w₂ r₀.world :=
    .of_emits (copyRounds_uses env hrun) fun _ he =>
      he.elim (fun h => Event.Uses.leads h (by simp)) fun h => Event.Uses.leads h (by simp)
  have hbefore := (hsource.trans htarget).trans hloop
  split
  · have hcopied : Turns [w.now + 2, w.now + 1] [w.now + 2, w.now + 1] r₀.world
        (r₀.world.emit (.copied src dst)) := .one rfl .nil
    exact ((hbefore.trans hcopied).trans (closeBoth_turns (by omega) _)).closes_iff.mpr rfl
  · exact (hbefore.trans (closeBoth_turns (by omega) _)).closes_iff.mpr rfl

theorem copyFile_closes (src dst : String) (w : World) :
    ∃ r, copyFile env src dst w = some r ∧ Closes w r.world := by
  obtain ⟨r, hr⟩ := copyFile_total env src dst w
  refine ⟨r, hr, ?_⟩
  by_cases hs : Opens env src .rdonly w
  · by_cases ht : env.opens (w.now + 1) = true
    · exact copyFile_opened_closes env hs ht hr
    · have hsource : Turns [] [w.now + 1] w (afterOpen src .rdonly w) := afterOpen_turns (by simp)
      rw [copyFile, cellFsOpen_pos env hs] at hr
      dsimp only at hr
      rw [cellFsOpen_neg env (by simp [Opens, ht])] at hr
      obtain rfl := Option.some.inj hr
      exact ((hsource.trans unopened_turns).trans (close_turns (by simp) rfl)).closes_iff.mpr
        (by simp)
  · rw [copyFile, cellFsOpen_neg env hs] at hr
    obtain rfl := Option.some.inj hr
    exact (unopened_turns (s := [])).closes_iff.mpr rfl

theorem httpDownloadFile_closes_iff (trans : HttpTransaction) (path : String)
    (hashBuf : Option Digest) (w : World) :
    ∃ r, httpDownloadFile env trans path hashBuf w = some r ∧
      (Closes w r.world ↔ (env.opens w.now = true → Stores env (w.now + 1) w.incoming)) := by
  by_cases ho : env.opens w.now = true
  · let w₁ := afterOpen path .wronlyCreatTrunc w
    obtain ⟨r, hr, hrec⟩ := receiveRounds_spec env trans.transId (s := ⟨[], w₁⟩)
      (n := w.incoming.length + 1)
      (show w₁.handle (w.now + 1) = some ⟨path, 0⟩ by simp [w₁]) (by simp [w₁])
      (Nat.lt_succ_self _)
    have hloop : Turns [] [w.now + 1] w r.world := by
      refine (afterOpen_turns (by simp)).trans
        (.of_emits (receiveRounds_uses env hr) fun e he => ?_)
      obtain h | ⟨code, rfl⟩ := he
      · exact Event.Uses.leads h (by simp)
      · exact .nil
    have hnow : w₁.now = w.now + 1 := afterOpen_now
    rw [httpDownloadFile_opened env trans hashBuf ho, hr, imp_iff_right ho, Option.map_some]
    refine ⟨_, rfl, ?_⟩
    by_cases hstores : Stores env (w.now + 1) w.incoming
    · obtain ⟨body, -, hv, -⟩ := hrec.whole (hnow.symm ▸ hstores)
      simp only [hv]
      exact iff_of_true
        ((hloop.trans (close_turns (by simp) rfl)).closes_iff.mpr (by simp)) hstores
    · simp only [(hrec.broken (hnow.symm ▸ hstores)).1]
      exact iff_of_false (fun h => by simpa using hloop.closes_iff.mp h) hstores
  · rw [httpDownloadFile, cellFsOpen_neg env (by simp [Opens, ho])]
    exact ⟨_, rfl, iff_of_true ((unopened_turns (s := [])).closes_iff.mpr rfl) fun h => absurd h ho⟩

end Functions

/-- Every run of `ReadFile` and `CopyFile` closes what it opens; one of `WriteFile` does exactly
if its file opens, and one of `HttpDownloadFile` unless its file opens and the download breaks
off. -/
theorem descriptors_closed_iff (env : Env) :
    (∀ path buf size w, Closes w (readFile env path buf size w).world) ∧
    (∀ fp₀ path bytes w, Closes w (writeFile env fp₀ path bytes w) ↔ env.opens w.now = true) ∧
    (∀ src dst w, ∃ r, copyFile env src dst w = some r ∧ Closes w r.world) ∧
    ∀ trans path hashBuf w, ∃ r, httpDownloadFile env trans path hashBuf w = some r ∧
      (Closes w r.world ↔ (env.opens w.now = true → Stores env (w.now + 1) w.incoming)) :=
  ⟨readFile_closes env, writeFile_closes_iff env, copyFile_closes env,
    httpDownloadFile_closes_iff env⟩

/-- The local of `WriteFile` may hold the number of the open log. -/
theorem writeFile_not_closes : ¬ ∀ (env : Env) (fp₀ : ℕ) (path : String) (bytes : List UInt8)
    (w : World), Closes w (writeFile env fp₀ path bytes w) := by
  intro h
  have hclosed := h Update.unopenedEnv 7 "/dev_hdd0/tmp/wm_request" []
    { Update.freshWorld with logFP := 7 }
  exact absurd ((writeFile_closes_iff ..).mp hclosed) (by decide)

end Patchwork.Descriptors
