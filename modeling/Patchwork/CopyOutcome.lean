import Patchwork.Update

/-!
# What a copy reports

`CopyFile` answers 0 where one of the files does not open, although nothing was
copied, and -1 where the last call of a copy fails that has stored everything. Its
answer tells whether the destination is as the source in all other runs.
-/

namespace Patchwork.CopyOutcome
open BoundedLoop Console Fs
variable (env : Env)

def ReadsSome : Prop := ∀ i, (env.reads i).ok = true → 0 < (env.reads i).count

/-- The writes of `n` bytes from reply `i` on store them all, and the last one reports an
error. -/
inductive Spoils : ℕ → ℕ → Prop
  | last {i n : ℕ} (some : 0 < n) (all : n ≤ (env.writes i).count)
      (bad : (env.writes i).ok = false) : Spoils i n
  | write {i n : ℕ} (room : 0 < min (env.writes i).count n) (ok : (env.writes i).ok = true)
      (rest : Spoils (i + 1) (n - min (env.writes i).count n)) : Spoils i n

/-- The copy of `left` bytes from reply `i` on fails when they are all stored: at the read that
would find the end, or at the write that stores the last of them. -/
inductive FailsLate : ℕ → ℕ → Prop
  | read {i : ℕ} (bad : (env.reads i).ok = false) : FailsLate i 0
  | write {i left : ℕ} (ok : (env.reads i).ok = true) (all : nextRead env i left = left)
      (spoils : Spoils env (i + 1) left) : FailsLate i left
  | round {i left j : ℕ} (ok : (env.reads i).ok = true) (some : 0 < nextRead env i left)
      (taken : Accepts env true (i + 1) (nextRead env i left) j)
      (rest : FailsLate j (left - nextRead env i left)) : FailsLate i left

/-- Whether the answer of a copy tells if the destination is as the source. -/
inductive Tells (src dst : String) (w : World) : Prop
  | unopened (no : ¬ OpensBoth env src w) (there : (w.file src).isSome)
      (same : w.file dst = w.file src)
  | copied {content : List UInt8} (opens : OpensBoth env src w) (source : w.file src = some content)
      (apart : src ≠ dst) (late : ¬ FailsLate env (w.now + 2) content.length)
  | emptied {content : List UInt8} (opens : OpensBoth env src w)
      (source : w.file src = some content) (itself : src = dst)
      (empty : (env.reads (w.now + 2)).ok = true ↔ content = [])

section Spoils
variable {env} {i n j : ℕ}

theorem Spoils.pos (h : Spoils env i n) : 0 < n := by
  cases h with
  | last some => exact some
  | write room => omega

theorem spoils_iff (hn : 0 < n) : Spoils env i n ↔
    (n ≤ (env.writes i).count ∧ (env.writes i).ok = false) ∨
      (0 < min (env.writes i).count n ∧ (env.writes i).ok = true ∧
        Spoils env (i + 1) (n - min (env.writes i).count n)) := by
  constructor
  · intro h
    cases h with
    | last _ all bad => exact .inl ⟨all, bad⟩
    | write room ok rest => exact .inr ⟨room, ok, rest⟩
  · intro h
    obtain ⟨all, bad⟩ | ⟨room, ok, rest⟩ := h
    · exact .last hn all bad
    · exact .write room ok rest

theorem Accepts.not_spoils (h : Accepts env true i n j) : ¬ Spoils env i n := by
  induction h with
  | done i => exact fun hs => Nat.lt_irrefl 0 hs.pos
  | write room ok rest ih =>
    intro hs
    obtain ⟨-, bad⟩ | ⟨-, -, hrest⟩ := (spoils_iff (by omega)).mp hs
    · rw [ok rfl] at bad
      cases bad
    · exact ih hrest

end Spoils

section WriteAll
variable {fd offset : ℕ} {h : Handle} {bytes : List UInt8} {w : World}

theorem writeAll_spoils (bytes : List UInt8) (offset : ℕ)
    (hh : w.handle fd = some h) : ∀ old, w.file h.path = some old →
    (writeAll env true fd bytes offset w).value = false →
      ((writeAll env true fd bytes offset w).world.file h.path =
          some (old ++ bytes.drop offset) ↔ Spoils env w.now (bytes.length - offset)) := by
  induction offset, w using writeAll.induct env true fd bytes with
  | case1 offset w hlt r hstop =>
    intro old hold _
    have hok : r.value.ok = (env.writes w.now).ok := cellFsWrite_ok env hh
    have hcount : r.value.count = min (env.writes w.now).count (bytes.length - offset) := by
      rw [cellFsWrite_count env hh, List.length_drop]
    have hfile := (cellFsWrite_appended env (bytes.drop offset) hh (by simp [hold])).file_self hold
    rw [writeAll_stop hlt hstop, hfile, Option.some.injEq, List.append_cancel_left_eq,
      List.take_eq_self_iff, List.length_drop, spoils_iff (by omega), ← hok]
    change bytes.length - offset ≤ r.value.count ↔ _
    constructor
    · intro hall
      obtain ⟨-, hbad⟩ | h0 := hstop
      · exact .inl ⟨by omega, hbad⟩
      · change r.value.count = 0 at h0
        omega
    · intro hspoils
      obtain ⟨hall, -⟩ | ⟨hroom, hgood, -⟩ := hspoils
      · omega
      · obtain ⟨-, hbad⟩ | h0 := hstop
        · change r.value.ok = false at hbad
          rw [hgood] at hbad
          cases hbad
        · change r.value.count = 0 at h0
          omega
  | case2 offset w hlt r hgo ih =>
    intro old hold
    have hok : r.value.ok = (env.writes w.now).ok := cellFsWrite_ok env hh
    have hcount : r.value.count = min (env.writes w.now).count (bytes.length - offset) := by
      rw [cellFsWrite_count env hh, List.length_drop]
    have hr := cellFsWrite_appended env (bytes.drop offset) hh (by simp [hold])
    have hgood : (env.writes w.now).ok = true := by
      rw [← hok]
      by_contra hbad
      exact hgo (.inl ⟨rfl, by simpa using hbad⟩)
    have hsome : r.value.count ≠ 0 := fun h0 => hgo (.inr h0)
    rw [writeAll_go hlt hgo]
    intro hfail
    have hnext := ih (hr.handle ▸ hh) _ (hr.file_self hold) hfail
    rw [List.append_assoc, ← List.drop_drop, List.take_append_drop] at hnext
    rw [hnext, spoils_iff (show 0 < bytes.length - offset by omega),
      show r.world.now = w.now + 1 from cellFsWrite_now env, ← Nat.sub_sub, hcount]
    refine ⟨fun hrest => .inr ⟨by omega, hgood, hrest⟩, fun hspoils => ?_⟩
    obtain ⟨-, hbad⟩ | ⟨-, -, hrest⟩ := hspoils
    · rw [hgood] at hbad
      cases hbad
    · exact hrest
  | case3 offset w hge =>
    rw [writeAll_end hge]
    exact fun _ _ hfail => by cases hfail

end WriteAll

section Copy
variable {env} {src dst : String} {srcFd dstFd pos i j left : ℕ} {content : List UInt8}
  {w w' : World}

theorem failsLate_error (h : (env.reads i).ok = false) : FailsLate env i left ↔ left = 0 := by
  constructor
  · intro hlate
    cases hlate with
    | read => rfl
    | write ok => simp [ok] at h
    | round ok => simp [ok] at h
  · rintro rfl
    exact .read h

theorem failsLate_end (h : (env.reads i).ok = true) (hn : nextRead env i left = 0) :
    ¬ FailsLate env i left := by
  intro hlate
  cases hlate with
  | read bad => simp [h] at bad
  | write ok all spoils =>
    have := spoils.pos
    omega
  | round ok some => omega

theorem failsLate_read (h : (env.reads i).ok = true) (hn : 0 < nextRead env i left) :
    FailsLate env i left ↔ (nextRead env i left = left ∧ Spoils env (i + 1) left) ∨
      ∃ j, Accepts env true (i + 1) (nextRead env i left) j ∧
        FailsLate env j (left - nextRead env i left) := by
  constructor
  · intro hlate
    cases hlate with
    | read => simp [nextRead] at hn
    | write ok all spoils => exact .inl ⟨all, spoils⟩
    | round ok some taken rest => exact .inr ⟨_, taken, rest⟩
  · intro hlate
    obtain ⟨all, spoils⟩ | ⟨j, taken, rest⟩ := hlate
    · exact .write h all spoils
    · exact .round h hn taken rest

theorem failsLate_again (h : (env.reads i).ok = true) (hn : 0 < nextRead env i left)
    (taken : Accepts env true (i + 1) (nextRead env i left) j) :
    FailsLate env i left ↔ FailsLate env j (left - nextRead env i left) := by
  rw [failsLate_read h hn]
  constructor
  · intro hlate
    obtain ⟨all, spoils⟩ | ⟨j', taken', rest⟩ := hlate
    · rw [all] at taken
      exact absurd spoils (Accepts.not_spoils taken)
    · rwa [taken.unique env taken']
  · exact fun rest => .inr ⟨j, taken, rest⟩

theorem take_append_eq_iff (content : List UInt8) (pos n k : ℕ) :
    content.take pos ++ ((content.drop pos).take n).take k = content ↔
      ((content.drop pos).take n).length = (content.drop pos).length ∧
        content.take pos ++ ((content.drop pos).take n).take k =
          content.take pos ++ (content.drop pos).take n := by
  have hall (hlength : ((content.drop pos).take n).length = (content.drop pos).length) :
      content.take pos ++ (content.drop pos).take n = content := by
    have hdrop : (content.drop pos).take n = content.drop pos := by
      refine List.take_of_length_le ?_
      rw [List.length_take] at hlength
      omega
    rw [hdrop, List.take_append_drop]
  constructor
  · intro hwhole
    have hlength : ((content.drop pos).take n).length = (content.drop pos).length := by
      have hcount := congrArg List.length hwhole
      simp only [List.length_append, List.length_take, List.length_drop] at hcount ⊢
      omega
    exact ⟨hlength, hwhole.trans (hall hlength).symm⟩
  · intro h
    exact h.2.trans (hall h.1)

theorem copyRound_failed (hfd : srcFd ≠ dstFd)
    (hc : Copying src dst content srcFd dstFd pos w)
    (h : copyRound env srcFd dstFd w = .leave ⟨false, w'⟩) :
    w'.file dst = some content ↔ FailsLate env w.now (content.length - pos) := by
  have hpos := hc.inside
  cases hok : (env.reads w.now).ok with
  | false =>
    rw [copyRound, cellFsRead_error env hok] at h
    cases h
    rw [failsLate_error hok, World.emit_file, hc.target, Option.some.injEq, List.take_eq_self_iff]
    omega
  | true =>
    let bytes := (content.drop pos).take (min (env.reads w.now).count 2048)
    have hlen : bytes.length = nextRead env w.now (content.length - pos) := by
      simp [bytes, nextRead]
    have hread := cellFsRead_ok env 2048 bytes hok hc.reading (by simp [bytes, hc.source])
    rw [copyRound, hread] at h
    by_cases h0 : bytes.length = 0
    · simp [h0] at h
    · simp only [h0, if_false] at h
      let w₁ := afterRead srcFd ⟨src, pos⟩ bytes w
      obtain ⟨p, hp⟩ := hc.writing
      have hh₁ : w₁.handle dstFd = some ⟨dst, p⟩ := by simp [w₁, hfd.symm, hp]
      have ht₁ : w₁.file dst = some (content.take pos) := hc.target
      have hnow : w₁.now = w.now + 1 := afterRead_now
      change (if (writeAll env true dstFd bytes 0 w₁).value then _ else _) = _ at h
      split_ifs at h with hv
      cases h
      obtain ⟨k, happ, -, -⟩ := writeAll_appended env true bytes 0 hh₁ (by simp [ht₁])
        (Nat.zero_le _)
      have hfile := happ.file_self ht₁
      have hspoils := writeAll_spoils env bytes 0 hh₁ _ ht₁ (by simpa using hv)
      have hnever : ¬ ∃ j, Accepts env true (w.now + 1)
          (nextRead env w.now (content.length - pos)) j ∧
          FailsLate env j (content.length - pos - nextRead env w.now (content.length - pos)) := by
        intro hagain
        obtain ⟨j, taken, -⟩ := hagain
        rw [← hlen, ← hnow, ← Nat.sub_zero bytes.length] at taken
        exact hv ((accepts_iff_writeAll env true bytes 0 hh₁ (by simp [ht₁])).mp taken).1
      rw [hfile, List.drop_zero, Nat.sub_zero, hlen, hnow, Option.some.injEq] at hspoils
      rw [failsLate_read hok (by omega), or_iff_left hnever, hfile, List.drop_zero,
        Option.some.injEq, take_append_eq_iff, hspoils, List.length_drop]
      change bytes.length = content.length - pos ∧ _ ↔ _
      rw [hlen]
      exact and_congr_right fun hall => by rw [hall]

theorem copyRounds_answer (hsome : ReadsSome env) (hne : src ≠ dst) (hfd : srcFd ≠ dstFd) {n : ℕ}
    {r : Called Bool} (hc : Copying src dst content srcFd dstFd pos w)
    (h : run (copyRound env srcFd dstFd) n w = some r) :
    (r.value = true ↔ r.world.file dst = some content) ↔
      ¬ FailsLate env w.now (content.length - pos) := by
  induction n generalizing pos w with
  | zero => cases h
  | succ n ih =>
    have hpos := hc.inside
    cases hround : copyRound env srcFd dstFd w with
    | leave r' =>
      obtain rfl : r' = r := Option.some.inj ((run_leave hround n).symm.trans h)
      have hcase := hround ▸ copyRound_cases hne hfd hc
      cases hcase with
      | atEnd ok none copied =>
        have hcount := hsome _ ok
        have hend : content.length - pos = 0 := by
          unfold nextRead at none
          omega
        refine iff_of_true (iff_of_true rfl ?_) (failsLate_end ok none)
        rw [copied.target, List.take_of_length_le (by omega)]
      | failed copied never =>
        rw [← copyRound_failed hfd hc hround]
        simp
    | again w' =>
      have hcase := hround ▸ copyRound_cases hne hfd hc
      cases hcase with
      | copied ok some taken copying =>
        rw [run_again hround] at h
        rw [failsLate_again ok some taken, Nat.sub_sub]
        exact ih copying h

end Copy

section Files
variable {env} {src dst path : String} {content : List UInt8} {w : World}

theorem copyFile_itself (h : OpensBoth env path w) : ∃ r, copyFile env path path w = some r ∧
    (r.value = 0 ↔ (env.reads (w.now + 2)).ok = true) ∧ r.world.file path = some [] := by
  let w₂ := afterOpen path .wronlyCreatTrunc (afterOpen path .rdonly w)
  have hfile : w₂.file path = some [] := by simp [w₂]
  have hnow : w₂.now = w.now + 2 := by simp [w₂]
  rw [copyFile_opened env h.source h.target, show (w₂.file path).getD [] = [] by rw [hfile]; rfl]
  cases hok : (env.reads (w.now + 2)).ok with
  | false =>
    have hround : copyRound env (w.now + 1) (w.now + 2) w₂ =
        .leave ⟨false, w₂.emit (.read (w.now + 1) none)⟩ := by
      rw [copyRound, cellFsRead_error env (by rw [hnow, hok])]
    rw [run_leave hround]
    exact ⟨_, rfl, by simp, hfile⟩
  | true =>
    have hread := cellFsRead_ok env 2048 [] (by rw [hnow, hok])
      (show w₂.handle (w.now + 1) = some ⟨path, 0⟩ by simp [w₂]) (by simp [hfile])
    have hround : copyRound env (w.now + 1) (w.now + 2) w₂ =
        .leave ⟨true, afterRead (w.now + 1) ⟨path, 0⟩ [] w₂⟩ := by
      rw [copyRound, hread]
      rfl
    rw [run_leave hround]
    exact ⟨_, rfl, by simp, hfile⟩

theorem copyFile_apart (hsome : ReadsSome env) (hne : src ≠ dst) (h : OpensBoth env src w)
    (hcontent : w.file src = some content) : ∃ r, copyFile env src dst w = some r ∧
    ((r.value = 0 ↔ r.world.file dst = some content) ↔
      ¬ FailsLate env (w.now + 2) content.length) := by
  let w₂ := afterOpen dst .wronlyCreatTrunc (afterOpen src .rdonly w)
  have hsrc : w₂.file src = some content := by simp [w₂, hne, hcontent]
  have hcopying : Copying src dst content (w.now + 1) (w.now + 2) 0 w₂ :=
    ⟨⟨hsrc, by simp [w₂]⟩, by simp [w₂], ⟨0, by simp [w₂]⟩, Nat.zero_le _⟩
  have hnow : w₂.now = w.now + 2 := by simp [w₂]
  obtain ⟨r, hr, -⟩ := copyRounds_spec env hne (by omega) hcopying
    (show content.length - 0 < content.length + 1 by omega)
  have hanswer := copyRounds_answer hsome hne (by omega) hcopying hr
  rw [Nat.sub_zero, hnow] at hanswer
  rw [copyFile_opened env h.source h.target,
    show (w₂.file src).getD [] = content by rw [hsrc]; rfl, hr]
  refine ⟨_, rfl, ?_⟩
  rw [← hanswer]
  cases hv : r.value with
  | true => simp [hv]
  | false => simp [hv]

theorem copyFile_unopened (dst : String) (h : ¬ OpensBoth env src w) :
    ∃ r, copyFile env src dst w = some r ∧ r.value = 0 ∧ r.world.file = w.file := by
  by_cases hs : Opens env src .rdonly w
  · have ht : ¬ env.opens (w.now + 1) = true := fun ht => h ⟨hs, ht⟩
    rw [copyFile, cellFsOpen_pos env hs]
    dsimp only
    rw [cellFsOpen_neg env (by simp [Opens, ht])]
    exact ⟨_, rfl, rfl, rfl⟩
  · rw [copyFile, cellFsOpen_neg env hs]
    exact ⟨_, rfl, rfl, rfl⟩

theorem copyFile_total (env : Env) (src dst : String) (w : World) :
    ∃ r, copyFile env src dst w = some r := by
  by_cases hne : src = dst
  · subst hne
    by_cases h : OpensBoth env src w
    · obtain ⟨r, hr, -⟩ := copyFile_itself h
      exact ⟨r, hr⟩
    · obtain ⟨r, hr, -⟩ := copyFile_unopened src h
      exact ⟨r, hr⟩
  · obtain ⟨r, hr, -⟩ := copyFile_cases env hne w
    exact ⟨r, hr⟩

end Files

/-- `CopyFile` returns, and it answers 0 exactly when the destination is as the source was where
its answer tells. -/
theorem copyFile_tells_iff (env : Env) (hsome : ReadsSome env) (src dst : String) (w : World) :
    ∃ r, copyFile env src dst w = some r ∧
      ((r.value = 0 ↔ ∃ content, w.file src = some content ∧ r.world.file dst = some content) ↔
        Tells env src dst w) := by
  by_cases h : OpensBoth env src w
  · obtain ⟨content, hcontent⟩ := Option.isSome_iff_exists.mp (h.source.2 rfl)
    simp only [hcontent, Option.some.injEq, exists_eq_left']
    by_cases hne : src = dst
    · subst hne
      obtain ⟨r, hr, hzero, hfile⟩ := copyFile_itself h
      refine ⟨r, hr, ?_⟩
      rw [hzero, hfile, Option.some.injEq, eq_comm (a := [])]
      refine ⟨fun hempty => .emptied h hcontent rfl hempty, fun htells => ?_⟩
      cases htells with
      | unopened no => exact absurd h no
      | copied _ _ apart => exact absurd rfl apart
      | emptied _ source _ empty =>
        obtain rfl := Option.some.inj (hcontent.symm.trans source)
        exact empty
    · obtain ⟨r, hr, hiff⟩ := copyFile_apart hsome hne h hcontent
      refine ⟨r, hr, hiff.trans ⟨fun late => .copied h hcontent hne late, fun htells => ?_⟩⟩
      cases htells with
      | unopened no => exact absurd h no
      | copied _ source _ late =>
        obtain rfl := Option.some.inj (hcontent.symm.trans source)
        exact late
      | emptied _ _ itself => exact absurd itself hne
  · obtain ⟨r, hr, hzero, hfile⟩ := copyFile_unopened dst h
    refine ⟨r, hr, ?_⟩
    rw [hfile]
    constructor
    · intro hiff
      obtain ⟨content, hsrc, hdst⟩ := hiff.mp hzero
      exact .unopened h (by simp [hsrc]) (hdst.trans hsrc.symm)
    · intro htells
      refine iff_of_true hzero ?_
      cases htells with
      | unopened _ there same =>
        obtain ⟨content, hsrc⟩ := Option.isSome_iff_exists.mp there
        exact ⟨content, hsrc, same.trans hsrc⟩
      | copied opens => exact absurd opens h
      | emptied opens => exact absurd opens h

-- A source that cannot be opened, and one of a single byte.
def copyEnv : Env := { Update.unopenedEnv with opens := fun _ => true }

def oneByteWorld : World :=
  { Update.freshWorld with file := Function.update Update.freshWorld.file "download" (some [1]) }

theorem copyFile_tells_iff_oneByte : ∃ r,
    copyFile copyEnv "download" "plugin" oneByteWorld = some r ∧
    ((r.value = 0 ↔ ∃ content, oneByteWorld.file "download" = some content ∧
      r.world.file "plugin" = some content) ↔ Tells copyEnv "download" "plugin" oneByteWorld) :=
  copyFile_tells_iff copyEnv (fun _ _ => show 0 < 2048 by decide) _ _ _

theorem copyFile_not_tells : ¬ ∀ (env : Env) (src dst : String) (w : World) (r : Called ℤ),
    ReadsSome env → copyFile env src dst w = some r →
    (r.value = 0 ↔ ∃ content, w.file src = some content ∧ r.world.file dst = some content) := by
  intro h
  have hunopened : ¬ OpensBoth copyEnv "download" Update.freshWorld := fun hopens =>
    absurd (hopens.source.2 rfl) (by decide)
  obtain ⟨r, hr, hzero, -⟩ := copyFile_unopened "plugin" hunopened
  obtain ⟨content, hsrc, -⟩ := (h _ _ _ _ r (fun _ _ => show 0 < 2048 by decide) hr).mp hzero
  cases hsrc

end Patchwork.CopyOutcome
