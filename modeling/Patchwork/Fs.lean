import Mathlib.Data.List.Infix
import Patchwork.Console

/-!
# Files

`ReadFile`, `WriteFile` and `CopyFile`. A copy that does not reach the end of
its source leaves a prefix of it behind, since the destination is truncated when
it is opened and then grows with every write.
-/

namespace Patchwork.Fs
open ByteMemory BoundedLoop Console
variable (env : Env)

def readFile (path : String) (buf size : ℕ) (w : World) : Called ℤ :=
  let opened := cellFsOpen env path .rdonly w
  match opened.value with
  | none => ⟨0, opened.world⟩
  | some fp =>
    let r := cellFsRead env fp size opened.world
    match r.value with
    | none => ⟨0, cellFsClose fp (errorDialog "Failed to read file" r.world)⟩
    | some bytes => ⟨1, cellFsClose fp { r.world with mem := store r.world.mem buf bytes }⟩

/-- `fp₀` is what the local `fp` holds before the open stores into it. -/
def writeFile (fp₀ : ℕ) (path : String) (bytes : List UInt8) (w : World) : World :=
  let opened := cellFsOpen env path .wronlyCreatTrunc w
  match opened.value with
  | none => cellFsClose fp₀ opened.world
  | some fp => cellFsClose fp (cellFsWrite env fp bytes opened.world).world

/-- The inner loop of `CopyFile` and of `HttpDownloadFile`. Only `CopyFile` looks at
the error code of a write (`strict`). -/
def writeAll (strict : Bool) (fd : ℕ) (bytes : List UInt8) (offset : ℕ) (w : World) :
    Called Bool :=
  if offset < bytes.length then
    let r := cellFsWrite env fd (bytes.drop offset) w
    if (strict ∧ r.value.ok = false) ∨ r.value.count = 0 then ⟨false, r.world⟩
    else writeAll strict fd bytes (offset + r.value.count) r.world
  else ⟨true, w⟩
termination_by bytes.length - offset
decreasing_by
  rename_i hlt hgo
  have hcount : r.value.count ≠ 0 := fun h0 => hgo (.inr h0)
  change bytes.length - (offset + r.value.count) < bytes.length - offset
  omega

def copyRound (srcFd dstFd : ℕ) (w : World) : Pass World (Called Bool) :=
  let r := cellFsRead env srcFd 2048 w
  match r.value with
  | none => .leave ⟨false, r.world⟩
  | some bytes =>
    if bytes.length = 0 then .leave ⟨true, r.world⟩
    else
      let written := writeAll env true dstFd bytes 0 r.world
      if written.value then .again written.world else .leave ⟨false, written.world⟩

def copyFile (src dst : String) (w : World) : Option (Called ℤ) :=
  let source := cellFsOpen env src .rdonly w
  match source.value with
  | none => some ⟨0, source.world⟩
  | some srcFd =>
    let target := cellFsOpen env dst .wronlyCreatTrunc source.world
    match target.value with
    | none => some ⟨0, cellFsClose srcFd target.world⟩
    | some dstFd => do
      let rounds := ((target.world.file src).getD []).length + 1
      let r ← run (copyRound env srcFd dstFd) rounds target.world
      let closed := fun w => cellFsClose dstFd (cellFsClose srcFd w)
      if r.value then some ⟨0, closed (r.world.emit (.copied src dst))⟩
      else some ⟨-1, closed r.world⟩

theorem writeFile_mem (fp₀ : ℕ) (path : String) (bytes : List UInt8) (w : World) :
    (writeFile env fp₀ path bytes w).mem = w.mem := by
  have hopen : (cellFsOpen env path .wronlyCreatTrunc w).world.mem = w.mem := by
    unfold cellFsOpen
    split <;> rfl
  have hwrite (fd : ℕ) (w : World) : (cellFsWrite env fd bytes w).world.mem = w.mem := by
    unfold cellFsWrite
    split <;> rfl
  unfold writeFile
  dsimp only
  split
  · exact hopen
  · exact (hwrite _ _).trans hopen

/-- The writes of `n` bytes take them all, starting with reply `i` and ending before
reply `j`. -/
inductive Accepts (strict : Bool) : ℕ → ℕ → ℕ → Prop
  | done (i : ℕ) : Accepts strict i 0 i
  | write {i n j : ℕ} (room : 0 < min (env.writes i).count n)
      (ok : strict → (env.writes i).ok = true)
      (rest : Accepts strict (i + 1) (n - min (env.writes i).count n) j) :
      Accepts strict i n j

theorem accepts_iff {strict : Bool} {i n j : ℕ} (hn : 0 < n) : Accepts env strict i n j ↔
    0 < min (env.writes i).count n ∧ (strict → (env.writes i).ok = true) ∧
      Accepts env strict (i + 1) (n - min (env.writes i).count n) j := by
  constructor
  · intro h
    cases h with
    | done => omega
    | write room ok rest => exact ⟨room, ok, rest⟩
  · intro haccepts
    obtain ⟨room, ok, rest⟩ := haccepts
    exact .write room ok rest

theorem accepts_zero {strict : Bool} {i j : ℕ} : Accepts env strict i 0 j ↔ j = i := by
  constructor
  · intro h
    cases h with
    | done => rfl
    | write room => simp at room
  · rintro rfl
    exact .done _

theorem Accepts.unique {strict : Bool} {i n j j' : ℕ} (h : Accepts env strict i n j)
    (h' : Accepts env strict i n j') : j = j' := by
  induction h with
  | done i => exact ((accepts_zero env).mp h').symm
  | write room ok rest ih =>
    exact ih ((accepts_iff env (by omega)).mp h').2.2

section WriteAll
variable {env} {strict : Bool} {fd offset : ℕ} {h : Handle} {bytes : List UInt8} {w : World}

theorem writeAll_stop (hlt : offset < bytes.length)
    (hstop : (strict ∧ (cellFsWrite env fd (bytes.drop offset) w).value.ok = false) ∨
      (cellFsWrite env fd (bytes.drop offset) w).value.count = 0) :
    writeAll env strict fd bytes offset w =
      ⟨false, (cellFsWrite env fd (bytes.drop offset) w).world⟩ := by
  rw [writeAll, if_pos hlt]
  exact if_pos hstop

theorem writeAll_go (hlt : offset < bytes.length)
    (hgo : ¬((strict ∧ (cellFsWrite env fd (bytes.drop offset) w).value.ok = false) ∨
      (cellFsWrite env fd (bytes.drop offset) w).value.count = 0)) :
    writeAll env strict fd bytes offset w =
      writeAll env strict fd bytes (offset + (cellFsWrite env fd (bytes.drop offset) w).value.count)
        (cellFsWrite env fd (bytes.drop offset) w).world := by
  rw [writeAll, if_pos hlt]
  exact if_neg hgo

theorem writeAll_end (hge : ¬ offset < bytes.length) :
    writeAll env strict fd bytes offset w = ⟨true, w⟩ := by
  rw [writeAll, if_neg hge]

theorem writeAll_appended (env : Env) (strict : Bool) (bytes : List UInt8) (offset : ℕ)
    (hh : w.handle fd = some h) (hf : (w.file h.path).isSome)
    (ho : offset ≤ bytes.length) :
    ∃ k, Appended h.path ((bytes.drop offset).take k) w
        (writeAll env strict fd bytes offset w).world ∧
      ((writeAll env strict fd bytes offset w).value = true → k = bytes.length - offset) ∧
      (strict = false → (writeAll env strict fd bytes offset w).value = false →
        k < bytes.length - offset) := by
  induction offset, w using writeAll.induct env strict fd bytes with
  | case1 offset w hlt r hstop =>
    rw [writeAll_stop hlt hstop]
    have hr := cellFsWrite_appended env (bytes.drop offset) hh hf
    refine ⟨_, hr, by simp, fun hs _ => ?_⟩
    rcases hstop with ⟨hstrict, -⟩ | h0
    · simp [hs] at hstrict
    · change r.value.count < _
      omega
  | case2 offset w hlt r hgo ih =>
    rw [writeAll_go hlt hgo]
    have hr := cellFsWrite_appended env (bytes.drop offset) hh hf
    have hle : r.value.count ≤ (bytes.drop offset).length := cellFsWrite_count_le env
    rw [List.length_drop] at hle
    have hf' : (r.world.file h.path).isSome := by
      obtain ⟨old, ho⟩ := Option.isSome_iff_exists.mp hf
      simp [r, hr.file_self ho]
    obtain ⟨k, hk, hall, hshort⟩ := ih (hr.handle ▸ hh) hf' (by omega)
    refine ⟨r.value.count + k, ?_, fun ht => ?_, fun hs ht => ?_⟩
    · have hj := hr.trans hk
      rwa [← List.drop_drop, ← List.take_add] at hj
    · have := hall ht
      omega
    · have := hshort hs ht
      omega
  | case3 offset w hge =>
    rw [writeAll_end hge]
    exact ⟨0, Appended.refl hf, by simp; omega, by simp⟩

theorem accepts_iff_writeAll (env : Env) (strict : Bool) (bytes : List UInt8) (offset : ℕ)
    (hh : w.handle fd = some h) (hf : (w.file h.path).isSome) {j : ℕ} :
    Accepts env strict w.now (bytes.length - offset) j ↔
      (writeAll env strict fd bytes offset w).value = true ∧
        (writeAll env strict fd bytes offset w).world.now = j := by
  induction offset, w using writeAll.induct env strict fd bytes with
  | case1 offset w hlt r hstop =>
    rw [writeAll_stop hlt hstop, accepts_iff env (by omega)]
    refine iff_of_false ?_ (by simp)
    intro haccepts
    obtain ⟨room, ok, -⟩ := haccepts
    rcases hstop with ⟨hstrict, hbad⟩ | h0
    · rw [cellFsWrite_ok env hh, ok hstrict] at hbad
      cases hbad
    · rw [cellFsWrite_count env hh, List.length_drop] at h0
      omega
  | case2 offset w hlt r hgo ih =>
    have hcount : r.value.count = min (env.writes w.now).count (bytes.length - offset) := by
      rw [cellFsWrite_count env hh, List.length_drop]
    have hr := cellFsWrite_appended env (bytes.drop offset) hh hf
    have hf' : (r.world.file h.path).isSome := by
      obtain ⟨old, ho⟩ := Option.isSome_iff_exists.mp hf
      simp [r, hr.file_self ho]
    have hi := ih (hr.handle ▸ hh) hf'
    have hnow : r.world.now = w.now + 1 := cellFsWrite_now env
    rw [writeAll_go hlt hgo, ← hi, accepts_iff env (by omega), hnow, ← Nat.sub_sub, hcount]
    refine ⟨fun ⟨_, _, rest⟩ => rest, fun rest => ⟨?_, fun hs => ?_, rest⟩⟩
    · have hne : r.value.count ≠ 0 := fun h0 => hgo (.inr h0)
      omega
    -- a strict loop that goes on has seen no error code
    · by_contra hbad
      refine hgo (.inl ⟨hs, ?_⟩)
      rw [cellFsWrite_ok env hh]
      simpa using hbad
  | case3 offset w hge =>
    rw [writeAll_end hge, show bytes.length - offset = 0 by omega, accepts_zero]
    exact ⟨fun hj => ⟨rfl, hj.symm⟩, fun hj => hj.2.symm⟩

end WriteAll

theorem writeAll_uses (strict : Bool) (fd : ℕ) (bytes : List UInt8) (offset : ℕ) (w : World) :
    Emits (Event.Uses fd) w (writeAll env strict fd bytes offset w).world := by
  induction offset, w using writeAll.induct env strict fd bytes with
  | case1 offset w hlt r hstop =>
    rw [writeAll_stop hlt hstop]
    exact cellFsWrite_uses env
  | case2 offset w hlt r hgo ih =>
    rw [writeAll_go hlt hgo]
    exact (cellFsWrite_uses env).trans ih
  | case3 offset w hge =>
    rw [writeAll_end hge]
    exact .of_eq rfl

def nextRead (i left : ℕ) : ℕ := min (min (env.reads i).count 2048) left

/-- No read and no write of a copy fails or comes back empty before the `left` bytes
are copied; its calls begin with reply `i`. -/
inductive Copies : ℕ → ℕ → Prop
  | finish {i : ℕ} (ok : (env.reads i).ok = true) : Copies i 0
  | round {i left j : ℕ} (ok : (env.reads i).ok = true) (some : 0 < nextRead env i left)
      (taken : Accepts env true (i + 1) (nextRead env i left) j)
      (rest : Copies j (left - nextRead env i left)) : Copies i left

section Copy
variable {src dst : String} {srcFd dstFd pos : ℕ} {content : List UInt8} {w : World}

structure Copied (src dst : String) (content : List UInt8) (pos : ℕ) (w : World) : Prop where
  source : w.file src = some content
  target : w.file dst = some (content.take pos)

structure Copying (src dst : String) (content : List UInt8) (srcFd dstFd pos : ℕ)
    (w : World) : Prop extends Copied src dst content pos w where
  reading : w.handle srcFd = some ⟨src, pos⟩
  writing : ∃ p, w.handle dstFd = some ⟨dst, p⟩
  inside : pos ≤ content.length

inductive Round (src dst : String) (content : List UInt8) (srcFd dstFd pos : ℕ) (w : World) :
    Pass World (Called Bool) → Prop
  | atEnd {w' : World} (ok : (env.reads w.now).ok = true)
      (none : nextRead env w.now (content.length - pos) = 0)
      (copied : Copied src dst content pos w') :
      Round src dst content srcFd dstFd pos w (.leave ⟨true, w'⟩)
  | copied {w' : World} (ok : (env.reads w.now).ok = true)
      (some : 0 < nextRead env w.now (content.length - pos))
      (taken : Accepts env true (w.now + 1) (nextRead env w.now (content.length - pos)) w'.now)
      (copying : Copying src dst content srcFd dstFd
        (pos + nextRead env w.now (content.length - pos)) w') :
      Round src dst content srcFd dstFd pos w (.again w')
  | failed {w' : World} {k : ℕ} (copied : Copied src dst content k w')
      (never : ¬ Copies env w.now (content.length - pos)) :
      Round src dst content srcFd dstFd pos w (.leave ⟨false, w'⟩)

theorem copies_iff {i left : ℕ} (h : 0 < nextRead env i left) : Copies env i left ↔
    (env.reads i).ok = true ∧ ∃ j, Accepts env true (i + 1) (nextRead env i left) j ∧
      Copies env j (left - nextRead env i left) := by
  constructor
  · intro hc
    cases hc with
    | finish ok => simp [nextRead] at h
    | round ok some taken rest => exact ⟨ok, _, taken, rest⟩
  · intro hcopies
    obtain ⟨ok, j, taken, rest⟩ := hcopies
    exact .round ok h taken rest

theorem Copies.ok {i left : ℕ} (h : Copies env i left) : (env.reads i).ok = true := by
  cases h with
  | finish ok => exact ok
  | round ok => exact ok

theorem Copies.eq_zero {i left : ℕ} (h : Copies env i left) (hn : nextRead env i left = 0) :
    left = 0 := by
  cases h with
  | finish => rfl
  | round ok some => omega

variable {env} in
theorem copyRound_cases (hne : src ≠ dst) (hfd : srcFd ≠ dstFd)
    (hc : Copying src dst content srcFd dstFd pos w) :
    Round env src dst content srcFd dstFd pos w (copyRound env srcFd dstFd w) := by
  have hpos := hc.inside
  cases hok : (env.reads w.now).ok with
  | false =>
    rw [copyRound, cellFsRead_error env hok]
    exact .failed ⟨hc.source, hc.target⟩ fun h => by simp [h.ok] at hok
  | true =>
    let bytes := (content.drop pos).take (min (env.reads w.now).count 2048)
    have hlen : bytes.length = nextRead env w.now (content.length - pos) := by
      simp [bytes, nextRead]
    have hread := cellFsRead_ok env 2048 bytes hok hc.reading
      (by simp [bytes, hc.source])
    rw [copyRound, hread]
    by_cases h0 : bytes.length = 0
    · simp only [h0, if_true]
      exact .atEnd hok (hlen ▸ h0) ⟨hc.source, hc.target⟩
    · simp only [h0, if_false]
      let w₁ := afterRead srcFd ⟨src, pos⟩ bytes w
      obtain ⟨p, hp⟩ := hc.writing
      have hh₁ : w₁.handle dstFd = some ⟨dst, p⟩ := by simp [w₁, hfd.symm, hp]
      have ht₁ : w₁.file dst = some (content.take pos) := hc.target
      obtain ⟨k, happ, hall, -⟩ :=
        writeAll_appended env true bytes 0 hh₁
          (by simp [ht₁]) (Nat.zero_le _)
      have htaken {j : ℕ} := accepts_iff_writeAll env true bytes 0 hh₁ (by simp [ht₁]) (j := j)
      rw [Nat.sub_zero, hlen, show w₁.now = w.now + 1 by simp [w₁]] at htaken
      have hsrc := (happ.file_other hne).trans hc.source
      have hdst := happ.file_self ht₁
      rw [List.drop_zero, List.take_take, ← List.take_add] at hdst
      change Round env src dst content srcFd dstFd pos w
        (if (writeAll env true dstFd bytes 0 w₁).value then _ else _)
      split_ifs with hv
      · have hk : min k (min (env.reads w.now).count 2048) =
            nextRead env w.now (content.length - pos) := by
          rw [hall hv, Nat.sub_zero, hlen]
          unfold nextRead
          omega
        rw [hk] at hdst
        refine .copied hok (by omega) (htaken.mpr ⟨hv, rfl⟩) ⟨⟨hsrc, hdst⟩, ?_, ⟨p, ?_⟩, ?_⟩
        · rw [happ.handle, ← hlen]
          simp [w₁]
        · rw [happ.handle, hh₁]
        · unfold nextRead
          omega
      · refine .failed ⟨hsrc, hdst⟩ fun h => ?_
        obtain ⟨-, j, ht, -⟩ := (copies_iff env (by omega)).mp h
        exact hv (htaken.mp ht).1

theorem copyRounds_spec (hne : src ≠ dst) (hfd : srcFd ≠ dstFd) {n : ℕ}
    (hc : Copying src dst content srcFd dstFd pos w) (hn : content.length - pos < n) :
    ∃ r, run (copyRound env srcFd dstFd) n w = some r ∧
      (∃ k, Copied src dst content k r.world) ∧
      ((r.value = true ∧ r.world.file dst = some content) ↔
        Copies env w.now (content.length - pos)) := by
  induction n generalizing pos w with
  | zero => omega
  | succ n ih =>
    have hpos := hc.inside
    cases hround : copyRound env srcFd dstFd w with
    | leave r =>
      refine ⟨r, run_leave hround n, ?_⟩
      have hcase := hround ▸ copyRound_cases hne hfd hc
      cases hcase with
      | atEnd ok none copied =>
        refine ⟨⟨pos, copied⟩, ?_⟩
        have hend : (some (content.take pos) = some content) ↔ content.length - pos = 0 := by
          rw [Option.some.injEq, List.take_eq_self_iff]
          omega
        rw [copied.target, hend]
        exact ⟨fun h => h.2 ▸ .finish ok, fun h => ⟨rfl, h.eq_zero env none⟩⟩
      | failed copied never => exact ⟨⟨_, copied⟩, by simp [never]⟩
    | again w' =>
      have hcase := hround ▸ copyRound_cases hne hfd hc
      cases hcase with
      | copied ok some taken copying =>
        have hin := copying.inside
        obtain ⟨r, hr, hk, hiff⟩ := ih copying (by omega)
        refine ⟨r, by rw [run_again hround, hr], hk, hiff.trans ?_⟩
        rw [copies_iff env some, ← Nat.sub_sub]
        refine ⟨fun rest => ⟨ok, _, taken, rest⟩, fun ⟨_, j, htaken, rest⟩ => ?_⟩
        rwa [taken.unique env htaken]

def passWorld : Pass World (Called Bool) → World
  | .again w => w
  | .leave r => r.world

theorem copyRound_uses (srcFd dstFd : ℕ) (w : World) :
    Emits (fun e => e.Uses srcFd ∨ e.Uses dstFd) w
      (passWorld (copyRound env srcFd dstFd w)) := by
  have hread : Emits (fun e => e.Uses srcFd ∨ e.Uses dstFd) w
      (cellFsRead env srcFd 2048 w).world := (cellFsRead_uses env).mono fun _ he => .inl he
  unfold copyRound
  dsimp only
  split
  · exact hread
  · split
    · exact hread
    · have hwritten (bytes : List UInt8) := hread.trans
        ((writeAll_uses env true dstFd bytes 0 _).mono fun _ he => .inr he)
      split <;> exact hwritten _

theorem copyRounds_uses {srcFd dstFd n : ℕ} {r : Called Bool}
    (h : run (copyRound env srcFd dstFd) n w = some r) :
    Emits (fun e => e.Uses srcFd ∨ e.Uses dstFd) w r.world := by
  refine run_invariant _ (fun w₁ => Emits (fun e => e.Uses srcFd ∨ e.Uses dstFd) w w₁)
    (fun r => Emits (fun e => e.Uses srcFd ∨ e.Uses dstFd) w r.world)
    (fun w₁ w₂ hI hb => hI.trans ?_) (fun w₁ r hI hb => hI.trans ?_) (.of_eq rfl) h
  · simpa only [hb, passWorld] using copyRound_uses env srcFd dstFd w₁
  · simpa only [hb, passWorld] using copyRound_uses env srcFd dstFd w₁

end Copy

structure OpensBoth (src : String) (w : World) : Prop where
  source : Opens env src .rdonly w
  target : env.opens (w.now + 1) = true

inductive CopyCase (src dst : String) (w : World) : Called ℤ → Prop
  | unopened {w' : World} (unopened : ¬ OpensBoth env src w) (file : w'.file = w.file)
      (emits : Emits Event.IsFile w w') : CopyCase src dst w ⟨0, w'⟩
  | failed {w' : World} {content : List UInt8} {k : ℕ} (opens : OpensBoth env src w)
      (source : w.file src = some content) (copied : Copied src dst content k w')
      (emits : Emits Event.IsFile w w') (never : ¬ Copies env (w.now + 2) content.length) :
      CopyCase src dst w ⟨-1, w'⟩
  | finished {w₁ w' : World} {content : List UInt8} {k : ℕ} (opens : OpensBoth env src w)
      (source : w.file src = some content) (copied : Copied src dst content k w')
      (emits : Emits Event.IsFile w w₁) (closes : Emits Event.IsFile (w₁.emit (.copied src dst)) w')
      (whole : w'.file dst = some content ↔ Copies env (w.now + 2) content.length) :
      CopyCase src dst w ⟨0, w'⟩

theorem copyFile_opened {src dst : String} {w : World} (hs : Opens env src .rdonly w)
    (ht : env.opens (w.now + 1) = true) :
    copyFile env src dst w =
      (run (copyRound env (w.now + 1) (w.now + 2))
        ((((afterOpen dst .wronlyCreatTrunc (afterOpen src .rdonly w)).file src).getD []).length +
          1)
        (afterOpen dst .wronlyCreatTrunc (afterOpen src .rdonly w))).map fun r =>
          if r.value then
            ⟨0, cellFsClose (w.now + 2) (cellFsClose (w.now + 1) (r.world.emit (.copied src dst)))⟩
          else ⟨-1, cellFsClose (w.now + 2) (cellFsClose (w.now + 1) r.world)⟩ := by
  rw [copyFile, cellFsOpen_pos env hs]
  dsimp only
  rw [cellFsOpen_pos env ⟨by simpa using ht, by simp⟩]
  dsimp only
  rw [afterOpen_now, Option.map_eq_bind]
  refine Option.bind_congr fun r _ => ?_
  simp only [Function.comp_apply]
  split <;> rfl

theorem copyFile_cases {src dst : String} (hne : src ≠ dst) (w : World) :
    ∃ r, copyFile env src dst w = some r ∧ CopyCase env src dst w r := by
  by_cases hs : Opens env src .rdonly w
  · by_cases ht : env.opens (w.now + 1) = true
    · obtain ⟨content, hcontent⟩ := Option.isSome_iff_exists.mp (hs.2 rfl)
      let w₂ := afterOpen dst .wronlyCreatTrunc (afterOpen src .rdonly w)
      have hsrc : w₂.file src = some content := by simp [w₂, hne, hcontent]
      have hcopying : Copying src dst content (w.now + 1) (w.now + 2) 0 w₂ :=
        ⟨⟨hsrc, by simp [w₂]⟩, by simp [w₂], ⟨0, by simp [w₂]⟩, Nat.zero_le _⟩
      obtain ⟨r, hr, ⟨k, hk⟩, hiff⟩ := copyRounds_spec env hne (by omega) hcopying
        (show content.length - 0 < content.length + 1 by omega)
      have hopen : Emits Event.IsFile w w₂ :=
        (Emits.one (by trivial) rfl).trans (.one (by trivial) rfl)
      have hemits := hopen.trans
        ((copyRounds_uses env hr).mono fun _ he => he.elim (·.isFile) (·.isFile))
      have hnow : w₂.now = w.now + 2 := by simp [w₂]
      rw [Nat.sub_zero, hnow] at hiff
      have hrun : copyFile env src dst w = some (if r.value then
          ⟨0, cellFsClose (w.now + 2) (cellFsClose (w.now + 1) (r.world.emit (.copied src dst)))⟩
          else ⟨-1, cellFsClose (w.now + 2) (cellFsClose (w.now + 1) r.world)⟩) := by
        rw [copyFile_opened env hs ht, show (w₂.file src).getD [] = content by rw [hsrc]; rfl, hr]
        rfl
      refine ⟨_, hrun, ?_⟩
      split_ifs with hv
      · refine .finished ⟨hs, ht⟩ hcontent ⟨hk.source, hk.target⟩ hemits
          (cellFsClose_emits.trans cellFsClose_emits) ?_
        exact (and_iff_right hv).symm.trans hiff
      · refine .failed ⟨hs, ht⟩ hcontent ⟨hk.source, hk.target⟩
          ((hemits.trans cellFsClose_emits).trans cellFsClose_emits) fun h => hv (hiff.mpr h).1
    · let w₂ := (afterOpen src .rdonly w).emit (.opened dst .wronlyCreatTrunc none)
      have hemits : Emits Event.IsFile w w₂ := .emit (.one (by trivial) rfl) (by trivial)
      refine ⟨⟨0, cellFsClose (w.now + 1) w₂⟩, ?_,
        .unopened (fun h => ht h.target) rfl (hemits.trans cellFsClose_emits)⟩
      rw [copyFile, cellFsOpen_pos env hs]
      dsimp only
      rw [cellFsOpen_neg env (by simp [Opens, ht])]
  · refine ⟨⟨0, w.emit (.opened src .rdonly none)⟩, ?_, .unopened (fun h => hs h.source) rfl ?_⟩
    · rw [copyFile, cellFsOpen_neg env hs]
    · exact .one (by trivial) rfl

end Patchwork.Fs
