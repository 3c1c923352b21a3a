import Mathlib.Data.Set.Insert
import Patchwork.LogWindow

/-!
# What a run leaves behind

The files and the descriptors of a whole run. The module writes four files and no
others, also through the module it starts and with the lines for its log, and the
only descriptor that a run can leave open is that of a download that broke off.
-/

namespace Patchwork.Footprint
open ByteMemory BoundedLoop Console Fs Http Update Util Patches Prx Restart LogWindow

def LogsTo (ls : Set String) (w : World) : Prop :=
  ∀ path, (w.handle w.logFP).map Handle.path = some path → path ∈ ls

/-- And so they do while `LogFP` stays as it is, since no descriptor to come has its number. -/
structure LogKept (ls : Set String) (w : World) : Prop where
  goes : LogsTo ls w
  old : w.logFP ≤ w.now

/-- `LogFP` as the loader leaves it. -/
structure Unlogged (w : World) : Prop where
  closed : w.handle w.logFP = none
  old : w.logFP ≤ w.now

/-- From `w` to `w'` no descriptor was opened or closed, and only files of `ps` were written, with
lines for the log only in files of `ls`. -/
structure Works (ps ls : Set String) (w w' : World) : Prop where
  file : ∀ path ∉ ps, w'.file path = w.file path
  logged : LogsTo ls w → ∀ path ∉ ls, w'.logged path = w.logged path
  path : ∀ fd, (w'.handle fd).map Handle.path = (w.handle fd).map Handle.path
  logFP : w'.logFP = w.logFP
  now : w.now ≤ w'.now

/-- A file's lines are what they were, or were lost when the file was opened anew. -/
def LinesKept (ps ls : Set String) (w w' : Shared) : Prop :=
  ∀ path ∉ ls, w'.logged path = w.logged path ∨ path ∈ ps ∧ w'.logged path = []

/-- From `w` to `w'` only files of `ps` were written, with lines for the log only in files of `ls`,
and what is open at the end was open before or is among `left`. -/
structure Leaves (ps ls : Set String) (left : Set ℕ) (w w' : World) : Prop where
  file : ∀ path ∉ ps, w'.file path = w.file path
  logged : LogKept ls w → LogKept ls w' ∧ LinesKept ps ls w.toShared w'.toShared
  opened : ∀ fd, (w'.handle fd).isSome → (w.handle fd).isSome ∨ fd ∈ left
  logFP : w'.logFP = w.logFP

variable {ps ls : Set String} {w w₁ w₂ : World}

theorem LinesKept.refl (v : Shared) : LinesKept ps ls v v := fun _ _ => .inl rfl

theorem LinesKept.trans {v v₁ v₂ : Shared} (h : LinesKept ps ls v v₁)
    (h' : LinesKept ps ls v₁ v₂) : LinesKept ps ls v v₂ := by
  intro path hp
  obtain hsame | hnone := h' path hp
  · exact hsame ▸ h path hp
  · exact .inr hnone

theorem LinesKept.mono {ps' : Set String} {v v₁ : Shared} (h : LinesKept ps ls v v₁)
    (hps : ps ⊆ ps') : LinesKept ps' ls v v₁ :=
  fun path hp => (h path hp).imp_right fun hnone => ⟨hps hnone.1, hnone.2⟩

theorem Unlogged.kept (h : Unlogged w) : LogKept ls w :=
  ⟨fun path hpath => by simp [h.closed] at hpath, h.old⟩

namespace Works

theorem of_eq (file : w₁.file = w.file) (logged : w₁.logged = w.logged)
    (handle : w₁.handle = w.handle) (logFP : w₁.logFP = w.logFP) (now : w.now ≤ w₁.now) :
    Works ps ls w w₁ where
  file path _ := congrFun file path
  logged _ path _ := congrFun logged path
  path fd := by rw [handle]
  logFP := logFP
  now := now

theorem refl (w : World) : Works ps ls w w := .of_eq rfl rfl rfl rfl le_rfl

theorem logsTo (h : Works ps ls w w₁) (hlog : LogsTo ls w) : LogsTo ls w₁ := by
  intro path hpath
  rw [h.logFP, h.path] at hpath
  exact hlog path hpath

theorem trans (h : Works ps ls w w₁) (h' : Works ps ls w₁ w₂) : Works ps ls w w₂ where
  file path hp := (h'.file path hp).trans (h.file path hp)
  logged hlog path hp := (h'.logged (h.logsTo hlog) path hp).trans (h.logged hlog path hp)
  path fd := (h'.path fd).trans (h.path fd)
  logFP := h'.logFP.trans h.logFP
  now := h.now.trans h'.now

theorem of_quiet (h : Quiet w w₁) : Works ps ls w w₁ where
  file path _ := congrFun h.file path
  logged hlog path hp := h.logged path fun hpath => hp (hlog path hpath)
  path fd := by rw [h.handle]
  logFP := h.logFP
  now := h.emits.now_le

theorem emit (h : Works ps ls w w₁) (e : Event) : Works ps ls w (w₁.emit e) :=
  h.trans (.of_eq rfl rfl rfl rfl (by simp))

theorem log (h : Works ps ls w w₁) (fmt : String) : Works ps ls w (logLn fmt w₁) :=
  h.trans (.of_quiet (.logLn fmt))

theorem stored (h : Works ps ls w w₁) (m : Mem) : Works ps ls w { w₁ with mem := m } :=
  h.trans (.of_eq rfl rfl rfl rfl le_rfl)

theorem leaves (h : Works ps ls w w₁) : Leaves ps ls ∅ w w₁ := by
  refine ⟨h.file, fun hkept => ?_, fun fd hopen => .inl ?_, h.logFP⟩
  · have hold : w₁.logFP ≤ w₁.now := by
      rw [h.logFP]
      exact hkept.old.trans h.now
    exact ⟨⟨h.logsTo hkept.goes, hold⟩, fun path hp => .inl (h.logged hkept.goes path hp)⟩
  have hpath := congrArg Option.isSome (h.path fd)
  rw [Option.isSome_map, Option.isSome_map] at hpath
  rwa [← hpath]

end Works

theorem cellFsClose_logsTo {fd : ℕ} (h : LogsTo ls w) : LogsTo ls (cellFsClose fd w) := by
  intro path hpath
  by_cases hfd : w.logFP = fd
  · simp [cellFsClose, hfd] at hpath
  · exact h path (by simpa [cellFsClose, hfd] using hpath)

namespace Leaves
variable {left left' : Set ℕ} {fd : ℕ}

theorem trans (h : Leaves ps ls left w w₁) (h' : Leaves ps ls left' w₁ w₂) :
    Leaves ps ls (left ∪ left') w w₂ := by
  refine ⟨fun path hp => (h'.file path hp).trans (h.file path hp), fun hkept => ?_,
    fun fd hopen => ?_, h'.logFP.trans h.logFP⟩
  · obtain ⟨hkept₁, hlogged⟩ := h.logged hkept
    obtain ⟨hkept₂, hlogged'⟩ := h'.logged hkept₁
    exact ⟨hkept₂, hlogged.trans hlogged'⟩
  · obtain hbefore | hleft := h'.opened fd hopen
    · exact (h.opened fd hbefore).imp_right .inl
    · exact .inr (.inr hleft)

theorem works (h : Leaves ps ls left w w₁) (h' : Works ps ls w₁ w₂) : Leaves ps ls left w w₂ := by
  simpa using h.trans h'.leaves

theorem tidy (h : Leaves ps ls left w w₁) (h' : Leaves ps ls ∅ w₁ w₂) : Leaves ps ls left w w₂ := by
  simpa using h.trans h'

theorem mono (h : Leaves ps ls left w w₁) (hl : left ⊆ left') : Leaves ps ls left' w w₁ :=
  ⟨h.file, h.logged, fun fd hopen => (h.opened fd hopen).imp_right fun hfd => hl hfd, h.logFP⟩

theorem close (h : Leaves ps ls left w w₁) (hl : left ⊆ insert fd left') :
    Leaves ps ls left' w (cellFsClose fd w₁) := by
  refine ⟨h.file, fun hkept => ?_, fun fd' hopen => ?_, h.logFP⟩
  · obtain ⟨hkept₁, hlogged⟩ := h.logged hkept
    have hold : (cellFsClose fd w₁).logFP ≤ (cellFsClose fd w₁).now :=
      hkept₁.old.trans (by simp [cellFsClose, World.now])
    exact ⟨⟨cellFsClose_logsTo hkept₁.goes, hold⟩, hlogged⟩
  · have hne : fd' ≠ fd := by
      rintro rfl
      simp [cellFsClose] at hopen
    have hbefore : (w₁.handle fd').isSome := by simpa [cellFsClose, hne] using hopen
    exact (h.opened fd' hbefore).imp_right fun hfd => (hl hfd).resolve_left hne

end Leaves

theorem Works.after {left : Set ℕ} (h : Works ps ls w w₁) (h' : Leaves ps ls left w₁ w₂) :
    Leaves ps ls left w w₂ := by
  simpa using h.leaves.trans h'

section Files
variable (env : Env) {path : String} {mode : Mode} {fd size : ℕ}

theorem unopened_works : Works ps ls w (w.emit (.opened path mode none)) := .emit (.refl w) _

theorem afterOpen_leaves (hp : mode = .wronlyCreatTrunc → path ∈ ps) :
    Leaves ps ls {w.now + 1} w (afterOpen path mode w) := by
  have hother {other : String} (ho : other ∉ ps) : mode = .wronlyCreatTrunc → other ≠ path := by
    rintro hmode rfl
    exact ho (hp hmode)
  refine ⟨fun other ho => ?_, fun hkept => ⟨⟨fun path' hpath => ?_, ?_⟩, fun other _ => ?_⟩,
    fun fd hopen => ?_, rfl⟩
  · cases mode with
    | rdonly => rfl
    | wronlyCreatTrunc => exact Function.update_of_ne (hother ho rfl) ..
  · have hne : w.logFP ≠ w.now + 1 := Nat.ne_of_lt (Nat.lt_succ_of_le hkept.old)
    exact hkept.goes path' (by simpa [afterOpen, hne] using hpath)
  · exact hkept.old.trans (by simp)
  · cases mode with
    | rdonly => exact .inl rfl
    | wronlyCreatTrunc =>
      by_cases ho : other = path
      · subst ho
        exact .inr ⟨hp rfl, Function.update_self ..⟩
      · exact .inl (Function.update_of_ne ho ..)
  · by_cases hfd : fd = w.now + 1
    · exact .inr hfd
    · exact .inl (by simpa [hfd] using hopen)

theorem openRead_leaves (path : String) (w : World) :
    Leaves ps ls {w.now + 1} w (afterOpen path .rdonly w) := afterOpen_leaves nofun

theorem openWrite_leaves (w : World) (hp : path ∈ ps) :
    Leaves ps ls {w.now + 1} w (afterOpen path .wronlyCreatTrunc w) := afterOpen_leaves fun _ => hp

theorem cellFsRead_works (w : World) : Works ps ls w (cellFsRead env fd size w).world := by
  unfold cellFsRead
  split
  · rename_i h hok hh
    refine ⟨fun _ _ => rfl, fun _ _ _ => rfl, fun fd' => ?_, rfl, by simp⟩
    by_cases hfd : fd' = fd
    · subst hfd
      simp [afterRead, hh]
    · simp [afterRead, hfd]
  · exact .emit (.refl w) _

theorem cellFsWrite_works (bytes : List UInt8)
    (hfd : (w.handle fd).map Handle.path = some path) (hp : path ∈ ps) :
    Works ps ls w (cellFsWrite env fd bytes w).world := by
  obtain ⟨h, hh, rfl⟩ := Option.map_eq_some_iff.mp hfd
  refine ⟨fun other hother => ?_, fun _ _ _ => ?_, fun fd' => ?_, ?_, by simp⟩
  · have hne : other ≠ h.path := by
      rintro rfl
      exact hother hp
    simp [cellFsWrite, hh, hne]
  · simp only [cellFsWrite, hh, World.emit_logged]
  · simp only [cellFsWrite, hh, World.emit_handle]
  · simp only [cellFsWrite, hh, World.emit_logFP]

theorem writeAll_works (strict : Bool) (bytes : List UInt8) (offset : ℕ)
    (hfd : (w.handle fd).map Handle.path = some path) (hp : path ∈ ps) :
    Works ps ls w (writeAll env strict fd bytes offset w).world := by
  induction offset, w using writeAll.induct env strict fd bytes with
  | case1 offset w hlt r hstop =>
    rw [writeAll_stop hlt hstop]
    exact cellFsWrite_works env _ hfd hp
  | case2 offset w hlt r hgo ih =>
    have hwrite : Works ps ls w r.world := cellFsWrite_works env _ hfd hp
    rw [writeAll_go hlt hgo]
    exact hwrite.trans (ih ((hwrite.path fd).trans hfd))
  | case3 offset w hge =>
    rw [writeAll_end hge]
    exact .refl w

theorem readFile_leaves (path : String) (buf size : ℕ) (w : World) :
    Leaves ps ls ∅ w (readFile env path buf size w).world := by
  by_cases ho : Opens env path .rdonly w
  · have hread : Leaves ps ls {w.now + 1} w
        (cellFsRead env (w.now + 1) size (afterOpen path .rdonly w)).world :=
      (openRead_leaves path w).works (cellFsRead_works env _)
    unfold readFile
    rw [cellFsOpen_pos env ho]
    dsimp only
    split
    · exact (hread.works (.emit (.refl _) _)).close (by simp)
    · exact (hread.works (.stored (.refl _) _)).close (by simp)
  · unfold readFile
    rw [cellFsOpen_neg env ho]
    exact unopened_works.leaves

theorem writeFile_leaves (fp₀ : ℕ) (bytes : List UInt8) (w : World) (hp : path ∈ ps) :
    Leaves ps ls ∅ w (writeFile env fp₀ path bytes w) := by
  by_cases ho : Opens env path .wronlyCreatTrunc w
  · have hwrite : Leaves ps ls {w.now + 1} w
        (cellFsWrite env (w.now + 1) bytes (afterOpen path .wronlyCreatTrunc w)).world :=
      (openWrite_leaves w hp).works (cellFsWrite_works env _ (by simp) hp)
    rw [writeFile, cellFsOpen_pos env ho]
    exact hwrite.close (by simp)
  · rw [writeFile, cellFsOpen_neg env ho]
    exact unopened_works.leaves.close (by simp)

theorem copyRound_works (srcFd : ℕ) {dstFd : ℕ} {dst : String}
    (hfd : (w.handle dstFd).map Handle.path = some dst) (hp : dst ∈ ps) :
    Works ps ls w (passWorld (copyRound env srcFd dstFd w)) := by
  have hread : Works ps ls w (cellFsRead env srcFd 2048 w).world := cellFsRead_works env w
  unfold copyRound
  dsimp only
  split
  · exact hread
  · split
    · exact hread
    · have hwritten (bytes : List UInt8) := hread.trans
        (writeAll_works env true bytes 0 ((hread.path dstFd).trans hfd) hp)
      split <;> exact hwritten _

theorem copyRounds_works {srcFd dstFd n : ℕ} {dst : String} {r : Called Bool}
    (hfd : (w.handle dstFd).map Handle.path = some dst) (hp : dst ∈ ps)
    (h : run (copyRound env srcFd dstFd) n w = some r) : Works ps ls w r.world := by
  refine run_invariant _ (fun w₁ => Works ps ls w w₁) (fun r => Works ps ls w r.world)
    (fun w₁ w₂ hI hb => hI.trans ?_) (fun w₁ r hI hb => hI.trans ?_) (.refl w) h
  · simpa only [hb, passWorld] using
      copyRound_works env srcFd ((hI.path dstFd).trans hfd) hp
  · simpa only [hb, passWorld] using
      copyRound_works env srcFd ((hI.path dstFd).trans hfd) hp

theorem copyFile_leaves {src dst : String} {r : Called ℤ} (hp : dst ∈ ps)
    (h : copyFile env src dst w = some r) : Leaves ps ls ∅ w r.world := by
  by_cases hs : Opens env src .rdonly w
  · by_cases ht : env.opens (w.now + 1) = true
    · have hboth : Leaves ps ls ({w.now + 1} ∪ {w.now + 2}) w
          (afterOpen dst .wronlyCreatTrunc (afterOpen src .rdonly w)) := by
        refine (openRead_leaves src w).trans ?_
        rw [show w.now + 2 = (afterOpen src .rdonly w).now + 1 by simp]
        exact openWrite_leaves _ hp
      rw [copyFile_opened env hs ht] at h
      obtain ⟨r₀, hrun, rfl⟩ := Option.map_eq_some_iff.mp h
      have htarget : ((afterOpen dst .wronlyCreatTrunc (afterOpen src .rdonly w)).handle
          (w.now + 2)).map Handle.path = some dst := by simp
      have hcopied := hboth.works (copyRounds_works env htarget hp hrun)
      have hclosed {v : World} (hv : Leaves ps ls ({w.now + 1} ∪ {w.now + 2}) w v) :
          Leaves ps ls ∅ w (cellFsClose (w.now + 2) (cellFsClose (w.now + 1) v)) :=
        (hv.close (Set.singleton_union ..).subset).close (by simp)
      split
      · exact hclosed (hcopied.works (.emit (.refl _) _))
      · exact hclosed hcopied
    · rw [copyFile, cellFsOpen_pos env hs] at h
      dsimp only at h
      rw [cellFsOpen_neg env (by simp [Opens, ht])] at h
      obtain rfl := Option.some.inj h
      exact ((openRead_leaves src w).works unopened_works).close (by simp)
  · rw [copyFile, cellFsOpen_neg env hs] at h
    obtain rfl := Option.some.inj h
    exact unopened_works.leaves

end Files

section Update
variable (env : Env) (locals : Locals)

theorem request_works (pool poolSize serverUrl : ℕ) (w : World) :
    Works ps ls w (request env locals pool poolSize serverUrl w).world :=
  .of_quiet (request_quiet ..)

theorem disconnect_works (c : Connection) (w : World) : Works ps ls w (disconnect env c w) :=
  .of_quiet (disconnect_quiet ..)

theorem fetched_works (pool poolSize serverUrl : ℕ) (w : World) :
    Works ps ls w (fetched env locals pool poolSize serverUrl w).world :=
  .of_quiet (fetched_quiet ..)

theorem compareHash_works {value : ℕ → UInt8} {hashBuf : Digest} {err : ℤ} {r : Called ℤ}
    (h : compareHash env value hashBuf err w = some r) : Works ps ls w r.world := by
  refine run_invariant _ (fun s => s.world = w) (fun r => Works ps ls w r.world) ?_ ?_ rfl h
  · intro s s' hs hb
    have hcase := hb ▸ compareRound_cases env value hashBuf s
    cases hcase with
    | equal hi byte => exact hs
  · intro s r hs hb
    have hcase := hb ▸ compareRound_cases env value hashBuf s
    cases hcase with
    | differs hi byte => exact hs ▸ .of_quiet (.logLn _)
    | done hi => exact hs ▸ .refl _

variable {env locals} in
theorem receiveRounds_works {path : String} {fd trans n : ℕ} {s : Receiving}
    {r : Called (Option (List UInt8))} (hfd : (s.world.handle fd).map Handle.path = some path)
    (hp : path ∈ ps) (h : run (receiveRound env fd trans) n s = some r) :
    Works ps ls s.world r.world := by
  have hround (s₁ : Receiving) (hI : Works ps ls s.world s₁.world) :
      Works ps ls s.world (roundWorld (receiveRound env fd trans s₁)) := by
    have hrecv : Works ps ls s₁.world (cellHttpRecvResponse trans s₁.world).world := by
      unfold cellHttpRecvResponse
      dsimp only
      split <;> exact .of_eq rfl rfl rfl rfl (by simp [World.now])
    unfold receiveRound
    dsimp only
    split
    · exact hI.trans hrecv
    · split
      · exact hI.trans hrecv
      · have hwritten (bytes : List UInt8) := (hI.trans hrecv).trans
          (writeAll_works env false bytes 0 (((hI.trans hrecv).path fd).trans hfd) hp)
        split <;> exact hwritten _
  refine run_invariant _ (fun s₁ => Works ps ls s.world s₁.world)
    (fun r => Works ps ls s.world r.world) (fun s₁ s₂ hI hb => ?_) (fun s₁ r hI hb => ?_)
    (.refl _) h
  · simpa only [hb, roundWorld] using hround s₁ hI
  · simpa only [hb, roundWorld] using hround s₁ hI

structure BreaksOff (w : World) (fd : ℕ) : Prop where
  opens : env.opens w.now = true
  never : ¬ Stores env (w.now + 1) w.incoming
  fd : fd = w.now + 1

theorem httpDownloadFile_leaves {trans : HttpTransaction} {path : String}
    {hashBuf : Option Digest} {r : Called Download} (hp : path ∈ ps)
    (h : httpDownloadFile env trans path hashBuf w = some r) :
    Leaves ps ls {fd | BreaksOff env w fd} w r.world := by
  by_cases ho : env.opens w.now = true
  · obtain ⟨r₀, hrun, hrec⟩ := receiveRounds_spec env trans.transId
      (s := ⟨[], afterOpen path .wronlyCreatTrunc w⟩) (n := w.incoming.length + 1)
      (show (afterOpen path .wronlyCreatTrunc w).handle (w.now + 1) = some ⟨path, 0⟩ by simp)
      (by simp) (Nat.lt_succ_self _)
    have hloop : Leaves ps ls {w.now + 1} w r₀.world :=
      (openWrite_leaves w hp).works (receiveRounds_works (by simp) hp hrun)
    have hnow : (afterOpen path .wronlyCreatTrunc w).now = w.now + 1 := afterOpen_now
    rw [httpDownloadFile_opened env trans hashBuf ho, hrun, Option.map_some] at h
    obtain rfl := Option.some.inj h
    by_cases hs : Stores env (w.now + 1) w.incoming
    · obtain ⟨body, -, hv, -⟩ := hrec.whole (hnow.symm ▸ hs)
      simp only [hv]
      exact hloop.close (by simp)
    · simp only [(hrec.broken (hnow.symm ▸ hs)).1]
      exact hloop.mono (Set.singleton_subset_iff.mpr ⟨ho, hs, rfl⟩)
  · rw [httpDownloadFile, cellFsOpen_neg env (by simp [Opens, ho])] at h
    obtain rfl := Option.some.inj h
    exact unopened_works.leaves.mono (Set.empty_subset _)

structure BrokenOff (pool poolSize serverUrl : ℕ) (w : World) (fd : ℕ) : Prop
    extends BreaksOff env (fetched env locals pool poolSize serverUrl w).world fd where
  answered : Answered env locals pool poolSize serverUrl w 200

theorem downloadUpdate_leaves {pool poolSize serverUrl : ℕ} {r : Called ℤ}
    (hp : downloadPath ∈ ps) (h : downloadUpdate env locals pool poolSize serverUrl w = some r) :
    Leaves ps ls {fd | BrokenOff env locals pool poolSize serverUrl w fd} w r.world := by
  have hstart : Works ps ls w (logLn "\nstart download update\n" w) := .of_quiet (.logLn _)
  have hnone {w₁ : World} (hworks : Works ps ls w w₁) :
      Leaves ps ls {fd | BrokenOff env locals pool poolSize serverUrl w fd} w w₁ :=
    hworks.leaves.mono (Set.empty_subset _)
  by_cases hroom : pool = 0 ∨ poolSize = 0
  · obtain rfl := Option.some.inj ((if_pos hroom).symm.trans h)
    exact hnone (hstart.log _)
  · let c := connected env locals pool poolSize serverUrl w
    let header := fetched env locals pool poolSize serverUrl w
    have hconnected : Works ps ls w c.world := hstart.trans (request_works ..)
    have hfetched : Works ps ls w header.world := fetched_works ..
    replace h := (if_neg hroom).symm.trans h
    by_cases hsent : c.value.trans.err < 0
    · obtain rfl := Option.some.inj ((if_pos hsent).symm.trans h)
      exact hnone ((hconnected.trans (disconnect_works ..)).log _)
    · replace h := (if_neg hsent).symm.trans h
      by_cases hstatus : c.value.trans.statusCode = 200
      · obtain ⟨d, hd, h⟩ := Option.bind_eq_some_iff.mp ((if_pos hstatus).symm.trans h)
        obtain ⟨compared, hcompared, h⟩ := Option.bind_eq_some_iff.mp h
        obtain rfl := Option.some.inj h
        have hanswered : Answered env locals pool poolSize serverUrl w 200 :=
          ⟨hroom, hsent, hstatus⟩
        have hdownload := (hfetched.after (httpDownloadFile_leaves env hp hd)).mono
          (fun fd hfd => (⟨hfd, hanswered⟩ : BrokenOff env locals pool poolSize serverUrl w fd))
        have hlogged : Works ps ls d.world (logHeader header.value.value d.world) :=
          .of_quiet (.logHeader _)
        exact hdownload.works
          ((hlogged.trans (compareHash_works env hcompared)).trans (disconnect_works ..))
      · obtain rfl := Option.some.inj ((if_neg hstatus).symm.trans h)
        exact hnone (hfetched.trans (disconnect_works ..))

theorem httpPool_works (w : World) : Works ps ls w (httpPool env w).world :=
  .of_quiet ((Quiet.sys env _).trans (.sys env _))

/-- The download is made if `sys_net_initialize_network` does not return 0. -/
structure UpdateBroken (serverUrl : ℕ) (w : World) (fd : ℕ) : Prop
    extends BrokenOff env locals (httpPool env w).value 65536 serverUrl
      (httpPool env w).world fd where
  connects : (network env w).value ≠ 0

theorem tryUpdateAndInstall_leaves {serverUrl : ℕ} {r : Called ℤ} (hd : downloadPath ∈ ps)
    (hi : installPath ∈ ps) (h : tryUpdateAndInstall env locals serverUrl w = some r) :
    Leaves ps ls {fd | UpdateBroken env locals serverUrl w fd} w r.world := by
  by_cases hnet : (network env w).value = 0
  · obtain rfl := Option.some.inj ((if_pos hnet).symm.trans h)
    have hdown : Works ps ls w (network env w).world := .of_quiet (.sys env _)
    exact hdown.leaves.mono (Set.empty_subset _)
  · obtain ⟨d, hdown, h⟩ := Option.bind_eq_some_iff.mp ((if_neg hnet).symm.trans h)
    have hbroken : Leaves ps ls {fd | UpdateBroken env locals serverUrl w fd} w d.world :=
      ((httpPool_works env w).after (downloadUpdate_leaves env locals hd hdown)).mono
        fun fd hfd => ⟨hfd, hnet⟩
    have hfreed : Works ps ls d.world (released env (httpPool env w).value d) :=
      ((Works.refl d.world).emit (.downloaded d.value)).trans
        (.of_quiet ((Quiet.sys env _).trans (.sys env _)))
    have hreleased := hbroken.works hfreed
    by_cases h1 : d.value = 1
    · obtain ⟨c, hc, h⟩ := Option.bind_eq_some_iff.mp ((if_pos h1).symm.trans h)
      obtain rfl := Option.some.inj h
      exact (hreleased.tidy (copyFile_leaves env hi hc)).works (.log (.refl _) _)
    · replace h := (if_neg h1).symm.trans h
      by_cases h2 : d.value = 2
      · obtain rfl := Option.some.inj ((if_pos h2).symm.trans h)
        exact hreleased.works (.emit (.log (.refl _) _) _)
      · obtain rfl := Option.some.inj ((if_neg h2).symm.trans h)
        exact hreleased

end Update

def messages : Set String := {defaultLogPath, wmRequestPath}

def written : Set String := {defaultLogPath, wmRequestPath, downloadPath, installPath}

theorem messages_subset : messages ⊆ written := by
  rintro path (rfl | rfl) <;> simp [written]

/-- The module that is started writes only files of `ps`, with lines only in files of `ls`. -/
def Spares (env : Env) (ps ls : Set String) : Prop :=
  ∀ left, (∀ path ∉ ps, (env.startModule left).file path = left.file path) ∧
    LinesKept ps ls left (env.startModule left)

structure Covers (env : Env) (ps ls : Set String) : Prop where
  download : downloadPath ∈ ps
  install : installPath ∈ ps
  started : Spares env ps ls

section Run
variable (S : Setting) (options : PatchworkConfigOptions)

theorem sysmodules_works (c : ℕ → Sys) (fmt : String) (env : Env) (is : List ℕ) (w : World) :
    Works ps ls w (is.foldl (fun w i =>
      if (sys env (c i) w).value ≠ 0 then logLn fmt (sys env (c i) w).world
      else (sys env (c i) w).world) w) :=
  sysmodules_rel env .refl .trans fmt (fun _ w => .emit (.refl w) _) (fun w => .log (.refl w) _)
    is w

theorem loaded_works (launchArgs : Option PatchworkLaunchArgs) (w : World) :
    Works ps ls w (loaded S launchArgs w) := by
  unfold loaded
  split
  · have hlogged : Works ps ls w (infoDialog
        ("Patchwork has been updated to version " ++ S.major ++ "." ++ S.minor)
        (logLn "PRX was reloaded from PRX ID: %d" w)) := .emit (.log (.refl w) _) _
    exact hlogged.trans (sysmodules_works ..)
  · exact sysmodules_works ..

theorem launch_opened (hm : messages ⊆ ps) (hl : defaultLogPath ∈ ls)
    (launchArgs : Option PatchworkLaunchArgs) (w : World) :
    (∀ path ∉ ps, (launch S launchArgs w).file path = w.file path) ∧
      (LogKept ls w → LogKept ls (launch S launchArgs w) ∧
        LinesKept ps ls w.toShared (launch S launchArgs w).toShared) ∧
      ∀ fd, ((launch S launchArgs w).handle fd).isSome →
        (w.handle fd).isSome ∨ fd = (launch S launchArgs w).logFP := by
  have hloaded : Leaves ps ls ∅ w (loaded S launchArgs w) := (loaded_works S launchArgs w).leaves
  rw [launch_eq, initLogger]
  by_cases ho : Opens S.env defaultLogPath .wronlyCreatTrunc (loaded S launchArgs w)
  · have hlog : defaultLogPath ∈ ps := hm (by simp [messages])
    have hopened := hloaded.trans (openWrite_leaves (loaded S launchArgs w) hlog)
    rw [cellFsOpen_pos S.env ho]
    refine ⟨hopened.file, fun hkept => ⟨⟨fun path hpath => ?_, ?_⟩, (hopened.logged hkept).2⟩,
      fun fd hfd => (hopened.opened fd hfd).imp_right fun hleft => ?_⟩
    · obtain rfl : defaultLogPath = path := by simpa [afterOpen] using hpath
      exact hl
    · have hnow : (afterOpen defaultLogPath .wronlyCreatTrunc (loaded S launchArgs w)).now =
          (loaded S launchArgs w).now + 1 := afterOpen_now
      exact hnow.ge
    · simpa using hleft
  · rw [cellFsOpen_neg S.env ho]
    have hunopened : Leaves ps ls ∅ w ((loaded S launchArgs w).emit
        (.opened defaultLogPath .wronlyCreatTrunc none)) := hloaded.works unopened_works
    exact ⟨hunopened.file, hunopened.logged,
      fun fd hfd => .inl (by simpa using hunopened.opened fd hfd)⟩

theorem readConfig_leaves (w : World) : Leaves ps ls ∅ w (readConfig S w).world := by
  have hread : Leaves ps ls ∅ w (readFile S.env mainConfigPath S.frame.tomlBuf 312 w).world :=
    readFile_leaves ..
  unfold readConfig
  dsimp only
  split
  · exact hread.works (.log (.log (.stored (.refl _) _) _) _)
  · exact hread.works (.emit (.log (.refl _) _) _)

theorem tryRestartModule_leaves {env : Env} {w : World} (hs : Spares env ps ls) :
    Leaves ps ls ∅ w (tryRestartModule env w).world := by
  let restarting := logLn "Restarting module"
    (w.emit (.restart (w.file downloadPath) (w.file installPath)))
  let myId := sys env .getMyModuleId restarting
  let newId := sys env (.loadModule installPath) myId.world
  let ret := sys env (.startModule newId.value myId.value 1) newId.world
  have hret : Works ps ls w ret.world :=
    .emit (.emit (.emit (.log (.emit (.refl w) _) _) _) _) _
  have hstarted : Leaves ps ls ∅ w
      { ret.world with toShared := env.startModule ret.world.toShared } := by
    refine hret.after ⟨(hs _).1, fun hkept => ⟨⟨hkept.goes, hkept.old⟩, (hs _).2⟩,
      fun fd hopen => .inl hopen, rfl⟩
  unfold tryRestartModule
  dsimp only
  split
  · exact hstarted.works (.emit (.refl _) _)
  · exact hstarted

def LeftOpen (launchArgs : Option PatchworkLaunchArgs) (w : World) (fd : ℕ) : Prop :=
  ∃ options, (config S launchArgs w).value = some options ∧ Updates launchArgs options ∧
    UpdateBroken S.env S.locals options.updateServerUrl (config S launchArgs w).world fd

theorem configure_leaves {launchArgs : Option PatchworkLaunchArgs}
    {r : Called PatchworkConfigOptions}
    (hs : launchArgs.map PatchworkLaunchArgs.updated = some 0 → Covers S.env ps ls)
    (h : configure S launchArgs (launch S launchArgs w) = some r) :
    Leaves ps ls {fd | LeftOpen S launchArgs w fd} (launch S launchArgs w) r.world := by
  have hread : Leaves ps ls ∅ (launch S launchArgs w) (config S launchArgs w).world :=
    readConfig_leaves S _
  cases hc : (config S launchArgs w).value with
  | none =>
    obtain rfl := Option.some.inj ((configure_unread hc).symm.trans h)
    exact hread.mono (Set.empty_subset _)
  | some options =>
    by_cases hup : Updates launchArgs options
    · obtain ⟨t, ht, -⟩ := tryUpdateAndInstall_cases S.env S.locals options.updateServerUrl
        (config S launchArgs w).world
      have htried : Leaves ps ls {fd | LeftOpen S launchArgs w fd} (launch S launchArgs w)
          t.world := by
        refine (hread.trans (tryUpdateAndInstall_leaves S.env S.locals (hs hup.1).download
          (hs hup.1).install ht)).mono ?_
        rw [Set.empty_union]
        exact fun fd hfd => ⟨options, hc, hup, hfd⟩
      obtain rfl := Option.some.inj ((configure_tried hc hup ht).symm.trans h)
      split
      · exact htried.tidy (tryRestartModule_leaves (hs hup.1).started)
      · exact htried
    · obtain rfl := Option.some.inj ((configure_disabled hc hup).symm.trans h)
      exact hread.mono (Set.empty_subset _)

theorem setJoinKey_works {r : Called ℤ} (h : setJoinKey S options w = some r) :
    Works ps ls w r.world := by
  unfold setJoinKey at h
  split at h
  · obtain ⟨key, -, hr⟩ := Option.bind_eq_some_iff.mp h
    cases hr
    exact .log (.stored (.refl w) _) _
  · cases h
    exact .refl w

theorem setPointer_works {cell string : ℕ} {fmt : String}
    (h : setPointer cell string fmt w = some w₁) : Works ps ls w w₁ := by
  unfold setPointer at h
  split at h
  · obtain ⟨trimmed, -, hr⟩ := Option.bind_eq_some_iff.mp h
    cases hr
    exact .log (.stored (.refl w) _) _
  · cases h
    exact .refl w

theorem announce_leaves {randomized : ℤ} {game : GameNumber} (hp : wmRequestPath ∈ ps)
    (h : announce S options randomized game w = some w₁) : Leaves ps ls ∅ w w₁ := by
  obtain ⟨m, -, h⟩ := Option.bind_eq_some_iff.mp h
  obtain ⟨length, -, h⟩ := Option.bind_eq_some_iff.mp h
  cases h
  have hlogged : Works ps ls w
      { logLn "User agent: %s" (logLn "Selected patches for LBP%s" w) with mem := m } :=
    .stored (.log (.log (.refl w) _) _) m
  exact hlogged.after (writeFile_leaves S.env S.fp _ _ hp)

theorem applyGamePatches_works (rows : List GamePatch) (w : World) :
    Works ps ls w (applyGamePatches rows w) := by
  refine applyGamePatches_rel .refl .trans fun p _ w => ?_
  have hlogged : Works ps ls w (rowLog p w) := by
    unfold rowLog
    split <;> split
    all_goals first | exact .refl w | exact .log (.refl w) _
  exact hlogged.stored _

theorem patchGame_leaves (hp : wmRequestPath ∈ ps) (h : patchGame S options w = some w₁) :
    Leaves ps ls ∅ w w₁ := by
  obtain ⟨key, hkey, h⟩ := Option.bind_eq_some_iff.mp h
  obtain ⟨v, hserver, h⟩ := Option.bind_eq_some_iff.mp h
  obtain ⟨v₁, hurl, hdigest⟩ := Option.bind_eq_some_iff.mp hserver
  have hset : Works ps ls w v :=
    ((setJoinKey_works S options hkey).trans (setPointer_works hurl)).trans
      (setPointer_works hdigest)
  have hselected : Works ps ls w { v with mem := selectGame S (getLBPGameNumber v.mem) v.mem } :=
    hset.stored _
  by_cases hgame : getLBPGameNumber v.mem = .unknown
  · obtain rfl := Option.some.inj ((if_pos hgame).symm.trans h)
    exact (hselected.emit _).leaves
  · obtain ⟨v₂, hannounce, h⟩ := Option.bind_eq_some_iff.mp ((if_neg hgame).symm.trans h)
    cases h
    exact (hselected.after (announce_leaves S options hp hannounce)).works
      (applyGamePatches_works ..)

variable {S} {args : ℕ} {argp : Option PatchworkLaunchArgs} {w' : World}

theorem start_leaves (hm : messages ⊆ ps) (hl : defaultLogPath ∈ ls)
    (hs : (if args > 0 then argp else none).map PatchworkLaunchArgs.updated = some 0 →
      Covers S.env ps ls) (h : start S args argp w = some w') :
    (∀ path ∉ ps, w'.file path = w.file path) ∧
      (LogKept ls w → LinesKept ps ls w.toShared w'.toShared) ∧
      ∀ fd, (w'.handle fd).isSome →
        (w.handle fd).isSome ∨ LeftOpen S (if args > 0 then argp else none) w fd := by
  rw [start_eq] at h
  obtain ⟨v, hv, rfl⟩ := Option.map_eq_some_iff.mp h
  obtain ⟨r, hr, hpatch⟩ := Option.bind_eq_some_iff.mp hv
  obtain ⟨hfile, hlogged, hopened⟩ := launch_opened S hm hl (if args > 0 then argp else none) w
  have hworked := (configure_leaves S hs hr).tidy
    (patchGame_leaves S r.value (hm (by simp [messages])) hpatch)
  have hunloaded : Works ps ls (destroyLogger v) (unloadAllModules S.env (destroyLogger v)) :=
    sysmodules_works ..
  refine ⟨fun path hp => ?_, fun hkept => ?_, fun fd hfd => ?_⟩
  · rw [hunloaded.file path hp]
    exact (hworked.file path hp).trans (hfile path hp)
  · obtain ⟨hlaunched, hlines⟩ := hlogged hkept
    obtain ⟨hpatched, hlines'⟩ := hworked.logged hlaunched
    refine (hlines.trans hlines').trans fun path hp => .inl ?_
    exact hunloaded.logged (cellFsClose_logsTo hpatched.goes) path hp
  · have hclosed := (hunloaded.leaves.opened fd hfd).resolve_right (Set.notMem_empty fd)
    have hne : fd ≠ v.logFP := by
      rintro rfl
      simp [destroyLogger, cellFsClose] at hclosed
    have hbefore : (v.handle fd).isSome := by
      simpa [destroyLogger, cellFsClose, hne] using hclosed
    obtain hlaunched | hleft := hworked.opened fd hbefore
    · exact .inl ((hopened fd hlaunched).resolve_right (hworked.logFP ▸ hne))
    · exact .inr hleft

/-- The module that is started does not run, or runs `start` with what `TryRestartModule` passes
to it. -/
def StartsItself (env : Env) : Prop :=
  ∀ left, env.startModule left = left ∨ ∃ S' oldProcess v v',
    start S' 1 (some ⟨oldProcess, 1⟩) v = some v' ∧ v.toShared = left ∧ Unlogged v ∧
      env.startModule left = v'.toShared

theorem StartsItself.spares {env : Env} (self : StartsItself env) :
    Spares env messages {defaultLogPath} := by
  intro left
  obtain hno | ⟨S', oldProcess, v, v', hrun, rfl, hunlogged, hleft⟩ := self left
  · rw [hno]
    exact ⟨fun _ _ => rfl, .refl left⟩
  · -- the started module is told of the update, and starts no other
    obtain ⟨hfile, hlogged, -⟩ := start_leaves subset_rfl (Set.mem_singleton defaultLogPath)
      (fun hup => by simp at hup) hrun
    rw [hleft]
    exact ⟨hfile, hlogged hunlogged.kept⟩

theorem StartsItself.covers {env : Env} (self : StartsItself env) :
    Covers env written {defaultLogPath} where
  download := by simp [written]
  install := by simp [written]
  started left := ⟨fun path hp => (self.spares left).1 path fun hm => hp (messages_subset hm),
    (self.spares left).2.mono messages_subset⟩

theorem start_lines (self : StartsItself S.env) (unlogged : Unlogged w)
    (h : start S args argp w = some w') :
    LinesKept written {defaultLogPath} w.toShared w'.toShared :=
  (start_leaves messages_subset (Set.mem_singleton _) (fun _ => self.covers) h).2.1 unlogged.kept

/-- A run writes the module's four files and no others, also through the module that it starts,
and of these only the log gets lines; the others lose theirs, if they had any, when they are
opened to be written. -/
theorem start_spares (self : StartsItself S.env) (unlogged : Unlogged w)
    (h : start S args argp w = some w') :
    (∀ path ∉ written, w'.file path = w.file path) ∧
      ∀ path ≠ defaultLogPath, w'.logged path = w.logged path ∨
        path ∈ written ∧ w'.logged path = [] := by
  have hlog : defaultLogPath ∈ ({defaultLogPath} : Set String) := Set.mem_singleton _
  obtain ⟨hfile, -⟩ := start_leaves messages_subset hlog (fun _ => self.covers) h
  exact ⟨hfile, start_lines self unlogged h⟩

/-- And it closes what it opens, but for a download that breaks off. -/
theorem start_closes (h : start S args argp w = some w') (fd : ℕ)
    (hopen : (w'.handle fd).isSome) :
    (w.handle fd).isSome ∨ LeftOpen S (if args > 0 then argp else none) w fd := by
  have hall : Covers S.env Set.univ Set.univ :=
    ⟨trivial, trivial, fun _ => ⟨fun path hp => absurd (Set.mem_univ path) hp,
      fun path hp => absurd (Set.mem_univ path) hp⟩⟩
  exact (start_leaves (Set.subset_univ _) (Set.mem_univ _) (fun _ => hall) h).2.2 fd hopen

end Run

-- A module whose download breaks off, and which restarts into a module of its kind.
def started (S : Setting) (left : Shared) : Shared :=
  match start S 1 (some ⟨0, 1⟩) { freshWorld with toShared := left } with
  | some w => w.toShared
  | none => left

theorem startsItself_started {env : Env} {S : Setting} (h : env.startModule = started S) :
    StartsItself env := by
  intro left
  rw [h]
  cases hrun : start S 1 (some ⟨0, 1⟩) { freshWorld with toShared := left } with
  | none => exact .inl (by simp only [started, hrun])
  | some w => exact .inr ⟨S, 0, _, w, hrun, rfl, ⟨rfl, le_rfl⟩, by simp only [started, hrun]⟩

def brokenSetting : Setting := { updatingSetting with
  env := { updatingSetting.env with
    code := fun _ => 1
    startModule := started updatingSetting } }

def brokenWorld : World := { configuredWorld with incoming := [.error] }

theorem broken_runs : (start brokenSetting 1 (some ⟨0, 0⟩) brokenWorld).map
    (fun w => (w.handle 28).isSome) = some true := by decide +kernel

theorem start_spares_broken : ∃ w, start brokenSetting 1 (some ⟨0, 0⟩) brokenWorld = some w ∧
    (∀ path ∉ written, w.file path = brokenWorld.file path) ∧
      ∀ path ≠ defaultLogPath, w.logged path = brokenWorld.logged path ∨
        path ∈ written ∧ w.logged path = [] := by
  obtain ⟨w, hw, -⟩ := Option.map_eq_some_iff.mp broken_runs
  exact ⟨w, hw, start_spares (startsItself_started rfl) ⟨rfl, le_rfl⟩ hw⟩

theorem start_closes_broken : ∃ w, start brokenSetting 1 (some ⟨0, 0⟩) brokenWorld = some w ∧
    ((brokenWorld.handle 28).isSome ∨ LeftOpen brokenSetting (some ⟨0, 0⟩) brokenWorld 28) := by
  obtain ⟨w, hw, hopen⟩ := Option.map_eq_some_iff.mp broken_runs
  exact ⟨w, hw, start_closes hw 28 hopen⟩

end Patchwork.Footprint
