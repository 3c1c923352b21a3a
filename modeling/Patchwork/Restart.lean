import Patchwork.Prx

/-!
# Restarts

When a run of `start` calls `TryRestartModule` only with the update installed. It
also calls it when the network could not be initialised, when `DownloadUpdate`
failed and when the copy did.
-/

namespace Patchwork.Restart
open ByteMemory Console Fs Http Update Util Patches Prx

def Installed (pre : List Event) : Prop :=
  ∃ a b c, pre = a ++ .downloaded 1 :: (b ++ .copied downloadPath installPath :: c)

/-- Every call of `TryRestartModule` between `w` and `w'` came after an installation in the
same run, with the installed file equal to the download. -/
def RestartsInstalled (w w' : World) : Prop :=
  ∀ pre download install post, w'.trace = w.trace ++ (pre ++ .restart download install :: post) →
    Installed pre ∧ download.isSome ∧ install = download

theorem split_unique {P : Event → Prop} {xs ys pre post : List Event} {e f : Event}
    (hx : ∀ x ∈ xs, ¬ P x) (hy : ∀ y ∈ ys, ¬ P y) (hf : P f)
    (h : xs ++ e :: ys = pre ++ f :: post) : xs = pre ∧ e = f := by
  induction xs generalizing pre with
  | nil =>
    cases pre with
    | nil => exact ⟨rfl, (List.cons.inj h).1⟩
    | cons p ps =>
      have hmem : f ∈ ys := by simp [(List.cons.inj h).2]
      exact absurd hf (hy f hmem)
  | cons x xs ih =>
    cases pre with
    | nil =>
      obtain rfl : x = f := (List.cons.inj h).1
      exact absurd hf (hx x List.mem_cons_self)
    | cons p ps =>
      obtain ⟨rfl, htail⟩ := List.cons.inj h
      obtain ⟨rfl, he⟩ := ih (fun z hz => hx z (List.mem_cons_of_mem _ hz)) htail
      exact ⟨rfl, he⟩

def IsRestart : Event → Prop
  | .restart .. => True
  | _ => False

theorem not_isRestart {e : Event} (h : e.IsRoutine) : ¬ IsRestart e := by
  cases e <;> first | exact not_false | exact absurd h not_false

theorem Installed.downloaded {pre : List Event} (h : Installed pre) : .downloaded 1 ∈ pre := by
  obtain ⟨a, b, c, rfl⟩ := h
  simp

theorem Installed.copied {pre : List Event} (h : Installed pre) :
    .copied downloadPath installPath ∈ pre := by
  obtain ⟨a, b, c, rfl⟩ := h
  simp

structure CopiesWhole (env : Env) (w : World) : Prop where
  opens : OpensBoth env downloadPath w
  copies : ∃ content, w.file downloadPath = some content ∧
    Copies env (w.now + 2) content.length

section Trace
variable {w w₁ w' : World} {xs ys : List Event} {d i : Option (List UInt8)}

theorem restartsInstalled_of_emits (h : Emits (fun e => ¬ IsRestart e) w w') :
    RestartsInstalled w w' := by
  intro pre d i post ht
  obtain ⟨es, he, hno⟩ := h
  rw [he, List.append_cancel_left_eq] at ht
  exact absurd trivial (hno (.restart d i) (by simp [ht]))

theorem restartsInstalled_iff (ys : List Event)
    (ht : w'.trace = w.trace ++ (xs ++ .restart d i :: ys))
    (hx : ∀ e ∈ xs, ¬ IsRestart e) (hy : ∀ e ∈ ys, ¬ IsRestart e) :
    RestartsInstalled w w' ↔ Installed xs ∧ d.isSome ∧ i = d := by
  refine ⟨fun h => h xs d i ys ht, fun h pre d' i' post ht' => ?_⟩
  rw [ht, List.append_cancel_left_eq] at ht'
  obtain ⟨rfl, he⟩ := split_unique hx hy (show IsRestart (.restart d' i') from trivial) ht'
  cases he
  exact h

end Trace

def IsLocal : Event → Prop
  | .opened .. | .read .. | .written .. | .closed .. | .log .. | .dialog .. => True
  | .sys (.loadSysmodule _) _ | .sys (.unloadSysmodule _) _ => True
  | .sys .getMyModuleId _ | .sys (.loadModule _) _ | .sys (.startModule _ _ _) _ => True
  | _ => False

theorem IsLocal.file {e : Event} (h : e.IsFile) : IsLocal e := by
  cases e <;> trivial

theorem IsLocal.isRoutine {e : Event} (h : IsLocal e) : e.IsRoutine := by
  cases e <;> trivial

section Rest
variable (S : Setting) (options : PatchworkConfigOptions) {w w' : World}

theorem setJoinKey_emits {r : Called ℤ} (h : setJoinKey S options w = some r) :
    Emits IsLocal w r.world := by
  unfold setJoinKey at h
  split at h
  · obtain ⟨key, -, hr⟩ := Option.bind_eq_some_iff.mp h
    cases hr
    exact .one (by trivial) rfl
  · cases h
    exact .of_eq rfl

theorem setPointer_emits {cell string : ℕ} {fmt : String}
    (h : setPointer cell string fmt w = some w') : Emits IsLocal w w' := by
  unfold setPointer at h
  split at h
  · obtain ⟨trimmed, -, hr⟩ := Option.bind_eq_some_iff.mp h
    cases hr
    exact .one (by trivial) rfl
  · cases h
    exact .of_eq rfl

theorem writeFile_emits (env : Env) (fp : ℕ) (path : String) (bytes : List UInt8) (w : World) :
    Emits Event.IsFile w (writeFile env fp path bytes w) := by
  have hopen : Emits Event.IsFile w (cellFsOpen env path .wronlyCreatTrunc w).world :=
    cellFsOpen_emits env
  unfold writeFile
  dsimp only
  split
  · exact hopen.trans cellFsClose_emits
  · exact (hopen.trans (cellFsWrite_emits env)).trans cellFsClose_emits

theorem announce_emits {randomized : ℤ} {game : GameNumber}
    (h : announce S options randomized game w = some w') : Emits IsLocal w w' := by
  obtain ⟨m, -, h⟩ := Option.bind_eq_some_iff.mp h
  obtain ⟨length, -, h⟩ := Option.bind_eq_some_iff.mp h
  cases h
  have hlogged : Emits IsLocal w
      (logLn "User agent: %s" (logLn "Selected patches for LBP%s" w)) :=
    .emit (.one (by trivial) rfl) (by trivial)
  have hwritten := (writeFile_emits S.env S.fp wmRequestPath (load m S.frame.msgBuf length)
    { logLn "User agent: %s" (logLn "Selected patches for LBP%s" w) with mem := m }).mono
      fun _ he => IsLocal.file he
  exact (hlogged.trans (.of_eq rfl)).trans hwritten

theorem rowLog_emits (p : GamePatch) (w : World) : Emits IsLocal w (rowLog p w) := by
  unfold rowLog
  split <;> split <;> first | exact .one (by trivial) rfl | exact .of_eq rfl

theorem applyGamePatches_emits (ps : List GamePatch) (w : World) :
    Emits IsLocal w (applyGamePatches ps w) :=
  applyGamePatches_rel (fun _ => .of_eq rfl) .trans fun p _ w =>
    (rowLog_emits p w).trans (.of_eq rfl)

theorem patchGame_emits (h : patchGame S options w = some w') : Emits IsLocal w w' := by
  obtain ⟨key, hkey, h⟩ := Option.bind_eq_some_iff.mp h
  obtain ⟨w₁, hserver, h⟩ := Option.bind_eq_some_iff.mp h
  obtain ⟨w₂, hurl, hdigest⟩ := Option.bind_eq_some_iff.mp hserver
  have hset : Emits IsLocal w w₁ :=
    ((setJoinKey_emits S options hkey).trans (setPointer_emits hurl)).trans
      (setPointer_emits hdigest)
  have hselected : Emits IsLocal w
      { w₁ with mem := selectGame S (getLBPGameNumber w₁.mem) w₁.mem } := hset.trans (.of_eq rfl)
  by_cases hgame : getLBPGameNumber w₁.mem = .unknown
  · obtain rfl := Option.some.inj ((if_pos hgame).symm.trans h)
    exact hselected.emit (by trivial)
  · obtain ⟨w₃, hannounce, h⟩ := Option.bind_eq_some_iff.mp ((if_neg hgame).symm.trans h)
    cases h
    exact (hselected.trans (announce_emits S options hannounce)).trans (applyGamePatches_emits _ _)

theorem sysmodules_emits (c : ℕ → Sys) (fmt : String) (h : ∀ i code, IsLocal (.sys (c i) code))
    (env : Env) (is : List ℕ) (w : World) : Emits IsLocal w (is.foldl (fun w i =>
      if (sys env (c i) w).value ≠ 0 then logLn fmt (sys env (c i) w).world
      else (sys env (c i) w).world) w) :=
  sysmodules_rel env (fun _ => .of_eq rfl) .trans fmt (fun i _ => .one (h i _) rfl)
    (fun _ => .one (by trivial) rfl) is w

theorem loadAllModules_emits (env : Env) (w : World) : Emits IsLocal w (loadAllModules env w) :=
  sysmodules_emits .loadSysmodule _ (fun _ _ => trivial) env _ w

theorem unloadAllModules_emits (env : Env) (w : World) :
    Emits IsLocal w (unloadAllModules env w) :=
  sysmodules_emits .unloadSysmodule _ (fun _ _ => trivial) env _ w

theorem launch_emits (launchArgs : Option PatchworkLaunchArgs) (w : World) :
    Emits IsLocal w (launch S launchArgs w) := by
  have hinit (w : World) : Emits IsLocal w (initLogger S.env w) :=
    (((cellFsOpen_emits S.env).mono fun _ he => .file he)).trans (.of_eq rfl)
  unfold launch
  dsimp only
  split
  · have hdialog (text : String) : Emits IsLocal w
        (infoDialog text (logLn "PRX was reloaded from PRX ID: %d" w)) :=
      .emit (.one (by trivial) rfl) (by trivial)
    exact ((hdialog _).trans (loadAllModules_emits _ _)).trans (hinit _)
  · exact (loadAllModules_emits _ _).trans (hinit _)

theorem readFile_emits (env : Env) (path : String) (buf size : ℕ) (w : World) :
    Emits IsLocal w (readFile env path buf size w).world := by
  have hopen : Emits IsLocal w (cellFsOpen env path .rdonly w).world :=
    (cellFsOpen_emits env).mono fun _ he => .file he
  have hclose (fd : ℕ) (w : World) : Emits IsLocal w (cellFsClose fd w) :=
    cellFsClose_emits.mono fun _ he => .file he
  unfold readFile
  dsimp only
  split
  · exact hopen
  · have hread (fp : ℕ) : Emits IsLocal w
        (cellFsRead env fp size (cellFsOpen env path .rdonly w).world).world :=
      hopen.trans ((cellFsRead_emits env).mono fun _ he => .file he)
    split
    · exact ((hread _).emit (by trivial)).trans (hclose _ _)
    · exact ((hread _).trans (.of_eq rfl)).trans (hclose _ _)

theorem readConfig_emits (w : World) : Emits IsLocal w (readConfig S w).world := by
  have hread := readFile_emits S.env mainConfigPath S.frame.tomlBuf 312 w
  unfold readConfig
  dsimp only
  split
  · exact ((hread.trans (.of_eq rfl)).emit (by trivial)).emit (by trivial)
  · exact (hread.emit (by trivial)).emit (by trivial)

theorem unload_emits (w : World) :
    Emits IsLocal w (unloadAllModules S.env (destroyLogger w)) :=
  (cellFsClose_emits.mono fun _ he => .file he).trans (unloadAllModules_emits _ _)

theorem tryRestartModule_emits (env : Env) (w : World) :
    Emits IsLocal (w.emit (.restart (w.file downloadPath) (w.file installPath)))
      (tryRestartModule env w).world := by
  have hstarted (w : World) : Emits IsLocal w (sys env (.startModule
      (sys env (.loadModule installPath) (sys env .getMyModuleId
        (logLn "Restarting module" w)).world).value
      (sys env .getMyModuleId (logLn "Restarting module" w)).value 1)
      (sys env (.loadModule installPath) (sys env .getMyModuleId
        (logLn "Restarting module" w)).world).world).world :=
    .emit (.emit (.emit (.one (by trivial) rfl) (by trivial)) (by trivial)) (by trivial)
  unfold tryRestartModule
  dsimp only
  split
  · exact ((hstarted _).trans (.of_eq rfl)).emit (by trivial)
  · exact (hstarted _).trans (.of_eq rfl)

end Rest

section Run
variable (S : Setting) (launchArgs : Option PatchworkLaunchArgs) (w : World)

def config : Called (Option PatchworkConfigOptions) := readConfig S (launch S launchArgs w)

def pool : Called ℕ := httpPool S.env (config S launchArgs w).world

def download (options : PatchworkConfigOptions) : Option (Called ℤ) :=
  downloadUpdate S.env S.locals (pool S launchArgs w).value 65536 options.updateServerUrl
    (pool S launchArgs w).world

/-- The runs in which every restart is into an installed update: no update is looked for,
there is none, or the one that was downloaded gets copied whole. -/
inductive SafeRestart : Prop
  | unread (h : (config S launchArgs w).value = none)
  | disabled {options : PatchworkConfigOptions}
      (read : (config S launchArgs w).value = some options)
      (no : ¬ Updates launchArgs options)
  | upToDate {options : PatchworkConfigOptions}
      (read : (config S launchArgs w).value = some options)
      (connects : (network S.env (config S launchArgs w).world).value ≠ 0)
      (upToDate : UpToDate S.env S.locals (pool S launchArgs w).value 65536 options.updateServerUrl
        (pool S launchArgs w).world)
  | installed {options : PatchworkConfigOptions} {r : Called ℤ}
      (read : (config S launchArgs w).value = some options)
      (connects : (network S.env (config S launchArgs w).world).value ≠ 0)
      (accepted : Accepted S.env S.locals (pool S launchArgs w).value 65536 options.updateServerUrl
        (pool S launchArgs w).world)
      (downloaded : download S launchArgs w options = some r)
      (copies : CopiesWhole S.env (released S.env (pool S launchArgs w).value r))

variable {S launchArgs w}

theorem download_spec {options : PatchworkConfigOptions} {r : Called ℤ}
    (h : download S launchArgs w options = some r) :
    Emits Event.IsRoutine (pool S launchArgs w).world r.world ∧
      (r.value = 1 ↔ Accepted S.env S.locals (pool S launchArgs w).value 65536
        options.updateServerUrl (pool S launchArgs w).world) ∧
      (r.value = 0 ↔ UpToDate S.env S.locals (pool S launchArgs w).value 65536
        options.updateServerUrl (pool S launchArgs w).world) := by
  obtain ⟨r', hr', hemits, -, hone, hzero⟩ := downloadUpdate_answers S.env S.locals
    (pool S launchArgs w).value 65536 options.updateServerUrl (pool S launchArgs w).world
  obtain rfl : r = r' := Option.some.inj (h.symm.trans hr')
  exact ⟨hemits, hone, hzero⟩

theorem configure_unread (hc : (config S launchArgs w).value = none) :
    configure S launchArgs (launch S launchArgs w) =
      some ⟨⟨0, 0, 0, 0, 0, 0⟩, (config S launchArgs w).world⟩ := by
  unfold config at *
  simp only [configure, hc]

theorem configure_disabled {options : PatchworkConfigOptions}
    (hc : (config S launchArgs w).value = some options) (no : ¬ Updates launchArgs options) :
    configure S launchArgs (launch S launchArgs w) =
      some ⟨options, (config S launchArgs w).world⟩ := by
  unfold config at *
  simp only [configure, hc, no, if_false]

theorem configure_tried {options : PatchworkConfigOptions} {t : Called ℤ}
    (hc : (config S launchArgs w).value = some options) (up : Updates launchArgs options)
    (ht : tryUpdateAndInstall S.env S.locals options.updateServerUrl (config S launchArgs w).world =
      some t) :
    configure S launchArgs (launch S launchArgs w) = some (if t.value ≠ 0
      then ⟨options, (tryRestartModule S.env t.world).world⟩ else ⟨options, t.world⟩) := by
  unfold config at *
  simp only [configure, hc, up, if_true, ht]
  change (if _ then _ else _) = _
  split <;> rfl

theorem restart_iff {v w' : World} {xs : List Event} (hv : v.trace = w.trace ++ xs)
    (hx : ∀ e ∈ xs, ¬ IsRestart e)
    (hw : Emits Event.IsRoutine (tryRestartModule S.env v).world w') :
    RestartsInstalled w w' ↔ Installed xs ∧ (v.file downloadPath).isSome ∧
      v.file installPath = v.file downloadPath := by
  obtain ⟨ys, hy, hroutine⟩ :=
    ((tryRestartModule_emits S.env v).mono fun _ he => he.isRoutine).trans hw
  refine restartsInstalled_iff ys ?_ hx fun e he => not_isRestart (hroutine e he)
  rw [hy, World.emit_trace, hv]
  simp

theorem not_restartsInstalled {v w' : World} {mark : Event}
    (hm : ∀ pre, Installed pre → mark ∈ pre)
    (hv : Emits (fun e => ¬ IsRestart e ∧ e ≠ mark) w v)
    (hw : Emits Event.IsRoutine (tryRestartModule S.env v).world w') :
    ¬ RestartsInstalled w w' := by
  obtain ⟨xs, hxs, hP⟩ := hv
  rw [restart_iff hxs (fun e he => (hP e he).1) hw]
  exact fun h => (hP mark (hm xs h.1)).2 rfl

theorem Routine.unmarked {e : Event} (h : e.IsRoutine) :
    (¬ IsRestart e ∧ e ≠ .downloaded 1) ∧ ¬ IsRestart e ∧ e ≠ .copied downloadPath installPath := by
  refine ⟨⟨not_isRestart h, ?_⟩, not_isRestart h, ?_⟩ <;>
  · rintro rfl
    exact h

section Tried
variable {options : PatchworkConfigOptions} (hc : (config S launchArgs w).value = some options)
  (hup : Updates launchArgs options)
include hc hup

theorem safeRestart_iff : SafeRestart S launchArgs w ↔
    (network S.env (config S launchArgs w).world).value ≠ 0 ∧
      (UpToDate S.env S.locals (pool S launchArgs w).value 65536 options.updateServerUrl
          (pool S launchArgs w).world ∨
        Accepted S.env S.locals (pool S launchArgs w).value 65536 options.updateServerUrl
            (pool S launchArgs w).world ∧
          ∃ r, download S launchArgs w options = some r ∧
            CopiesWhole S.env (released S.env (pool S launchArgs w).value r)) := by
  constructor
  · intro h
    cases h with
    | unread h => rw [hc] at h; cases h
    | disabled read no =>
      rw [hc] at read
      cases read
      exact absurd hup no
    | upToDate read connects upToDate =>
      rw [hc] at read
      cases read
      exact ⟨connects, .inl upToDate⟩
    | installed read connects accepted downloaded copies =>
      rw [hc] at read
      cases read
      exact ⟨connects, .inr ⟨accepted, _, downloaded, copies⟩⟩
  · intro safe
    obtain ⟨connects, upToDate | ⟨accepted, r, downloaded, copies⟩⟩ := safe
    · exact .upToDate hc connects upToDate
    · exact .installed hc connects accepted downloaded copies

theorem safeRestart_iff_copies {r : Called ℤ}
    (connects : (network S.env (config S launchArgs w).world).value ≠ 0)
    (downloaded : download S launchArgs w options = some r) (one : r.value = 1) :
    SafeRestart S launchArgs w ↔
      CopiesWhole S.env (released S.env (pool S launchArgs w).value r) := by
  obtain ⟨-, hone, hzero⟩ := download_spec downloaded
  rw [safeRestart_iff hc hup]
  constructor
  · intro safe
    obtain ⟨-, upToDate | ⟨-, r', downloaded', copies⟩⟩ := safe
    · have h0 := hzero.mpr upToDate
      omega
    · obtain rfl : r = r' := Option.some.inj (downloaded.symm.trans downloaded')
      exact copies
  · exact fun copies => ⟨connects, .inr ⟨hone.mp one, r, downloaded, copies⟩⟩

theorem not_safeRestart_of_value {r : Called ℤ}
    (downloaded : download S launchArgs w options = some r)
    (h0 : r.value ≠ 0) (h1 : r.value ≠ 1) : ¬ SafeRestart S launchArgs w := by
  obtain ⟨-, hone, hzero⟩ := download_spec downloaded
  rw [safeRestart_iff hc hup]
  intro safe
  obtain ⟨-, upToDate | ⟨accepted, -⟩⟩ := safe
  · exact h0 (hzero.mpr upToDate)
  · exact h1 (hone.mpr accepted)

variable {w' : World}

theorem installed_safe {r c : Called ℤ}
    (connects : (network S.env (config S launchArgs w).world).value ≠ 0)
    (downloaded : download S launchArgs w options = some r) (one : r.value = 1)
    (hr : Emits Event.IsRoutine w r.world)
    (copy : CopyCase S.env downloadPath installPath
      (released S.env (pool S launchArgs w).value r) c)
    (hw : Emits Event.IsRoutine
      (tryRestartModule S.env (logLn "No patchwork update available" c.world)).world w') :
    RestartsInstalled w w' ↔ SafeRestart S launchArgs w := by
  have hrel : Emits Event.IsRoutine (r.world.emit (.downloaded r.value))
      (released S.env (pool S launchArgs w).value r) :=
    ((Quiet.sys S.env _).trans (.sys S.env _)).emits
  have hmarked : Emits (fun e => ¬ IsRestart e ∧ e ≠ .copied downloadPath installPath) w
      (released S.env (pool S launchArgs w).value r) :=
    ((hr.mono fun _ he => (Routine.unmarked he).2).emit
      ⟨show ¬ IsRestart (.downloaded r.value) from not_false, by simp⟩).trans
        (hrel.mono fun _ he => (Routine.unmarked he).2)
  have hlog : Emits Event.IsRoutine c.world (logLn "No patchwork update available" c.world) :=
    (Quiet.logLn _).emits
  -- without the mark of a finished copy no restart of the run can be justified
  have hcut (hcopy : Emits Event.IsFile (released S.env (pool S launchArgs w).value r) c.world)
      (no : ¬ CopiesWhole S.env (released S.env (pool S launchArgs w).value r)) :
      RestartsInstalled w w' ↔ SafeRestart S launchArgs w := by
    refine iff_of_false (not_restartsInstalled (fun _ => Installed.copied) ?_ hw)
      ((safeRestart_iff_copies hc hup connects downloaded one).not.mpr no)
    exact (hmarked.trans (hcopy.mono fun _ he => (Routine.unmarked he.isRoutine).2)).trans
      (hlog.mono fun _ he => (Routine.unmarked he).2)
  cases copy with
  | unopened no file emits => exact hcut emits fun h => no h.opens
  | failed opens source copied emits never =>
    refine hcut emits fun h => ?_
    obtain ⟨content, hcontent, hcopies⟩ := h.copies
    obtain rfl := Option.some.inj (source.symm.trans hcontent)
    exact never hcopies
  | @finished w₁ w₂ content k opens source copied emits closes whole =>
    obtain ⟨es₁, he₁, hp₁⟩ := hr
    obtain ⟨es₂, he₂, hp₂⟩ := hrel
    obtain ⟨es₃, he₃, hp₃⟩ := emits
    obtain ⟨es₄, he₄, hp₄⟩ := closes
    obtain ⟨es₅, he₅, hp₅⟩ := hlog
    -- the events up to the restart, with the two marks in their places
    have hxs : (logLn "No patchwork update available" w₂).trace =
        w.trace ++ (es₁ ++ .downloaded 1 ::
          ((es₂ ++ es₃) ++ .copied downloadPath installPath :: (es₄ ++ es₅))) := by
      rw [he₅, he₄, World.emit_trace, he₃, he₂, World.emit_trace, he₁, one]
      simp
    rw [restart_iff hxs ?_ hw, safeRestart_iff_copies hc hup connects downloaded one]
    · have hd : (logLn "No patchwork update available" w₂).file downloadPath = some content :=
        copied.source
      refine ⟨fun ⟨_, _, hi⟩ => ⟨opens, content, source, whole.mp (hi.trans hd)⟩, fun h => ?_⟩
      obtain ⟨content', hcontent, hcopies⟩ := h.copies
      obtain rfl := Option.some.inj (source.symm.trans hcontent)
      exact ⟨⟨es₁, es₂ ++ es₃, es₄ ++ es₅, rfl⟩, by simp [hd], (whole.mpr hcopies).trans hd.symm⟩
    · intro e he
      simp only [List.mem_append, List.mem_cons] at he
      rcases he with he | rfl | (he | he) | rfl | he | he
      · exact not_isRestart (hp₁ e he)
      · exact not_false
      · exact not_isRestart (hp₂ e he)
      · exact not_isRestart (hp₃ e he).isRoutine
      · exact not_false
      · exact not_isRestart (hp₄ e he).isRoutine
      · exact not_isRestart (hp₅ e he)

end Tried

variable (S launchArgs w)

theorem configure_safe : ∃ r, configure S launchArgs (launch S launchArgs w) = some r ∧
    ∀ w', Emits Event.IsRoutine r.world w' →
      (RestartsInstalled w w' ↔ SafeRestart S launchArgs w) := by
  have hread : Emits Event.IsRoutine w (config S launchArgs w).world :=
    ((launch_emits S launchArgs w).trans (readConfig_emits S _)).mono fun _ he => he.isRoutine
  cases hc : (config S launchArgs w).value with
  | none =>
    refine ⟨_, configure_unread hc, fun w' hw => iff_of_true ?_ (.unread hc)⟩
    exact restartsInstalled_of_emits ((hread.trans hw).mono fun _ he => not_isRestart he)
  | some options =>
    by_cases hup : Updates launchArgs options
    · obtain ⟨t, ht, hcase⟩ := tryUpdateAndInstall_cases S.env S.locals options.updateServerUrl
        (config S launchArgs w).world
      refine ⟨_, configure_tried hc hup ht, fun w' hw => ?_⟩
      have hpool : Emits Event.IsRoutine w (pool S launchArgs w).world :=
        hread.trans ((Quiet.sys S.env _).trans (.sys S.env _)).emits
      cases hcase with
      | noNetwork down emits =>
        refine iff_of_false (not_restartsInstalled (fun _ => Installed.downloaded)
          ((hread.trans emits).mono fun _ he => (Routine.unmarked he).1) hw) fun h => ?_
        exact ((safeRestart_iff hc hup).mp h).1 down
      | @answered r t connects downloaded other emits =>
        obtain ⟨hemits, -, hzero⟩ := download_spec downloaded
        have hmarked : Emits (fun e => ¬ IsRestart e ∧ e ≠ .downloaded 1) w t :=
          (((hpool.trans hemits).mono fun _ he => (Routine.unmarked he).1).emit
            ⟨show ¬ IsRestart (.downloaded r.value) from not_false, by simpa using other⟩).trans
              (emits.mono fun _ he => (Routine.unmarked he).1)
        by_cases h0 : r.value = 0
        · simp only [h0, ne_eq, not_true_eq_false, if_false] at hw
          refine iff_of_true (restartsInstalled_of_emits ?_)
            ((safeRestart_iff hc hup).mpr ⟨connects, .inl (hzero.mp h0)⟩)
          exact (hmarked.mono fun _ he => he.1).trans (hw.mono fun _ he => not_isRestart he)
        · simp only [ne_eq, h0, not_false_eq_true, if_true] at hw
          exact iff_of_false (not_restartsInstalled (fun _ => Installed.downloaded) hmarked hw)
            (not_safeRestart_of_value hc hup downloaded h0 other)
      | @installed r c connects downloaded one copy =>
        exact installed_safe hc hup connects downloaded one
          (hpool.trans (download_spec downloaded).1) copy hw
    · refine ⟨_, configure_disabled hc hup, fun w' hw => iff_of_true ?_ (.disabled hc hup)⟩
      exact restartsInstalled_of_emits ((hread.trans hw).mono fun _ he => not_isRestart he)

theorem start_emits {args : ℕ} {argp : Option PatchworkLaunchArgs} {w w' : World}
    (h : start S args argp w = some w') :
    ∃ r, configure S (if args > 0 then argp else none)
      (launch S (if args > 0 then argp else none) w) = some r ∧
        Emits IsLocal r.world w' := by
  obtain ⟨r, hr, h⟩ := Option.bind_eq_some_iff.mp h
  obtain ⟨w₁, hpatch, h⟩ := Option.bind_eq_some_iff.mp h
  cases h
  exact ⟨r, hr, (patchGame_emits S r.value hpatch).trans (unload_emits S w₁)⟩

/-- The update phase of a run ends, and every restart of the run is into an installed update
exactly in the safe cases, at the phase's end as well as at the run's. -/
theorem start_restartsInstalled_iff (args : ℕ) (argp : Option PatchworkLaunchArgs) (w : World) :
    (∃ r, configure S (if args > 0 then argp else none)
        (launch S (if args > 0 then argp else none) w) = some r ∧
      (RestartsInstalled w r.world ↔ SafeRestart S (if args > 0 then argp else none) w)) ∧
    ∀ w', start S args argp w = some w' →
      (RestartsInstalled w w' ↔ SafeRestart S (if args > 0 then argp else none) w) := by
  obtain ⟨r, hr, hsafe⟩ := configure_safe S (if args > 0 then argp else none) w
  refine ⟨⟨r, hr, hsafe r.world (.of_eq rfl)⟩, fun w' h => ?_⟩
  obtain ⟨r', hr', hemits⟩ := start_emits S h
  obtain rfl : r = r' := Option.some.inj (hr.symm.trans hr')
  exact hsafe w' (hemits.mono fun _ he => he.isRoutine)

end Run

-- A run in which the network is initialised, with result 0.
def updatingSetting : Setting where
  env := { unopenedEnv with opens := fun _ => true }
  globals := ⟨0x10000, 0x10004, 0x10008, 0x1000c, 0x10010, 0x10014, 0x10018, 0x11000, 0x11100,
    0x11200, 0x11300, 0x11400, 0x11500, 0x11600, 0x11700⟩
  frame := ⟨0x20000, 0x20200, 0x20300, 0x20400, 0x20500⟩
  locals := staleLocals
  major := "2"
  minor := "0"
  sec := 0
  nsec := 0
  fp := 0
  toml _ m := (⟨0, 0, 0, 0, 1, 1⟩, m)
  uintToStr := decimalDigit
  uintToStr_digit := decimalDigit_eq

def configuredWorld : World := { freshWorld with
  file := Function.update freshWorld.file mainConfigPath (some []) }

theorem start_restarts_uninstalled : ¬ ∀ (S : Setting) (args : ℕ)
    (argp : Option PatchworkLaunchArgs) (w w' : World), start S args argp w = some w' →
    RestartsInstalled w w' := by
  intro h
  have hsome : (start updatingSetting 1 (some ⟨0, 0⟩) configuredWorld).isSome := by decide +kernel
  obtain ⟨w', hw⟩ := Option.isSome_iff_exists.mp hsome
  obtain ⟨r, hr, hemits⟩ := start_emits updatingSetting hw
  obtain ⟨r', hr', hsafe⟩ := configure_safe updatingSetting (some ⟨0, 0⟩) configuredWorld
  obtain rfl : r = r' := Option.some.inj (hr.symm.trans hr')
  have hconfig : (config updatingSetting (some ⟨0, 0⟩) configuredWorld).value =
      some ⟨0, 0, 0, 0, 1, 1⟩ := by rfl
  have hrestarts := (hsafe w' (hemits.mono fun _ he => he.isRoutine)).mp (h _ _ _ _ _ hw)
  exact ((safeRestart_iff hconfig (by decide)).mp hrestarts).1 rfl

end Patchwork.Restart
