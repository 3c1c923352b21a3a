import Patchwork.Resources
import Patchwork.Restart
import Patchwork.TraceWindow

/-!
# The log's window

`InitLogger` opens the log and `DestroyLogger` closes it. `start` writes to it outside
of the two: when it was given arguments, and when a system module cannot be loaded or
unloaded. And nothing tells whether the open succeeded, while a run always has
something to log.
-/

namespace Patchwork.LogWindow
open Console Update Util Patches Prx Resources Restart TraceWindow

def IsLog : Event → Prop
  | .log .. => True
  | _ => False

def calls (w w' : World) : List Event := w'.trace.drop w.now

/-- Every write to the log lies between the open at `opening`, which succeeded, and
`closing`. -/
structure LoggedWhileOpen (opening closing : ℕ) (w w' : World) : Prop where
  window : Within IsLog (calls w w') opening closing
  opened : (∃ e ∈ calls w w', IsLog e) → ∃ fd,
    (calls w w')[opening]? = some (.opened defaultLogPath .wronlyCreatTrunc (some fd))

section Start
variable (S : Setting) (launchArgs : Option PatchworkLaunchArgs)

def loaded (w : World) : World :=
  loadAllModules S.env (if launchArgs.isSome then
    infoDialog ("Patchwork has been updated to version " ++ S.major ++ "." ++ S.minor)
      (logLn "PRX was reloaded from PRX ID: %d" w)
  else w)

def worked (w : World) : Option World := do
  let configured ← configure S launchArgs (launch S launchArgs w)
  patchGame S configured.value configured.world

structure Prepared (w : World) : Prop where
  fresh : launchArgs = none
  loads : ∀ i < 3, S.env.code (w.now + i) = 0
  opens : S.env.opens (w.now + 3) = true

theorem launch_eq (w : World) :
    launch S launchArgs w = initLogger S.env (loaded S launchArgs w) := rfl

theorem start_eq (args : ℕ) (argp : Option PatchworkLaunchArgs) (w : World) :
    start S args argp w = (worked S (if args > 0 then argp else none) w).map fun v =>
      unloadAllModules S.env (destroyLogger v) := by
  unfold start worked
  dsimp only
  cases configure S (if args > 0 then argp else none)
    (launch S (if args > 0 then argp else none) w) with
  | none => rfl
  | some r => exact (Option.map_eq_bind ..).symm

end Start

def Logs (w w' : World) : Prop := ∃ es, w'.trace = w.trace ++ es ∧ ∃ e ∈ es, IsLog e

theorem Logs.emits {w w' : World} (h : Logs w w') : Emits (fun _ => True) w w' := by
  obtain ⟨es, hes, -⟩ := h
  exact ⟨es, hes, fun _ _ => trivial⟩

theorem Logs.append {P : Event → Prop} {w w₁ w₂ : World} (h : Logs w w₁) (h' : Emits P w₁ w₂) :
    Logs w w₂ := by
  obtain ⟨es, hes, e, he, hlog⟩ := h
  obtain ⟨es', hes', -⟩ := h'
  exact ⟨es ++ es', by rw [hes', hes, List.append_assoc], e, List.mem_append_left es' he, hlog⟩

theorem calls_eq {w w' : World} {es : List Event} (h : w'.trace = w.trace ++ es) :
    calls w w' = es := by
  rw [calls, h, World.now, List.drop_left]

theorem now_sub {w w' : World} {es : List Event} (h : w'.trace = w.trace ++ es) :
    w'.now - w.now = es.length := by
  rw [World.now, h, List.length_append, World.now, Nat.add_sub_cancel_left]

theorem calls_getElem? {P : Event → Prop} {w v w' : World} {e : Event} {es : List Event}
    (hv : Emits P w v) (h : w'.trace = v.trace ++ e :: es) :
    (calls w w')[v.now - w.now]? = some e := by
  obtain ⟨xs, hxs, -⟩ := hv
  rw [calls_eq (by rw [h, hxs, List.append_assoc]), now_sub hxs,
    List.getElem?_append_right (Nat.le_refl _), Nat.sub_self, List.getElem?_cons_zero]

theorem sysmodules_logs (c : ℕ → Sys) (fmt : String) (env : Env) (is : List ℕ) (w : World) :
    ∃ es, (is.foldl (fun w i =>
        if (sys env (c i) w).value ≠ 0 then logLn fmt (sys env (c i) w).world
        else (sys env (c i) w).world) w).trace = w.trace ++ es ∧
      ((∀ e ∈ es, ¬ IsLog e) ↔ ∀ i < is.length, env.code (w.now + i) = 0) ∧
      ((∀ e ∈ es, ¬ IsLog e) → es.length = is.length) := by
  induction is generalizing w with
  | nil => exact ⟨[], by simp, by simp, by simp⟩
  | cons i is ih =>
    have hsys : (sys env (c i) w).world.trace = w.trace ++ [.sys (c i) (env.code w.now)] := rfl
    have hnow : (sys env (c i) w).world.now = w.now + 1 := World.emit_now w _
    rw [List.foldl_cons]
    by_cases h0 : (sys env (c i) w).value = 0
    · obtain ⟨es, hes, hlogs, hlen⟩ := ih (sys env (c i) w).world
      rw [if_neg (not_not_intro h0)]
      refine ⟨.sys (c i) (env.code w.now) :: es,
        by rw [hes, hsys, List.append_assoc, List.singleton_append], ?_, ?_⟩
      · rw [List.forall_mem_cons, and_iff_right (show ¬ IsLog (.sys ..) from not_false), hlogs,
          hnow, List.length_cons, Nat.forall_lt_succ_left]
        simp only [Nat.add_zero, Nat.add_right_comm w.now 1, ← Nat.add_assoc]
        exact (and_iff_right h0).symm
      · intro h
        rw [List.length_cons, List.length_cons, hlen (List.forall_mem_cons.mp h).2]
    · obtain ⟨es, hes, -, -⟩ := ih (logLn fmt (sys env (c i) w).world)
      have hlog : ¬ ∀ e ∈ .sys (c i) (env.code w.now) :: .log w.logFP (.format fmt) :: es,
          ¬ IsLog e := fun h => h (.log w.logFP (.format fmt)) (by simp) trivial
      rw [if_pos h0]
      refine ⟨_, ?_, iff_of_false hlog fun h => h0 (h 0 (Nat.succ_pos _)),
        fun h => absurd h hlog⟩
      rw [hes, logLn, writeLine_trace, hsys, List.append_assoc, List.append_assoc]
      rfl

section Run
variable (S : Setting) (launchArgs : Option PatchworkLaunchArgs) (w : World)

theorem loaded_logs : ∃ es, (loaded S launchArgs w).trace = w.trace ++ es ∧
    ((∀ e ∈ es, ¬ IsLog e) ↔ launchArgs = none ∧ ∀ i < 3, S.env.code (w.now + i) = 0) ∧
    ((∀ e ∈ es, ¬ IsLog e) → es.length = 3) := by
  cases launchArgs with
  | none =>
    obtain ⟨es, hes, hlogs, hlen⟩ := sysmodules_logs .loadSysmodule
      "Failed to load module of id: %d" S.env (List.range 3) w
    exact ⟨es, hes, hlogs.trans (and_iff_right rfl).symm, hlen⟩
  | some args =>
    obtain ⟨es, hes, -, -⟩ := sysmodules_logs .loadSysmodule
      "Failed to load module of id: %d" S.env (List.range 3)
      (infoDialog ("Patchwork has been updated to version " ++ S.major ++ "." ++ S.minor)
        (logLn "PRX was reloaded from PRX ID: %d" w))
    have hlog : ¬ ∀ e ∈ .log w.logFP (.format "PRX was reloaded from PRX ID: %d") ::
        .dialog ("Patchwork has been updated to version " ++ S.major ++ "." ++ S.minor) :: es,
        ¬ IsLog e := fun h => h _ List.mem_cons_self trivial
    refine ⟨_, ?_, iff_of_false hlog fun h => Option.some_ne_none args h.1, fun h => absurd h hlog⟩
    refine Eq.trans hes ?_
    rw [infoDialog, logLn, World.emit_trace, writeLine_trace, List.append_assoc,
      List.append_assoc]
    rfl

theorem launch_opens : ∃ r : Option ℕ, (launch S launchArgs w).trace =
      (loaded S launchArgs w).trace ++ [.opened defaultLogPath .wronlyCreatTrunc r] ∧
    (r.isSome ↔ S.env.opens (loaded S launchArgs w).now = true) := by
  rw [launch_eq, initLogger]
  by_cases h : Opens S.env defaultLogPath .wronlyCreatTrunc (loaded S launchArgs w)
  · rw [cellFsOpen_pos S.env h]
    exact ⟨_, rfl, iff_of_true rfl h.1⟩
  · rw [cellFsOpen_neg S.env h]
    exact ⟨none, rfl, iff_of_false Bool.false_ne_true fun ho => h ⟨ho, nofun⟩⟩

theorem readConfig_logs : Logs w (readConfig S w).world := by
  have hread := readFile_emits S.env mainConfigPath S.frame.tomlBuf 312 w
  have hlogs {fmt : String} {v : World} (h : Emits IsLocal w v) : Logs w (logLn fmt v) := by
    obtain ⟨es, hes, -⟩ := h
    refine ⟨es ++ [.log v.logFP (.format fmt)], ?_, .log v.logFP (.format fmt), by simp, trivial⟩
    rw [logLn, writeLine_trace, hes, List.append_assoc]
  unfold readConfig
  dsimp only
  split
  · exact (hlogs (hread.trans (.of_eq rfl))).append (P := IsLocal) (.one (by trivial) rfl)
  · exact (hlogs hread).append (P := IsLocal) (.one (by trivial) rfl)

theorem configure_logs : ∃ r, configure S launchArgs (launch S launchArgs w) = some r ∧
    Logs (launch S launchArgs w) r.world := by
  have hread : Logs (launch S launchArgs w) (config S launchArgs w).world := readConfig_logs S _
  cases hc : (config S launchArgs w).value with
  | none => exact ⟨_, configure_unread hc, hread⟩
  | some options =>
    by_cases hup : Updates launchArgs options
    · obtain ⟨t, ht, hemits⟩ := tryUpdateAndInstall_emits S.env S.locals options.updateServerUrl
        (config S launchArgs w).world
      have htried : Logs (launch S launchArgs w) t.world :=
        (hread.append (Quiet.sys S.env _).emits).append hemits
      refine ⟨_, configure_tried hc hup ht, ?_⟩
      split
      · have hmark : Logs (launch S launchArgs w) (t.world.emit
            (.restart (t.world.file downloadPath) (t.world.file installPath))) :=
          htried.append (P := fun _ => True) (.one trivial rfl)
        exact hmark.append (tryRestartModule_emits S.env t.world)
      · exact htried
    · exact ⟨_, configure_disabled hc hup, hread⟩

theorem worked_logs {v : World} (h : worked S launchArgs w = some v) :
    Logs (launch S launchArgs w) v := by
  obtain ⟨r, hr, hlogs⟩ := configure_logs S launchArgs w
  obtain ⟨r', hr', hpatch⟩ := Option.bind_eq_some_iff.mp h
  obtain rfl : r = r' := Option.some.inj (hr.symm.trans hr')
  exact hlogs.append (patchGame_emits S r.value hpatch)

theorem loggedWhileOpen_iff {v w' : World} {c : List Event} (hv : Logs (launch S launchArgs w) v)
    (hc : w'.trace = v.trace ++ c) :
    LoggedWhileOpen ((loaded S launchArgs w).now - w.now) (v.now - w.now) w w' ↔
      Prepared S launchArgs w ∧ ∀ e ∈ c, ¬ IsLog e := by
  obtain ⟨a, ha, hfree, hlen⟩ := loaded_logs S launchArgs w
  obtain ⟨r, hr, hopens⟩ := launch_opens S launchArgs w
  obtain ⟨b, hb, e, he, hlog⟩ := hv
  have hclose : v.trace = w.trace ++ (a ++ .opened defaultLogPath .wronlyCreatTrunc r :: b) := by
    rw [hb, hr, ha]
    simp
  have hcalls : calls w w' = a ++ .opened defaultLogPath .wronlyCreatTrunc r :: (b ++ c) :=
    calls_eq (by rw [hc, hclose]; simp)
  have hopening : (loaded S launchArgs w).now - w.now = a.length := now_sub ha
  have hclosing : v.now - w.now = a.length + 1 + b.length := by
    rw [now_sub hclose, List.length_append, List.length_cons]
    omega
  have hwindow : Within IsLog (calls w w') a.length (a.length + 1 + b.length) ↔
      (∀ e ∈ a, ¬ IsLog e) ∧ ∀ e ∈ c, ¬ IsLog e := hcalls ▸ within_iff not_false
  have hopen : (calls w w')[a.length]? = some (.opened defaultLogPath .wronlyCreatTrunc r) := by
    rw [hcalls, List.getElem?_append_right (Nat.le_refl _), Nat.sub_self, List.getElem?_cons_zero]
  have hnow (h : ∀ e ∈ a, ¬ IsLog e) : (loaded S launchArgs w).now = w.now + 3 := by
    rw [World.now, ha, List.length_append, hlen h, World.now]
  rw [hopening, hclosing]
  constructor
  · intro h
    obtain ⟨hbefore, hafter⟩ := hwindow.mp h.window
    obtain ⟨hfresh, hloads⟩ := hfree.mp hbefore
    obtain ⟨fd, hfd⟩ := h.opened ⟨e, by simp [hcalls, he], hlog⟩
    obtain rfl : r = some fd := by simpa [hopen] using hfd
    exact ⟨⟨hfresh, hloads, hnow hbefore ▸ hopens.mp rfl⟩, hafter⟩
  · rintro ⟨hprepared, hafter⟩
    have hbefore := hfree.mpr ⟨hprepared.fresh, hprepared.loads⟩
    obtain ⟨fd, rfl⟩ := Option.isSome_iff_exists.mp
      (hopens.mpr ((hnow hbefore).symm ▸ hprepared.opens))
    exact ⟨hwindow.mpr ⟨hbefore, hafter⟩, fun _ => ⟨fd, hopen⟩⟩

theorem unload_logs (v : World) : ∃ es,
    (unloadAllModules S.env (destroyLogger v)).trace = v.trace ++ .closed v.logFP :: es ∧
      ((∀ e ∈ es, ¬ IsLog e) ↔ ∀ i < 3, S.env.code (v.now + 1 + i) = 0) := by
  obtain ⟨es, hes, hlogs, -⟩ := sysmodules_logs .unloadSysmodule
    "Failed to unload module of id: %d" S.env (List.range 3) (destroyLogger v)
  have hnow : (destroyLogger v).now = v.now + 1 := by
    simp [destroyLogger, cellFsClose, World.now]
  have hclose : (destroyLogger v).trace = v.trace ++ [.closed v.logFP] := rfl
  refine ⟨es, hes.trans ?_, hnow ▸ hlogs⟩
  rw [hclose, List.append_assoc, List.singleton_append]

/-- In every run, at the end of its update phase and at its own, the log is written only
within its window exactly if the run was started without arguments, the log could be opened,
and no system module failed to load or to unload. -/
theorem start_loggedWhileOpen_iff (args : ℕ) (argp : Option PatchworkLaunchArgs) :
    (∃ r, configure S (if args > 0 then argp else none)
        (launch S (if args > 0 then argp else none) w) = some r ∧
      (LoggedWhileOpen ((loaded S (if args > 0 then argp else none) w).now - w.now)
          (r.world.now - w.now) w r.world ↔
        Prepared S (if args > 0 then argp else none) w)) ∧
    ∀ w', start S args argp w = some w' →
      ∃ v, worked S (if args > 0 then argp else none) w = some v ∧
        (calls w w')[v.now - w.now]? = some (.closed v.logFP) ∧
        (LoggedWhileOpen ((loaded S (if args > 0 then argp else none) w).now - w.now)
            (v.now - w.now) w w' ↔
          Prepared S (if args > 0 then argp else none) w ∧
            ∀ i < 3, S.env.code (v.now + 1 + i) = 0) := by
  constructor
  · obtain ⟨r, hr, hlogs⟩ := configure_logs S (if args > 0 then argp else none) w
    have hiff := loggedWhileOpen_iff S _ w hlogs (c := []) (List.append_nil _).symm
    exact ⟨r, hr, hiff.trans (and_iff_left (by simp))⟩
  · intro w' h
    rw [start_eq] at h
    obtain ⟨v, hv, rfl⟩ := Option.map_eq_some_iff.mp h
    obtain ⟨es, hes, hunloads⟩ := unload_logs S v
    have hlogs := worked_logs S _ w hv
    refine ⟨v, hv, ?_, ?_⟩
    · exact calls_getElem? (((launch_emits S _ w).mono fun _ _ => trivial).trans hlogs.emits) hes
    · rw [loggedWhileOpen_iff S _ w hlogs hes, List.forall_mem_cons, ← hunloads,
        and_iff_right (show ¬ IsLog (.closed v.logFP) from not_false)]

end Run

theorem start_loggedWhileOpen_iff_loaded : ∃ w' v : World,
    start updatingSetting 0 none configuredWorld = some w' ∧
      LoggedWhileOpen ((loaded updatingSetting none configuredWorld).now - configuredWorld.now)
        (v.now - configuredWorld.now) configuredWorld w' := by
  have hsome : (start updatingSetting 0 none configuredWorld).isSome := by decide +kernel
  obtain ⟨w', hw⟩ := Option.isSome_iff_exists.mp hsome
  obtain ⟨v, -, -, hiff⟩ :=
    (start_loggedWhileOpen_iff updatingSetting configuredWorld 0 none).2 w' hw
  exact ⟨w', v, hw, hiff.mpr ⟨⟨rfl, fun _ _ => rfl, rfl⟩, fun _ _ => rfl⟩⟩

-- A module that was started by its predecessor.
theorem start_logs_early : ¬ ∀ (S : Setting) (args : ℕ) (argp : Option PatchworkLaunchArgs)
    (w w' v : World), start S args argp w = some w' →
    worked S (if args > 0 then argp else none) w = some v →
    LoggedWhileOpen ((loaded S (if args > 0 then argp else none) w).now - w.now)
      (v.now - w.now) w w' := by
  intro h
  have hsome : (start updatingSetting 1 (some ⟨0, 1⟩) configuredWorld).isSome := by decide +kernel
  obtain ⟨w', hw⟩ := Option.isSome_iff_exists.mp hsome
  have hrun := hw
  rw [start_eq] at hrun
  obtain ⟨v, hv, rfl⟩ := Option.map_eq_some_iff.mp hrun
  obtain ⟨es, hes, -⟩ := unload_logs updatingSetting v
  have hiff := loggedWhileOpen_iff updatingSetting _ configuredWorld (worked_logs _ _ _ hv) hes
  exact Option.some_ne_none _ (hiff.mp (h _ _ _ _ _ v hw hv)).1.fresh

end Patchwork.LogWindow
