import Patchwork.Footprint

/-!
# What a run installs

From the server's answer to the module's file at the end of the run. Where the
transfer is not cut short and the answer has a hash header, nothing is installed
that the header does not vouch for, and what it vouches for is installed unless the
copy fails.
-/

namespace Patchwork.Delivery
open Console Fs Http Update Util Prx Restart LogWindow Footprint

section Update
variable (env : Env) (locals : Locals) (pool poolSize serverUrl : ℕ) (w : World)

/-- The server answers with this body, and the hash header that was fetched spells its hash. -/
structure Vouched (body : List UInt8) : Prop where
  answered : Answered env locals pool poolSize serverUrl w 200
  header : HeaderFetched env locals pool poolSize serverUrl w
  response : responseBody w.incoming = some body
  spells : Spells env.header (env.sha256 body)

def Unbroken : Prop :=
  Answered env locals pool poolSize serverUrl w 200 → Downloads env locals pool poolSize serverUrl w

/-- Without it, what the stack held would be compared with the hash of the body. -/
def Headed : Prop := Answered env locals pool poolSize serverUrl w 200 →
  HeaderFetched env locals pool poolSize serverUrl w ∧ IsHex env.header

variable {env locals pool poolSize serverUrl w}

theorem Vouched.agrees {body : List UInt8} (hex : ReadsHex env)
    (h : Vouched env locals pool poolSize serverUrl w body) :
    Matches env (fetched env locals pool poolSize serverUrl w).value.value (env.sha256 body) := by
  rw [h.header.value]
  exact ((spells_iff env hex _ _).mp h.spells).2

theorem downloadUpdate_vouched (hex : ReadsHex env)
    (whole : Unbroken env locals pool poolSize serverUrl w) :
    ∃ d, downloadUpdate env locals pool poolSize serverUrl w = some d ∧
      (Headed env locals pool poolSize serverUrl w → d.value = 1 →
        ∃ body, Vouched env locals pool poolSize serverUrl w body) ∧
      ∀ body, Vouched env locals pool poolSize serverUrl w body →
        d.value = 1 ∧ d.world.file downloadPath = some body := by
  obtain ⟨d, hd, hcase, -⟩ := downloadUpdate_cases env locals pool poolSize serverUrl w
  refine ⟨d, hd, ?_⟩
  have hunanswered (no : ¬ Answered env locals pool poolSize serverUrl w 200) (body : List UInt8) :
      ¬ Vouched env locals pool poolSize serverUrl w body := fun h => no h.answered
  cases hcase with
  | refused no quiet =>
    have hnot := hunanswered fun h => h.room no
    exact ⟨fun _ (h1 : (2 : ℤ) = 1) => absurd h1 (by decide),
      fun body h => absurd h (hnot body)⟩
  | unsent room err quiet =>
    have hnot := hunanswered fun h => h.sent err
    exact ⟨fun _ (h1 : (2 : ℤ) = 1) => absurd h1 (by decide),
      fun body h => absurd h (hnot body)⟩
  | @other w' status answered not200 quiet =>
    have hnot := hunanswered fun h => not200 (answered.unique h)
    have herr : (fetched env locals pool poolSize serverUrl w).value.err = 0 ∨
      (fetched env locals pool poolSize serverUrl w).value.err = 2 := fetchHeader_err ..
    refine ⟨fun _ h1 => ?_, fun body h => absurd h (hnot body)⟩
    dsimp only at h1
    split_ifs at h1 <;> omega
  | @compared w' r answered download file =>
    have hdownloads := whole answered
    have hincoming := (fetched_quiet env locals pool poolSize serverUrl w).incoming
    cases download with
    | unopened no same =>
      have hopens := hdownloads.opens
      rw [no] at hopens
      cases hopens
    | broken opens never short => exact absurd hdownloads.stores never
    | @complete w₁ body completes response stored =>
      rw [hincoming] at response
      refine ⟨fun headed h1 => ?_, fun body' h => ?_⟩
      · obtain ⟨header, isHex⟩ := headed answered
        have hmatches : Matches env (fetched env locals pool poolSize serverUrl w).value.value
            (env.sha256 body) := by
          by_contra hm
          exact absurd (h1.symm.trans (if_neg hm)) (by decide)
        rw [header.value] at hmatches
        exact ⟨body, answered, header, response, (spells_iff env hex _ _).mpr ⟨isHex, hmatches⟩⟩
      · obtain rfl : body' = body := Option.some.inj (h.response.symm.trans response)
        exact ⟨if_pos (h.agrees hex), (congrFun file _).trans stored⟩

end Update

section Install
variable (env : Env) (locals : Locals) (serverUrl : ℕ) (w : World)

/-- `TryUpdateAndInstall` makes its request only if `sys_net_initialize_network` does not
return 0. -/
structure Offered (body : List UInt8) : Prop where
  connects : (network env w).value ≠ 0
  vouched : Vouched env locals (httpPool env w).value 65536 serverUrl (httpPool env w).world body

def Undisturbed : Prop := (network env w).value ≠ 0 →
  Unbroken env locals (httpPool env w).value 65536 serverUrl (httpPool env w).world

def Hashed : Prop := (network env w).value ≠ 0 →
  Headed env locals (httpPool env w).value 65536 serverUrl (httpPool env w).world

def Installs : Prop := ∀ d, downloadUpdate env locals (httpPool env w).value 65536 serverUrl
  (httpPool env w).world = some d → CopiesWhole env (released env (httpPool env w).value d)

variable {env locals serverUrl w}

variable (env) in
theorem installUpdate_copied {body : List UInt8} (hbody : w.file downloadPath = some body) :
    ∃ c, installUpdate env installPath w = some c ∧
      (c.world.file installPath = w.file installPath ∨
        ∃ installed, c.world.file installPath = some installed ∧ installed <+: body) ∧
      (CopiesWhole env w → c.world.file installPath = some body) := by
  obtain ⟨c, hc, hcase⟩ := copyFile_cases env (show downloadPath ≠ installPath by decide) w
  refine ⟨c, hc, ?_⟩
  have hcontent {content : List UInt8} (h : w.file downloadPath = some content) : content = body :=
    Option.some.inj (h.symm.trans hbody)
  cases hcase with
  | unopened no file => exact ⟨.inl (congrFun file _), fun h => absurd h.opens no⟩
  | @failed w' content k opens source copied emits never =>
    obtain rfl := hcontent source
    refine ⟨.inr ⟨_, copied.target, List.take_prefix _ _⟩, fun h => ?_⟩
    obtain ⟨content', source', hcopies⟩ := h.copies
    obtain rfl := hcontent source'
    exact absurd hcopies never
  | @finished w₁ w' content k opens source copied emits closes whole =>
    obtain rfl := hcontent source
    refine ⟨.inr ⟨_, copied.target, List.take_prefix _ _⟩, fun h => ?_⟩
    obtain ⟨content', source', hcopies⟩ := h.copies
    obtain rfl := hcontent source'
    exact whole.mpr hcopies

theorem tryUpdateAndInstall_installs (hex : ReadsHex env)
    (whole : Undisturbed env locals serverUrl w) :
    ∃ t, tryUpdateAndInstall env locals serverUrl w = some t ∧
      (Hashed env locals serverUrl w → t.world.file installPath = w.file installPath ∨
        ∃ body installed, Offered env locals serverUrl w body ∧
          t.world.file installPath = some installed ∧ installed <+: body) ∧
      ∀ body, Offered env locals serverUrl w body → Installs env locals serverUrl w →
        t.world.file installPath = some body := by
  by_cases hnet : (network env w).value = 0
  · exact ⟨_, if_pos hnet, fun _ => .inl rfl, fun body h => absurd hnet h.connects⟩
  · obtain ⟨d, hd, hone, hstored⟩ := downloadUpdate_vouched hex (whole hnet)
    have hleaves : Leaves {downloadPath} ∅ _ (httpPool env w).world d.world :=
      downloadUpdate_leaves env locals (Set.mem_singleton downloadPath) hd
    have hkept : d.world.file installPath = w.file installPath :=
      hleaves.file installPath (by simp [downloadPath, installPath])
    by_cases h1 : d.value = 1
    · obtain ⟨c, hc, -⟩ := copyFile_cases env (show downloadPath ≠ installPath by decide)
        (released env (httpPool env w).value d)
      have hrun : tryUpdateAndInstall env locals serverUrl w =
          some ⟨1, logLn "No patchwork update available" c.world⟩ :=
        (if_neg hnet).trans (Option.bind_eq_some_iff.mpr ⟨d, hd, (if_pos h1).trans
          (Option.bind_eq_some_iff.mpr ⟨c, hc, rfl⟩)⟩)
      refine ⟨_, hrun, fun hashed => ?_, fun body h installs => ?_⟩
      · obtain ⟨body, hvouched⟩ := hone (hashed hnet) h1
        obtain ⟨c', hc', hprefix, -⟩ := installUpdate_copied env
          (w := released env (httpPool env w).value d) (hstored body hvouched).2
        obtain rfl := Option.some.inj (hc.symm.trans hc')
        obtain hsame | ⟨installed, hinstalled, hle⟩ := hprefix
        · exact .inl (hsame.trans hkept)
        · exact .inr ⟨body, installed, ⟨hnet, hvouched⟩, hinstalled, hle⟩
      · obtain ⟨c', hc', -, hwhole⟩ := installUpdate_copied env
          (w := released env (httpPool env w).value d) (hstored body h.vouched).2
        obtain rfl := Option.some.inj (hc.symm.trans hc')
        exact hwhole (installs d hd)
    · have hnot (body : List UInt8) : ¬ Offered env locals serverUrl w body :=
        fun h => h1 (hstored body h.vouched).1
      by_cases h2 : d.value = 2
      · exact ⟨_, (if_neg hnet).trans (Option.bind_eq_some_iff.mpr
          ⟨d, hd, (if_neg h1).trans (if_pos h2)⟩), fun _ => .inl hkept,
          fun body h => absurd h (hnot body)⟩
      · exact ⟨_, (if_neg hnet).trans (Option.bind_eq_some_iff.mpr
          ⟨d, hd, (if_neg h1).trans (if_neg h2)⟩), fun _ => .inl hkept,
          fun body h => absurd h (hnot body)⟩

end Install

section Run
variable {S : Setting} {args : ℕ} {argp : Option PatchworkLaunchArgs} {w w' : World}

theorem install_kept : installPath ∉ messages := by
  simp [messages, installPath, defaultLogPath, wmRequestPath]

theorem start_install {r : Called PatchworkConfigOptions}
    (hr : configure S (if args > 0 then argp else none)
      (launch S (if args > 0 then argp else none) w) = some r)
    (h : start S args argp w = some w') :
    w'.file installPath = r.world.file installPath := by
  rw [start_eq] at h
  obtain ⟨v, hv, rfl⟩ := Option.map_eq_some_iff.mp h
  obtain ⟨r', hr', hpatch⟩ := Option.bind_eq_some_iff.mp hv
  obtain rfl : r = r' := Option.some.inj (hr.symm.trans hr')
  have hpatched : Leaves messages ∅ ∅ r.world v :=
    patchGame_leaves S r.value (by simp [messages]) hpatch
  have hunloaded : Works messages ∅ (destroyLogger v)
      (unloadAllModules S.env (destroyLogger v)) := sysmodules_works ..
  exact (hunloaded.file _ install_kept).trans (hpatched.file _ install_kept)

theorem config_install (launchArgs : Option PatchworkLaunchArgs) :
    (config S launchArgs w).world.file installPath = w.file installPath := by
  have hread : Leaves messages ∅ ∅ (launch S launchArgs w) (config S launchArgs w).world :=
    readConfig_leaves S _
  exact (hread.file _ install_kept).trans
    ((launch_opened S subset_rfl (Set.mem_singleton _) launchArgs w).1 _ install_kept)

variable {options : PatchworkConfigOptions} {t : Called ℤ}

theorem start_tried (self : StartsItself S.env)
    (read : (config S (if args > 0 then argp else none) w).value = some options)
    (updates : Updates (if args > 0 then argp else none) options)
    (ht : tryUpdateAndInstall S.env S.locals options.updateServerUrl
      (config S (if args > 0 then argp else none) w).world = some t)
    (h : start S args argp w = some w') :
    w'.file installPath = t.world.file installPath := by
  rw [start_install (configure_tried read updates ht) h]
  split
  · exact (tryRestartModule_leaves self.spares).file _ install_kept
  · rfl

theorem start_skipped
    (skips : ∀ options, (config S (if args > 0 then argp else none) w).value = some options →
      ¬ Updates (if args > 0 then argp else none) options)
    (h : start S args argp w = some w') : w'.file installPath = w.file installPath := by
  cases hc : (config S (if args > 0 then argp else none) w).value with
  | none => exact (start_install (configure_unread hc) h).trans (config_install _)
  | some options =>
    exact (start_install (configure_disabled hc (skips options hc)) h).trans (config_install _)

theorem start_looked (self : StartsItself S.env) (hex : ReadsHex S.env)
    (read : (config S (if args > 0 then argp else none) w).value = some options)
    (updates : Updates (if args > 0 then argp else none) options)
    (whole : Undisturbed S.env S.locals options.updateServerUrl
      (config S (if args > 0 then argp else none) w).world)
    (h : start S args argp w = some w') :
    (Hashed S.env S.locals options.updateServerUrl
        (config S (if args > 0 then argp else none) w).world →
      w'.file installPath = w.file installPath ∨ ∃ body installed,
        Offered S.env S.locals options.updateServerUrl
          (config S (if args > 0 then argp else none) w).world body ∧
        w'.file installPath = some installed ∧ installed <+: body) ∧
      ∀ body, Offered S.env S.locals options.updateServerUrl
          (config S (if args > 0 then argp else none) w).world body →
        Installs S.env S.locals options.updateServerUrl
          (config S (if args > 0 then argp else none) w).world →
        w'.file installPath = some body := by
  obtain ⟨t, ht, hinstalled, hdelivered⟩ := tryUpdateAndInstall_installs hex whole
  rw [start_tried self read updates ht h]
  refine ⟨fun hashed => ?_, hdelivered⟩
  exact (hinstalled hashed).imp_left fun hsame => hsame.trans (config_install _)

theorem start_clean (self : StartsItself S.env) (unlogged : Unlogged w)
    (clean : w.logged installPath = []) (h : start S args argp w = some w') :
    w'.logged installPath = [] := by
  obtain hsame | ⟨-, hnone⟩ := start_lines self unlogged h installPath (by
    simp [installPath, defaultLogPath])
  · exact hsame.trans clean
  · exact hnone

/-- What a run installs is the beginning of a body that the server's header vouches for, if its
transfer is not cut short and an answer with a body has a hash header; and the log stays out of
it. -/
theorem start_installs (self : StartsItself S.env) (hex : ReadsHex S.env)
    (unlogged : Unlogged w) (clean : w.logged installPath = [])
    (whole : ∀ options, (config S (if args > 0 then argp else none) w).value = some options →
      Updates (if args > 0 then argp else none) options →
      Undisturbed S.env S.locals options.updateServerUrl
        (config S (if args > 0 then argp else none) w).world)
    (hashed : ∀ options, (config S (if args > 0 then argp else none) w).value = some options →
      Updates (if args > 0 then argp else none) options →
      Hashed S.env S.locals options.updateServerUrl
        (config S (if args > 0 then argp else none) w).world)
    (h : start S args argp w = some w') : w'.logged installPath = [] ∧
    (w'.file installPath = w.file installPath ∨ ∃ options body installed,
      (config S (if args > 0 then argp else none) w).value = some options ∧
      Updates (if args > 0 then argp else none) options ∧
      Offered S.env S.locals options.updateServerUrl
        (config S (if args > 0 then argp else none) w).world body ∧
      w'.file installPath = some installed ∧ installed <+: body) := by
  refine ⟨start_clean self unlogged clean h, ?_⟩
  by_cases hlooks : ∃ options, (config S (if args > 0 then argp else none) w).value =
      some options ∧ Updates (if args > 0 then argp else none) options
  · obtain ⟨options, hread, hupdates⟩ := hlooks
    obtain hsame | ⟨body, installed, hinstalled⟩ :=
      (start_looked self hex hread hupdates (whole options hread hupdates) h).1
        (hashed options hread hupdates)
    · exact .inl hsame
    · exact .inr ⟨options, body, installed, hread, hupdates, hinstalled⟩
  · exact .inl (start_skipped (fun options hread hupdates => hlooks ⟨options, hread, hupdates⟩) h)

/-- And it is all of that body if the copy meets no failure, whatever happens in the rest of the
run and in the module that is started. -/
theorem start_delivers (self : StartsItself S.env) (hex : ReadsHex S.env)
    (unlogged : Unlogged w) (clean : w.logged installPath = [])
    (read : (config S (if args > 0 then argp else none) w).value = some options)
    (updates : Updates (if args > 0 then argp else none) options)
    (whole : Undisturbed S.env S.locals options.updateServerUrl
      (config S (if args > 0 then argp else none) w).world)
    (installs : Installs S.env S.locals options.updateServerUrl
      (config S (if args > 0 then argp else none) w).world)
    {body : List UInt8} (offered : Offered S.env S.locals options.updateServerUrl
      (config S (if args > 0 then argp else none) w).world body)
    (h : start S args argp w = some w') :
    w'.file installPath = some body ∧ w'.logged installPath = [] :=
  ⟨(start_looked self hex read updates whole h).2 body offered installs,
    start_clean self unlogged clean h⟩

end Run

-- A server that answers with an empty body and its hash.
def emptyHashText : List UInt8 :=
  ascii "e3b0c44298fc1c149afbf4c8996fb92427ae41e4649b934ca495991b7852b855"

def emptySetting : Setting := { updatingSetting with
  env := { updatingSetting.env with
    code := fun _ => 1
    header := fun i => emptyHashText.getD i 0
    startModule := started updatingSetting } }

def emptyConfig : Called (Option PatchworkConfigOptions) :=
  config emptySetting (if 1 > 0 then some ⟨0, 0⟩ else none) configuredWorld

theorem empty_read : emptyConfig.value = some ⟨0, 0, 0, 0, 1, 1⟩ := by rfl

theorem empty_runs : (start emptySetting 1 (some ⟨0, 0⟩) configuredWorld).isSome := by
  decide +kernel

theorem empty_opens (n : ℕ) : emptySetting.env.opens n = true := rfl
theorem empty_reads (n : ℕ) : (emptySetting.env.reads n).ok = true := rfl

theorem empty_readsHex : ReadsHex emptySetting.env := unopenedEnv_readsHex

theorem empty_offered : Offered emptySetting.env emptySetting.locals 1 emptyConfig.world [] where
  connects := by decide +kernel
  vouched := {
    answered := ⟨by decide +kernel, by decide +kernel, by decide +kernel⟩
    header := by
      unfold HeaderFetched
      decide +kernel
    response := by rfl
    spells := by
      unfold Spells
      decide +kernel }

theorem empty_undisturbed :
    Undisturbed emptySetting.env emptySetting.locals 1 emptyConfig.world := by
  intro _ _
  have hincoming := (fetched_quiet emptySetting.env emptySetting.locals
    (httpPool emptySetting.env emptyConfig.world).value 65536 1
    (httpPool emptySetting.env emptyConfig.world).world).incoming
  refine ⟨empty_opens _, ?_⟩
  rw [hincoming]
  exact .exhausted

theorem empty_hashed : Hashed emptySetting.env emptySetting.locals 1 emptyConfig.world := by
  intro _ _
  have hspells := empty_offered.vouched.spells
  exact ⟨empty_offered.vouched.header, ((spells_iff _ empty_readsHex _ _).mp hspells).1⟩

theorem empty_installs : Installs emptySetting.env emptySetting.locals 1 emptyConfig.world := by
  intro d hd
  obtain ⟨d', hd', -, hstored⟩ := downloadUpdate_vouched empty_readsHex
    (empty_undisturbed empty_offered.connects)
  obtain rfl := Option.some.inj (hd.symm.trans hd')
  have hfile := (hstored [] empty_offered.vouched).2
  exact ⟨⟨⟨empty_opens _, fun _ => Option.isSome_iff_exists.mpr ⟨[], hfile⟩⟩, empty_opens _⟩,
    [], hfile, .finish (empty_reads _)⟩

theorem start_installs_empty : ∃ w', start emptySetting 1 (some ⟨0, 0⟩) configuredWorld = some w' ∧
    w'.logged installPath = [] ∧
    (w'.file installPath = configuredWorld.file installPath ∨ ∃ options body installed,
      emptyConfig.value = some options ∧ Updates (if 1 > 0 then some ⟨0, 0⟩ else none) options ∧
      Offered emptySetting.env emptySetting.locals options.updateServerUrl emptyConfig.world body ∧
      w'.file installPath = some installed ∧ installed <+: body) := by
  obtain ⟨w', hw⟩ := Option.isSome_iff_exists.mp empty_runs
  refine ⟨w', hw, start_installs (startsItself_started rfl) empty_readsHex ⟨rfl, le_rfl⟩ rfl
    (fun options hc _ => ?_) (fun options hc _ => ?_) hw⟩
  · obtain rfl := Option.some.inj (empty_read.symm.trans hc)
    exact empty_undisturbed
  · obtain rfl := Option.some.inj (empty_read.symm.trans hc)
    exact empty_hashed

theorem start_delivers_empty : ∃ w', start emptySetting 1 (some ⟨0, 0⟩) configuredWorld = some w' ∧
    w'.file installPath = some [] ∧ w'.logged installPath = [] := by
  obtain ⟨w', hw⟩ := Option.isSome_iff_exists.mp empty_runs
  exact ⟨w', hw, start_delivers (startsItself_started rfl) empty_readsHex ⟨rfl, le_rfl⟩ rfl
    empty_read (by decide) empty_undisturbed empty_installs empty_offered hw⟩

end Patchwork.Delivery
