import Patchwork.Delivery

/-!
# The installed module over many starts

The module's file is all that one start hands to the next. Configuration, server, memory
and the rest of the disc may be others each time.
-/

namespace Patchwork.Boots
open Console Update Prx Restart Footprint Delivery

/-- The bytes of the module's file, and the lines of a log that went into it. -/
structure ModuleFile where
  content : Option (List UInt8)
  lines : List Line

def moduleFile (v : Shared) : ModuleFile := ⟨v.file installPath, v.logged installPath⟩

/-- A run of `start` to its end, in a module that the loader has just brought in. -/
structure Boot where
  setting : Setting
  args : ℕ
  argp : Option PatchworkLaunchArgs
  before : World
  after : World
  self : StartsItself setting.env
  hex : ReadsHex setting.env
  unlogged : Unlogged before
  runs : start setting args argp before = some after

namespace Boot
variable (b : Boot)

def launchArgs : Option PatchworkLaunchArgs := if b.args > 0 then b.argp else none

def config : Called (Option PatchworkConfigOptions) :=
  Restart.config b.setting b.launchArgs b.before

structure Looks (options : PatchworkConfigOptions) : Prop where
  read : b.config.value = some options
  updates : Updates b.launchArgs options

/-- A server that the run reaches offers it a body with its hash. -/
def Offered (body : List UInt8) : Prop := ∃ options, b.Looks options ∧
  Delivery.Offered b.setting.env b.setting.locals options.updateServerUrl b.config.world body

def Undisturbed : Prop := ∀ options, b.Looks options →
  Delivery.Undisturbed b.setting.env b.setting.locals options.updateServerUrl b.config.world

def Hashed : Prop := ∀ options, b.Looks options →
  Delivery.Hashed b.setting.env b.setting.locals options.updateServerUrl b.config.world

def Installs : Prop := ∀ options, b.Looks options →
  Delivery.Installs b.setting.env b.setting.locals options.updateServerUrl b.config.world

def found : ModuleFile := moduleFile b.before.toShared
def left : ModuleFile := moduleFile b.after.toShared

variable {b}

theorem left_lines (clean : b.found.lines = []) : b.left.lines = [] :=
  start_clean b.self b.unlogged clean b.runs

theorem left_cases (whole : b.Undisturbed) (hashed : b.Hashed) :
    b.left.content = b.found.content ∨ ∃ body installed, b.Offered body ∧
      b.left.content = some installed ∧ installed <+: body := by
  by_cases hlooks : ∃ options, b.Looks options
  · obtain ⟨options, looks⟩ := hlooks
    obtain hsame | ⟨body, installed, hoffered, hinstalled⟩ :=
      (start_looked b.self b.hex looks.read looks.updates (whole options looks) b.runs).1
        (hashed options looks)
    · exact .inl hsame
    · exact .inr ⟨body, installed, ⟨options, looks, hoffered⟩, hinstalled⟩
  · refine .inl (start_skipped (fun options hread hupdates => ?_) b.runs)
    exact hlooks ⟨options, hread, hupdates⟩

theorem left_offered {body : List UInt8} (whole : b.Undisturbed) (installs : b.Installs)
    (offered : b.Offered body) : b.left.content = some body := by
  obtain ⟨options, looks, hoffered⟩ := offered
  exact (start_looked b.self b.hex looks.read looks.updates (whole options looks) b.runs).2 body
    hoffered (installs options looks)

end Boot

/-- Runs of `start`, each of which finds the module's file as the one before left it. -/
inductive History : ModuleFile → List Boot → ModuleFile → Prop
  | none (m : ModuleFile) : History m [] m
  | next {b : Boot} {bs : List Boot} {m : ModuleFile} (rest : History b.left bs m) :
    History b.found (b :: bs) m

section Runs
variable {bs : List Boot} {m m' : ModuleFile}

theorem history_lines (h : History m bs m') (clean : m.lines = []) : m'.lines = [] := by
  induction h with
  | none => exact clean
  | next _ ih => exact ih (Boot.left_lines clean)

theorem history_content (h : History m bs m') (whole : ∀ b ∈ bs, b.Undisturbed)
    (hashed : ∀ b ∈ bs, b.Hashed) : m'.content = m.content ∨ ∃ b ∈ bs, ∃ body installed,
      b.Offered body ∧ m'.content = some installed ∧ installed <+: body := by
  induction h with
  | none m => exact .inl rfl
  | @next b bs m' rest ih =>
    obtain hkept | ⟨b', hb', hinstalled⟩ :=
      ih (fun b' hb' => whole b' (List.mem_cons_of_mem _ hb'))
        (fun b' hb' => hashed b' (List.mem_cons_of_mem _ hb'))
    · rw [hkept]
      obtain hsame | hinstalled :=
        Boot.left_cases (whole b List.mem_cons_self) (hashed b List.mem_cons_self)
      · exact .inl hsame
      · exact .inr ⟨b, List.mem_cons_self, hinstalled⟩
    · exact .inr ⟨b', List.mem_cons_of_mem _ hb', hinstalled⟩

theorem history_last (h : History m bs m') (whole : ∀ b ∈ bs, b.Undisturbed)
    (hashed : ∀ b ∈ bs, b.Hashed)
    (installs : ∀ b ∈ bs, ∀ body, b.Offered body → b.Installs) :
    (m'.content = m.content ∧ ∀ b ∈ bs, ∀ body, ¬ b.Offered body) ∨
      ∃ earlier b later body, bs = earlier ++ b :: later ∧ b.Offered body ∧
        (∀ b' ∈ later, ∀ body', ¬ b'.Offered body') ∧ m'.content = some body := by
  induction h with
  | none m => exact .inl ⟨rfl, by simp⟩
  | @next b bs m' rest ih =>
    obtain ⟨hkept, hnone⟩ | ⟨earlier, b', later, body, rfl, hoffered, hnone, hm⟩ :=
      ih (fun b' hb' => whole b' (List.mem_cons_of_mem _ hb'))
        (fun b' hb' => hashed b' (List.mem_cons_of_mem _ hb'))
        (fun b' hb' => installs b' (List.mem_cons_of_mem _ hb'))
    · have hwhole := whole b List.mem_cons_self
      by_cases hoffered : ∃ body, b.Offered body
      · obtain ⟨body, hoffered⟩ := hoffered
        have hleft :=
          Boot.left_offered hwhole (installs b List.mem_cons_self body hoffered) hoffered
        exact .inr ⟨[], b, bs, body, rfl, hoffered, hnone, hkept.trans hleft⟩
      · have hunoffered := not_exists.mp hoffered
        obtain hsame | ⟨body, -, hbody, -⟩ :=
          Boot.left_cases hwhole (hashed b List.mem_cons_self)
        · refine .inl ⟨hkept.trans hsame, fun b' hb' => ?_⟩
          obtain rfl | hb' := List.mem_cons.mp hb'
          · exact hunoffered
          · exact hnone b' hb'
        · exact absurd hbody (hunoffered body)
    · exact .inr ⟨b :: earlier, b', later, body, rfl, hoffered, hnone, hm⟩

/-- If no transfer is cut short and every body comes with a hash, the module's file is the first
one or the beginning of a body that some run was offered, and no log goes into it. -/
theorem history_installs (h : History m bs m') (clean : m.lines = [])
    (whole : ∀ b ∈ bs, b.Undisturbed) (hashed : ∀ b ∈ bs, b.Hashed) : m'.lines = [] ∧
    (m'.content = m.content ∨ ∃ b ∈ bs, ∃ body installed,
      b.Offered body ∧ m'.content = some installed ∧ installed <+: body) :=
  ⟨history_lines h clean, history_content h whole hashed⟩

/-- And if no copy of an offered body fails, it is the last body that was offered. -/
theorem history_delivers (h : History m bs m') (clean : m.lines = [])
    (whole : ∀ b ∈ bs, b.Undisturbed) (hashed : ∀ b ∈ bs, b.Hashed)
    (installs : ∀ b ∈ bs, ∀ body, b.Offered body → b.Installs) : m'.lines = [] ∧
    ((m'.content = m.content ∧ ∀ b ∈ bs, ∀ body, ¬ b.Offered body) ∨
      ∃ earlier b later body, bs = earlier ++ b :: later ∧ b.Offered body ∧
        (∀ b' ∈ later, ∀ body', ¬ b'.Offered body') ∧ m'.content = some body) :=
  ⟨history_lines h clean, history_last h whole hashed installs⟩

end Runs

-- A run that is offered an empty body, and a start by the loader, which looks for none.
def emptyBoot : Boot :=
  ⟨emptySetting, 1, some ⟨0, 0⟩, configuredWorld,
    (start emptySetting 1 (some ⟨0, 0⟩) configuredWorld).get empty_runs,
    startsItself_started rfl, empty_readsHex, ⟨rfl, le_rfl⟩, (Option.some_get _).symm⟩

def loaderWorld : World := { configuredWorld with toShared := emptyBoot.after.toShared }

theorem loader_runs : (start emptySetting 0 none loaderWorld).isSome := by decide +kernel

def loaderBoot : Boot :=
  ⟨emptySetting, 0, none, loaderWorld,
    (start emptySetting 0 none loaderWorld).get loader_runs,
    startsItself_started rfl, empty_readsHex, ⟨rfl, le_rfl⟩, (Option.some_get _).symm⟩

theorem loaderBoot_not_looks (options : PatchworkConfigOptions) : ¬ loaderBoot.Looks options :=
  fun h => absurd h.updates.1 (by decide)

theorem emptyBoot_looks {options : PatchworkConfigOptions} (h : emptyBoot.Looks options) :
    options = ⟨0, 0, 0, 0, 1, 1⟩ := Option.some.inj (h.read.symm.trans empty_read)

theorem boots_history :
    History (moduleFile configuredWorld.toShared) [emptyBoot, loaderBoot] loaderBoot.left :=
  .next (b := emptyBoot) (.next (b := loaderBoot) (.none _))

theorem boots_undisturbed : ∀ b ∈ [emptyBoot, loaderBoot], b.Undisturbed := by
  intro b hb options looks
  obtain rfl | rfl : b = emptyBoot ∨ b = loaderBoot := by simpa using hb
  · obtain rfl := emptyBoot_looks looks
    exact empty_undisturbed
  · exact absurd looks (loaderBoot_not_looks options)

theorem boots_hashed : ∀ b ∈ [emptyBoot, loaderBoot], b.Hashed := by
  intro b hb options looks
  obtain rfl | rfl : b = emptyBoot ∨ b = loaderBoot := by simpa using hb
  · obtain rfl := emptyBoot_looks looks
    exact empty_hashed
  · exact absurd looks (loaderBoot_not_looks options)

theorem history_installs_twice : loaderBoot.left.lines = [] ∧
    (loaderBoot.left.content = configuredWorld.file installPath ∨
    ∃ b ∈ [emptyBoot, loaderBoot], ∃ body installed, b.Offered body ∧
      loaderBoot.left.content = some installed ∧ installed <+: body) :=
  history_installs boots_history rfl boots_undisturbed boots_hashed

theorem history_delivers_twice : loaderBoot.left.lines = [] ∧
    ((loaderBoot.left.content = configuredWorld.file installPath ∧
      ∀ b ∈ [emptyBoot, loaderBoot], ∀ body, ¬ b.Offered body) ∨
    ∃ earlier b later body, [emptyBoot, loaderBoot] = earlier ++ b :: later ∧ b.Offered body ∧
      (∀ b' ∈ later, ∀ body', ¬ b'.Offered body') ∧ loaderBoot.left.content = some body) := by
  refine history_delivers boots_history rfl boots_undisturbed boots_hashed
    fun b hb body offered options looks => ?_
  obtain rfl | rfl : b = emptyBoot ∨ b = loaderBoot := by simpa using hb
  · obtain rfl := emptyBoot_looks looks
    exact empty_installs
  · exact absurd looks (loaderBoot_not_looks options)

end Patchwork.Boots
