import Mathlib.Algebra.GroupWithZero.Nat
import Patchwork.Resources
import Patchwork.Restart

/-!
# Chains of launches

The loader starts the module, which may update and start its successor, which is
told so in its arguments. An update is looked for only with arguments that are
there and say that none was made. The loader gives none and a restart says that
one was made, so no module of a chain looks for an update.
-/

namespace Patchwork.Launches
open Console Update Prx Resources Restart

def isUpdate : Event → Bool
  | .sys .initializeNetwork _ => true
  | _ => false

def isRestart : Event → Bool
  | .restart .. => true
  | _ => false

def Occurs (p : Event → Bool) (n : ℕ) (w w' : World) : Prop :=
  ∃ es, w'.trace = w.trace ++ es ∧ es.countP p = n

namespace Occurs
variable {p : Event → Bool} {n k : ℕ} {w w₁ w₂ : World}

theorem trans (h : Occurs p n w w₁) (h' : Occurs p k w₁ w₂) : Occurs p (n + k) w w₂ := by
  obtain ⟨es, he, rfl⟩ := h
  obtain ⟨es', he', rfl⟩ := h'
  exact ⟨es ++ es', by rw [he', he, List.append_assoc], List.countP_append⟩

theorem of_emits {P : Event → Prop} (hp : ∀ e, P e → p e = false) (h : Emits P w w₁) :
    Occurs p 0 w w₁ := by
  obtain ⟨es, he, hP⟩ := h
  exact ⟨es, he, List.countP_eq_zero.mpr fun e hm => by simp [hp e (hP e hm)]⟩

theorem one {e : Event} (h : w₁.trace = w.trace ++ [e]) :
    Occurs p (if p e then 1 else 0) w w₁ :=
  ⟨[e], h, by simp [List.countP_cons]⟩

end Occurs

def Makes (n k : ℕ) (w w' : World) : Prop := Occurs isUpdate n w w' ∧ Occurs isRestart k w w'

theorem Makes.trans {n k n' k' : ℕ} {w w₁ w₂ : World} (h : Makes n k w w₁)
    (h' : Makes n' k' w₁ w₂) : Makes (n + n') (k + k') w w₂ :=
  ⟨h.1.trans h'.1, h.2.trans h'.2⟩

theorem Makes.updating {w w₁ : World} (h : Emits IsUpdating w w₁) : Makes 0 0 w w₁ := by
  refine ⟨.of_emits (fun e he => ?_) h, .of_emits (fun e he => ?_) h⟩
  · unfold isUpdate
    split
    · exact absurd he not_false
    · rfl
  · unfold isRestart
    split
    · exact absurd he not_false
    · rfl

theorem isUpdating_of_isLocal {e : Event} (h : IsLocal e) : IsUpdating e := by
  unfold IsUpdating
  split
  · exact absurd h not_false
  · exact absurd h not_false
  · trivial

theorem Makes.local {w w₁ : World} (h : Emits IsLocal w w₁) : Makes 0 0 w w₁ :=
  .updating (h.mono fun _ => isUpdating_of_isLocal)

theorem tryUpdateAndInstall_makes (env : Env) (locals : Locals) (url : ℕ) (w : World) :
    ∃ r, tryUpdateAndInstall env locals url w = some r ∧ Makes 1 0 w r.world := by
  obtain ⟨r, hr, hemits⟩ := tryUpdateAndInstall_emits env locals url w
  have hnet : Makes 1 0 w (network env w).world :=
    ⟨.one (e := .sys .initializeNetwork _) rfl, .one (e := .sys .initializeNetwork _) rfl⟩
  exact ⟨r, hr, hnet.trans (.updating hemits)⟩

theorem tryRestartModule_makes (env : Env) (w : World) :
    Makes 0 1 w (tryRestartModule env w).world := by
  have hmark : Makes 0 1 w (w.emit (.restart (w.file downloadPath) (w.file installPath))) :=
    ⟨.one (e := .restart ..) rfl, .one (e := .restart ..) rfl⟩
  exact hmark.trans (.local (tryRestartModule_emits env w))

def Enabled (S : Setting) (launchArgs : Option PatchworkLaunchArgs) (w : World) : Prop :=
  ∃ options, (config S launchArgs w).value = some options ∧ options.enableUpdates ≠ 0 ∧
    options.updateServerUrl ≠ 0

theorem configure_makes (S : Setting) (launchArgs : Option PatchworkLaunchArgs) (w : World) :
    ∃ r n k, configure S launchArgs (launch S launchArgs w) = some r ∧ Makes n k w r.world ∧
      (n = 1 ∧ k ≤ 1 ∧ launchArgs.map PatchworkLaunchArgs.updated = some 0 ∧
          Enabled S launchArgs w ∨
        n = 0 ∧ k = 0 ∧ ¬ (launchArgs.map PatchworkLaunchArgs.updated = some 0 ∧
          Enabled S launchArgs w)) := by
  have hread : Makes 0 0 w (config S launchArgs w).world :=
    .local ((launch_emits S launchArgs w).trans (readConfig_emits S _))
  cases hc : (config S launchArgs w).value with
  | none =>
    refine ⟨_, 0, 0, configure_unread hc, hread, .inr ⟨rfl, rfl, fun h => ?_⟩⟩
    obtain ⟨-, options, ho, -⟩ := h
    rw [hc] at ho
    cases ho
  | some options =>
    by_cases hup : Updates launchArgs options
    · obtain ⟨t, ht, htried⟩ := tryUpdateAndInstall_makes S.env S.locals options.updateServerUrl
        (config S launchArgs w).world
      have henabled : Enabled S launchArgs w := ⟨options, hc, hup.2⟩
      by_cases h0 : t.value = 0
      · refine ⟨_, 1, 0, configure_tried hc hup ht, ?_, .inl ⟨rfl, by omega, hup.1, henabled⟩⟩
        rw [if_neg (not_not_intro h0)]
        exact hread.trans htried
      · refine ⟨_, 1, 1, configure_tried hc hup ht, ?_, .inl ⟨rfl, le_refl 1, hup.1, henabled⟩⟩
        rw [if_pos h0]
        exact (hread.trans htried).trans (tryRestartModule_makes S.env t.world)
    · refine ⟨_, 0, 0, configure_disabled hc hup, hread, .inr ⟨rfl, rfl, fun h => hup ?_⟩⟩
      obtain ⟨hargs, options', ho, hon⟩ := h
      rw [hc] at ho
      cases ho
      exact ⟨hargs, hon⟩

/-- A run of `start`, seen when its update phase is over or at its end. -/
inductive Comes (S : Setting) (args : ℕ) (argp : Option PatchworkLaunchArgs) (w : World) :
    World → Prop
  | configured {r : Called PatchworkConfigOptions}
      (h : configure S (if args > 0 then argp else none)
        (launch S (if args > 0 then argp else none) w) = some r) : Comes S args argp w r.world
  | ended {w' : World} (h : start S args argp w = some w') : Comes S args argp w w'

theorem Comes.emits {S : Setting} {args : ℕ} {argp : Option PatchworkLaunchArgs} {w w' : World}
    (h : Comes S args argp w w') {r : Called PatchworkConfigOptions}
    (hr : configure S (if args > 0 then argp else none)
      (launch S (if args > 0 then argp else none) w) = some r) : Emits IsLocal r.world w' := by
  cases h with
  | configured h =>
    obtain rfl := Option.some.inj (h.symm.trans hr)
    exact .of_eq rfl
  | ended h =>
    obtain ⟨r', hr', hemits⟩ := start_emits S h
    obtain rfl := Option.some.inj (hr'.symm.trans hr)
    exact hemits

structure Activation where
  setting : Setting
  args : ℕ
  argp : Option PatchworkLaunchArgs
  before : World
  after : World
  comes : Comes setting args argp before after

namespace Activation
variable (a : Activation)

def launchArgs : Option PatchworkLaunchArgs := if a.args > 0 then a.argp else none

def events : List Event := a.after.trace.drop a.before.trace.length

def updates : ℕ := a.events.countP isUpdate
def restarts : ℕ := a.events.countP isRestart

def Loaded : Prop := a.args = 0

def Restarted : Prop := a.args = 1 ∧ ∃ oldProcess, a.argp = some ⟨oldProcess, 1⟩

def Wanted : Prop := Enabled a.setting a.launchArgs a.before

theorem counts {n k : ℕ} (h : Makes n k a.before a.after) :
    a.updates = n ∧ a.restarts = k := by
  obtain ⟨⟨es, he, hn⟩, es', he', hk⟩ := h
  have hevents : a.events = es := by rw [events, he, List.drop_left]
  have hevents' : a.events = es' := by rw [events, he', List.drop_left]
  exact ⟨by rw [updates, hevents, hn], by rw [restarts, hevents', hk]⟩

theorem calls :
    (a.updates = 1 ∧ a.restarts ≤ 1 ∧
        a.launchArgs.map PatchworkLaunchArgs.updated = some 0 ∧ a.Wanted ∨
      a.updates = 0 ∧ a.restarts = 0 ∧
        ¬ (a.launchArgs.map PatchworkLaunchArgs.updated = some 0 ∧ a.Wanted)) := by
  obtain ⟨r, n, k, hr, hmakes, hcase⟩ := configure_makes a.setting a.launchArgs a.before
  have hafter : Makes n k a.before a.after := hmakes.trans (.local (a.comes.emits hr))
  obtain ⟨rfl, rfl⟩ := a.counts hafter
  exact hcase

theorem updates_of_loaded (h : a.Loaded) : a.updates = 0 ∧ a.restarts = 0 := by
  have hargs : a.launchArgs = none := if_neg (by rw [h]; decide)
  rcases a.calls with ⟨-, -, hfresh, -⟩ | ⟨hu, hr, -⟩
  · rw [hargs] at hfresh
    cases hfresh
  · exact ⟨hu, hr⟩

theorem updates_of_restarted (h : a.Restarted) : a.updates = 0 ∧ a.restarts = 0 := by
  obtain ⟨hargs, oldProcess, hargp⟩ := h
  have hlaunch : a.launchArgs = some ⟨oldProcess, 1⟩ := by
    rw [launchArgs, hargs, hargp]
    rfl
  rcases a.calls with ⟨-, -, hfresh, -⟩ | ⟨hu, hr, -⟩
  · rw [hlaunch] at hfresh
    simp at hfresh
  · exact ⟨hu, hr⟩

end Activation

/-- The modules that an activation leads to: one that it started with `TryRestartModule`, and
what that one leads to. -/
inductive Chain : Activation → List Activation → Prop
  | last (a : Activation) : Chain a []
  | next {a b : Activation} {bs : List Activation} (called : a.restarts ≠ 0)
      (restarted : b.Restarted) (rest : Chain b bs) : Chain a (b :: bs)

def Launch : List Activation → Prop
  | [] => False
  | a :: bs => a.Loaded ∧ Chain a bs

structure Orderly (as : List Activation) : Prop where
  updates : ∀ a ∈ as, a.Loaded → a.Wanted → a.updates = 1
  restarted : ∀ a ∈ as, a.Restarted → a.updates = 0 ∧ a.restarts = 0
  once : (as.map Activation.restarts).sum ≤ 1

theorem Launch.alone {as : List Activation} (h : Launch as) :
    ∃ a, as = [a] ∧ a.Loaded := by
  cases as with
  | nil => exact absurd h not_false
  | cons a bs =>
    obtain ⟨hloaded, hchain⟩ := h
    cases hchain with
    | last => exact ⟨a, rfl, hloaded⟩
    | next called => exact absurd (a.updates_of_loaded hloaded).2 called

/-- A sequence of launches is orderly if and only if no module that the loader starts is
configured to look for updates. -/
theorem launches_orderly_iff {launches : List (List Activation)}
    (hlaunch : ∀ as ∈ launches, Launch as) :
    (∀ as ∈ launches, Orderly as) ↔ ∀ as ∈ launches, ∀ a ∈ as, a.Loaded → ¬ a.Wanted := by
  constructor
  · intro h as has a ha hloaded hwanted
    have hone := (h as has).updates a ha hloaded hwanted
    rw [(a.updates_of_loaded hloaded).1] at hone
    cases hone
  · intro h as has
    obtain ⟨a, rfl, hloaded⟩ := (hlaunch as has).alone
    refine ⟨fun b hb hl hw => absurd hw (h _ has b hb hl),
      fun b _ hb => b.updates_of_restarted hb, ?_⟩
    simp [(a.updates_of_loaded hloaded).2]

-- A loader's launch with a configuration that enables updates and names a server.
theorem loaded_wanted : ∃ a : Activation, a.Loaded ∧ a.Wanted := by
  have hsome : (start updatingSetting 0 none configuredWorld).isSome := by decide +kernel
  obtain ⟨w', hw⟩ := Option.isSome_iff_exists.mp hsome
  have hconfig : (config updatingSetting none configuredWorld).value =
      some ⟨0, 0, 0, 0, 1, 1⟩ := by rfl
  exact ⟨⟨updatingSetting, 0, none, configuredWorld, w', .ended hw⟩, rfl,
    ⟨0, 0, 0, 0, 1, 1⟩, hconfig, by decide, by decide⟩

theorem launches_not_orderly : ¬ ∀ launches : List (List Activation),
    (∀ as ∈ launches, Launch as) →
    (∀ as ∈ launches, ∀ a ∈ as, (config a.setting a.launchArgs a.before).value.isSome) →
    ∀ as ∈ launches, Orderly as := by
  intro h
  obtain ⟨a, hloaded, hwanted⟩ := loaded_wanted
  have hread : (config a.setting a.launchArgs a.before).value.isSome := by
    obtain ⟨options, ho, -⟩ := hwanted
    simp [ho]
  have horderly := h [[a]] (by simpa [Launch] using ⟨hloaded, .last a⟩) (by simpa using hread)
    [a] (by simp)
  have hone := horderly.updates a (by simp) hloaded hwanted
  rw [(a.updates_of_loaded hloaded).1] at hone
  cases hone

theorem launches_orderly_iff_loaded : ∃ a : Activation,
    ((∀ as ∈ [[a]], Orderly as) ↔ ∀ as ∈ [[a]], ∀ b ∈ as, b.Loaded → ¬ b.Wanted) := by
  obtain ⟨a, hloaded, -⟩ := loaded_wanted
  exact ⟨a, launches_orderly_iff (by simpa [Launch] using ⟨hloaded, .last a⟩)⟩

end Patchwork.Launches
