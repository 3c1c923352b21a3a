import Patchwork.Restart
import Patchwork.TableBytes

/-!
# A restart within a run

`TryRestartModule` runs the new module's `start` inside the old one's. The old run
then goes on with what follows an update: it looks for the game in memory that the
new module has patched, and applies a table of its own to whatever game it finds.
Which game that is, and what either table brings, is known before the new module
patches the game.
-/

namespace Patchwork.NestedStart
open ByteMemory Console Update Util Patches Prx ConfiguredStrings Restart Detection TableBytes

def later : GameNumber → List GameNumber
  | .unknown => []
  | .lbp1 => [.lbp2, .lbp3, .lbp3JP]
  | .lbp2 => [.lbp3, .lbp3JP]
  | .lbp3 => [.lbp3JP]
  | .lbp3JP => []

def firstRecognised (m : Mem) : List GameNumber → GameNumber
  | [] => .unknown
  | g :: gs => if m (probe g) = (mark g).2 then g else firstRecognised m gs

/-- The game that a run recognises when another has patched the game `g`: the same one, if its
new user agent has the character for it, or else one that is looked for later. -/
def foundAgain (S : Setting) (options : PatchworkConfigOptions) (g : GameNumber) (m : Mem) :
    GameNumber :=
  if g ≠ .unknown ∧ markLeft S options g m = (mark g).2 then g
  else firstRecognised m (later g)

/-- What a target holds when a run has patched the game `g`: what the row for it brought, or
what it held before. -/
def leftBehind (S : Setting) (options : PatchworkConfigOptions) (c : Configured) (g : GameNumber)
    (m : Mem) (t : GamePatch) : List UInt8 :=
  (((patches S.globals g).find? fun q => q.offset == t.offset).bind (brought S options c g m)).getD
    (load m t.offset t.size)

/-- A run of `start` that updates and restarts with success. `sys_prx_start_module`, when it
succeeds, runs the `start` of the module `S'` to its end: in the world `v`, which shares what
there is at the time, and leaves `v'`. -/
structure Nested (S S' : Setting) (args : ℕ) (argp : Option PatchworkLaunchArgs)
    (options : PatchworkConfigOptions) (t : Called ℤ) (old : ℤ) (w v v' : World) : Prop where
  read : (config S (if args > 0 then argp else none) w).value = some options
  updates : Updates (if args > 0 then argp else none) options
  tried : tryUpdateAndInstall S.env S.locals options.updateServerUrl
    (config S (if args > 0 then argp else none) w).world = some t
  restarts : t.value ≠ 0
  succeeds : 0 ≤ (tryRestartModule S.env t.world).value
  shared : v.toShared = (logLn "Restarting module" t.world).toShared
  runs : 0 ≤ (tryRestartModule S.env t.world).value → start S' 1 (some ⟨old, 1⟩) v = some v' ∧
    S.env.startModule v.toShared = v'.toShared

/-- The new module has read its configuration and finds `v₁`. -/
structure Inner (S' : Setting) (options' : PatchworkConfigOptions) (c' : Configured) (old : ℤ)
    (v v₁ : World) : Prop where
  configured : configure S' (some ⟨old, 1⟩) (launch S' (some ⟨old, 1⟩) v) = some ⟨options', v₁⟩
  read : c'.Read options' v₁.mem
  sited : Sited S' options' c' (getLBPGameNumber v₁.mem) v₁.mem

section Runs
variable (S S' : Setting) (options options' : PatchworkConfigOptions) (c c' : Configured) (m : Mem)

def resumedGame : GameNumber := foundAgain S' options' (getLBPGameNumber m) m

/-- The old run's strings and variables are still there, and the new one writes neither over
them nor, besides its table, over the game. -/
structure Resumed : Prop where
  read : c.Read options m
  sited : Sited S options c (resumedGame S' options' m) m
  beside : Clear (copiedText c ++ copiedCode S (resumedGame S' options' m) ++ ownPlaces S options c)
    (ownPlaces S' options' c' ++ targets (getLBPGameNumber m))
  game : Clear (targets (resumedGame S' options' m)) (ownPlaces S' options' c')

/-- Each row of the old run's table brings nothing, or what the new one leaves at its target. -/
def Stands : Prop :=
  ∀ q ∈ patches S.globals (resumedGame S' options' m), ∀ bytes,
    brought S options c (resumedGame S' options' m) m q = some bytes →
      leftBehind S' options' c' (getLBPGameNumber m) m q = bytes

end Runs

theorem tryRestartModule_mem (env : Env) (w : World) :
    (tryRestartModule env w).world.mem =
      (env.startModule (logLn "Restarting module" w).toShared).mem := by
  unfold tryRestartModule
  dsimp only
  split <;> rfl

section Inner
variable {S : Setting} {options : PatchworkConfigOptions} {c : Configured} {g : GameNumber}
  {m m' : Mem}

theorem getLBPGameNumber_foundAgain (game : getLBPGameNumber m = g)
    (hleft : g ≠ .unknown → m' (probe g) = markLeft S options g m)
    (hother : ∀ g', g' ≠ .unknown → g' ≠ g → m' (probe g') = m (probe g')) :
    getLBPGameNumber m' = foundAgain S options g m := by
  have hprobes (m : Mem) : getLBPGameNumber m =
      firstRecognised m [.lbp1, .lbp2, .lbp3, .lbp3JP] := rfl
  have h₁ := hother .lbp1 (by decide)
  have h₂ := hother .lbp2 (by decide)
  have h₃ := hother .lbp3 (by decide)
  have h₄ := hother .lbp3JP (by decide)
  rw [hprobes] at game
  rw [hprobes, foundAgain]
  cases g with
  | unknown =>
    simp only [firstRecognised] at game ⊢
    rw [h₁ (by decide), h₂ (by decide), h₃ (by decide), h₄ (by decide), game]
    simp [later, firstRecognised]
  | lbp1 =>
    simp only [firstRecognised]
    rw [hleft (by decide), h₂ (by decide), h₃ (by decide), h₄ (by decide)]
    simp only [later, firstRecognised] at game ⊢
    split_ifs at game ⊢ <;> simp_all
  | lbp2 =>
    simp only [firstRecognised]
    rw [hleft (by decide), h₁ (by decide), h₃ (by decide), h₄ (by decide)]
    simp only [later, firstRecognised] at game ⊢
    split_ifs at game ⊢ <;> simp_all
  | lbp3 =>
    simp only [firstRecognised]
    rw [hleft (by decide), h₁ (by decide), h₂ (by decide), h₄ (by decide)]
    simp only [later, firstRecognised] at game ⊢
    split_ifs at game ⊢ <;> simp_all
  | lbp3JP =>
    simp only [firstRecognised]
    rw [hleft (by decide), h₁ (by decide), h₂ (by decide), h₃ (by decide)]
    simp only [later, firstRecognised] at game ⊢
    split_ifs at game ⊢ <;> simp_all

theorem targets_apart {g g' : GameNumber} (h : g ≠ g') :
    ∀ t ∈ targets g, ∀ t' ∈ targets g', Apart t.1 t.2 t'.1 t'.2 := by
  revert h
  cases g <;> cases g' <;> decide

theorem targets_differ {g g' : GameNumber} (h : g ≠ g') :
    ∀ t ∈ targets g, ∀ t' ∈ targets g', t.1 ≠ t'.1 := by
  revert h
  cases g <;> cases g' <;> decide

theorem targets_size (g : GameNumber) :
    ∀ t ∈ targets g, ∀ t' ∈ targets g, t.1 = t'.1 → t.2 = t'.2 := by
  cases g <;> decide

theorem brought_agent (hne : S.globals.userAgent ≠ S.globals.networkKey) :
    brought S options c g m (agentRow S g) =
      some (load (snprintf S.frame.userAgent 64 (userAgentText S options (gameDigit g)) m)
        S.frame.userAgent lbpUserAgentLength) :=
  (if_neg hne).trans (if_pos rfl)

end Inner

section Nested
variable {S S' : Setting} {args : ℕ} {argp : Option PatchworkLaunchArgs}
  {options options' : PatchworkConfigOptions} {c c' : Configured} {t : Called ℤ} {old : ℤ}
  {w v v₁ v' : World}

theorem Nested.left (h : Nested S S' args argp options t old w v v') :
    (tryRestartModule S.env t.world).world.mem = v'.mem := by
  rw [tryRestartModule_mem, ← h.shared, (h.runs h.succeeds).2]

theorem Nested.configured (h : Nested S S' args argp options t old w v v') :
    configure S (if args > 0 then argp else none)
      (launch S (if args > 0 then argp else none) w) =
        some ⟨options, (tryRestartModule S.env t.world).world⟩ := by
  rw [configure_tried h.read h.updates h.tried, if_pos h.restarts]

theorem Inner.leaves (inner : Inner S' options' c' old v v₁)
    (hstart : start S' 1 (some ⟨old, 1⟩) v = some v') :
    ChangesIn (ownPlaces S' options' c' ++ targets (getLBPGameNumber v₁.mem)) v₁.mem v'.mem ∧
      ∀ q ∈ patches S'.globals (getLBPGameNumber v₁.mem), load v'.mem q.offset q.size =
        (brought S' options' c' (getLBPGameNumber v₁.mem) v₁.mem q).getD
          (load v₁.mem q.offset q.size) := by
  obtain ⟨u, hpatch, hchanges⟩ := patchGame_confined inner.read inner.sited.placed rfl
  obtain ⟨u', hpatch', hbrings⟩ := patchGame_brings inner.read inner.sited rfl
  obtain rfl : u = u' := Option.some.inj (hpatch.symm.trans hpatch')
  obtain ⟨w', hw', hmem⟩ := start_patchGame (n := 1) inner.configured hpatch
  obtain rfl : v' = w' := Option.some.inj (hstart.symm.trans hw')
  rw [hmem]
  exact ⟨hchanges, hbrings⟩

theorem Inner.game (inner : Inner S' options' c' old v v₁)
    (hstart : start S' 1 (some ⟨old, 1⟩) v = some v') :
    getLBPGameNumber v'.mem = resumedGame S' options' v₁.mem := by
  obtain ⟨hchanges, hbrings⟩ := inner.leaves hstart
  refine getLBPGameNumber_foundAgain rfl (fun known => ?_) fun g' hg' hne => ?_
  · obtain ⟨h13, hlt⟩ := mark_between known
    have hcell : S'.globals.userAgent ≠ S'.globals.networkKey :=
      (cell_ne (inner.sited.apart.places.2.2.1 (S'.globals.networkKey, 4) (by simp [keyPlaces])
        (S'.globals.userAgent, 4) (by simp [announcePlaces]))).symm
    have hfield := hbrings _ (agentRow_mem known)
    rw [brought_agent hcell, Option.getD_some] at hfield
    have hbyte := congrArg (·[(mark (getLBPGameNumber v₁.mem)).1]?) hfield
    simp only [agentRow, load, List.getElem?_map, List.getElem?_range hlt, Option.map_some,
      Option.some.injEq] at hbyte
    rw [snprintf_agent _ _ h13 (Nat.lt_trans hlt (by decide))] at hbyte
    exact hbyte
  · have hload : load v'.mem (probe g') 1 = load v₁.mem (probe g') 1 := by
      refine hchanges.load fun r hr => ?_
      rcases List.mem_append.mp hr with hr | hr
      · exact inner.sited.placed.game _ (probe_mem_gamePlaces hg') r (List.mem_append_right _ hr)
      · exact probe_apart hg' hne r hr
    simpa [load] using hload

theorem Inner.left (inner : Inner S' options' c' old v v₁)
    (resumed : Resumed S S' options options' c c' v₁.mem)
    (hstart : start S' 1 (some ⟨old, 1⟩) v = some v') {q : GamePatch}
    (hq : q ∈ patches S.globals (resumedGame S' options' v₁.mem)) :
    load v'.mem q.offset q.size =
      leftBehind S' options' c' (getLBPGameNumber v₁.mem) v₁.mem q := by
  obtain ⟨hchanges, hbrings⟩ := inner.leaves hstart
  have hq' := mem_targets hq
  unfold leftBehind
  by_cases hgame : resumedGame S' options' v₁.mem = getLBPGameNumber v₁.mem
  · rw [hgame, ← map_patches S'.globals] at hq'
    obtain ⟨p, hp, hpq⟩ := List.mem_map.mp hq'
    have hsome : ((patches S'.globals (getLBPGameNumber v₁.mem)).find?
        fun r => r.offset == q.offset).isSome := by
      refine List.find?_isSome.mpr ⟨p, hp, ?_⟩
      simpa using congrArg Prod.fst hpq
    obtain ⟨r, hr⟩ := Option.isSome_iff_exists.mp hsome
    have hrm := List.mem_of_find?_eq_some hr
    have hoffset : r.offset = q.offset := by simpa using List.find?_some hr
    have hsize : r.size = q.size := targets_size _ _ (mem_targets hrm) _
      (hgame ▸ mem_targets hq) hoffset
    rw [hr, Option.bind_some, ← hoffset, ← hsize]
    exact hbrings r hrm
  · have hnone : (patches S'.globals (getLBPGameNumber v₁.mem)).find?
        (fun r => r.offset == q.offset) = none := by
      refine List.find?_eq_none.mpr fun r hr => ?_
      rw [beq_iff_eq]
      exact targets_differ (Ne.symm hgame) _ (mem_targets hr) _ hq'
    rw [hnone, Option.bind_none, Option.getD_none]
    refine hchanges.load fun r hr => ?_
    rcases List.mem_append.mp hr with hr | hr
    · exact resumed.game _ hq' r hr
    · exact targets_apart hgame _ hq' r hr

theorem Nested.newest_iff (nested : Nested S S' args argp options t old w v v')
    (inner : Inner S' options' c' old v v₁)
    (resumed : Resumed S S' options options' c c' v₁.mem) :
    ∃ w', start S args argp w = some w' ∧ (ChangesIn (ownPlaces S options c) v'.mem w'.mem ↔
      Stands S S' options options' c c' v₁.mem) := by
  have hstart := (nested.runs nested.succeeds).1
  obtain ⟨hchanges, -⟩ := inner.leaves hstart
  have hclear := resumed.beside
  have hown : Clear (ownPlaces S options c) (ownPlaces S' options' c' ++
      targets (getLBPGameNumber v₁.mem)) := fun r hr => hclear r (List.mem_append_right _ hr)
  have hread := resumed.read.changes hchanges fun r hr => hown r (by simp [ownPlaces, hr])
  have hsited := resumed.sited.changes hchanges hown
  have hmem := nested.left
  rw [← hmem] at hread hsited
  obtain ⟨w₂, hpatch, hiff⟩ := patchGame_keeps_iff hread hsited
    (hmem ▸ inner.game hstart)
  obtain ⟨w', hw', hw'mem⟩ := start_patchGame nested.configured hpatch
  refine ⟨w', hw', ?_⟩
  rw [hw'mem, ← hmem, hiff]
  refine forall₂_congr fun q hq => forall_congr' fun bytes => ?_
  rw [hmem, brought_changes resumed.sited hchanges hclear hq, inner.left resumed hstart hq]

end Nested

/-- When the old run is over, memory outside its own is what the new module left if and only if
the old run recognises no game there, or its table brings only what the new one has put there or
the game held. -/
theorem start_newest_iff (S S' : Setting) (args : ℕ) (argp : Option PatchworkLaunchArgs)
    (options options' : PatchworkConfigOptions) (c c' : Configured) (t : Called ℤ) (old : ℤ)
    (w v v₁ v' : World) (nested : Nested S S' args argp options t old w v v')
    (inner : Inner S' options' c' old v v₁)
    (resumed : Resumed S S' options options' c c' v₁.mem) :
    ∃ w', start S args argp w = some w' ∧ (ChangesIn (ownPlaces S options c) v'.mem w'.mem ↔
      Stands S S' options options' c c' v₁.mem) :=
  nested.newest_iff inner resumed

-- Version 2.0 starts version 10.12 in the second game. The new user agent has a 2 where the second
-- game is recognised, so the old version applies its own table over the new one.
def noStrings : Configured := ⟨none, none, none⟩

def updateOptions : PatchworkConfigOptions := ⟨0, 0, 0, 0, 1, 1⟩

def newSetting : Setting := { updatingSetting with
  globals := ⟨0x30000, 0x30004, 0x30008, 0x3000c, 0x30010, 0x30014, 0x30018, 0x31000, 0x31100,
    0x31200, 0x31300, 0x31400, 0x31500, 0x31600, 0x31700⟩
  frame := ⟨0x40000, 0x40200, 0x40300, 0x40400, 0x40500⟩
  major := "10"
  minor := "12" }

def newWorld (left : Shared) : World := { freshWorld with toShared := left }

def startNew (left : Shared) : Shared :=
  match start newSetting 1 (some ⟨0, 1⟩) (newWorld left) with
  | some v => v.toShared
  | none => left

def oldSetting : Setting := { updatingSetting with
  env := { updatingSetting.env with startModule := startNew } }

theorem oldSetting_startModule : oldSetting.env.startModule = startNew := rfl

theorem newWorld_shared (left : Shared) : (newWorld left).toShared = left := rfl

def secondGame : World := { configuredWorld with
  mem := store (fun _ => 0) (lbp2UserAgentOffset + 18) [50] }

def triedWorld : World :=
  (network oldSetting.env (config oldSetting (some ⟨0, 0⟩) secondGame).world).world

def startedWorld : World := newWorld (logLn "Restarting module" triedWorld).toShared

def innerWorld : World :=
  (readConfig newSetting (launch newSetting (some ⟨0, 1⟩) startedWorld)).world

theorem nested_new : ∃ v', Nested oldSetting newSetting 1 (some ⟨0, 0⟩) updateOptions
    ⟨2, triedWorld⟩ 0 secondGame startedWorld v' := by
  have hsome : (start newSetting 1 (some ⟨0, 1⟩) startedWorld).isSome := by decide +kernel
  obtain ⟨v', hv'⟩ := Option.isSome_iff_exists.mp hsome
  have heffect : oldSetting.env.startModule startedWorld.toShared = v'.toShared := by
    rw [oldSetting_startModule, startedWorld, newWorld_shared]
    delta startNew
    rw [startedWorld] at hv'
    rw [hv']
  have hread : (config oldSetting (some ⟨0, 0⟩) secondGame).value = some updateOptions :=
    rfl
  have htried : tryUpdateAndInstall oldSetting.env oldSetting.locals updateOptions.updateServerUrl
      (config oldSetting (some ⟨0, 0⟩) secondGame).world = some ⟨2, triedWorld⟩ := if_pos rfl
  have hsucceeds : 0 ≤ (tryRestartModule oldSetting.env triedWorld).value := by decide +kernel
  exact ⟨v', hread, by decide, htried, by decide, hsucceeds, newWorld_shared _,
    fun _ => ⟨hv', heffect⟩⟩

theorem innerWorld_game : getLBPGameNumber innerWorld.mem = .lbp2 := by decide +kernel

theorem resumedGame_new : resumedGame newSetting updateOptions innerWorld.mem = .lbp2 := by
  decide +kernel

theorem sited_new : Sited newSetting updateOptions noStrings .lbp2 innerWorld.mem where
  placed := ⟨by decide, by decide, by decide +kernel, by decide, by decide +kernel,
    by decide +kernel⟩
  apart := by
    unfold Spread
    decide +kernel
  text := by decide
  code := by decide +kernel
  fresh := ⟨by decide +kernel, by decide +kernel⟩
  key := by decide +kernel
  hash := by decide
  agent := by decide
  words := by decide

theorem sited_old : Sited oldSetting updateOptions noStrings .lbp2 innerWorld.mem where
  placed := ⟨by decide, by decide, by decide +kernel, by decide, by decide +kernel,
    by decide +kernel⟩
  apart := by
    unfold Spread
    decide +kernel
  text := by decide
  code := by decide +kernel
  fresh := ⟨by decide +kernel, by decide +kernel⟩
  key := by decide +kernel
  hash := by decide
  agent := by decide
  words := by decide

theorem inner_new : Inner newSetting updateOptions noStrings 0 startedWorld innerWorld where
  configured := rfl
  read := ⟨rfl, rfl, rfl⟩
  sited := by
    rw [innerWorld_game]
    exact sited_new

theorem resumed_old : Resumed oldSetting newSetting updateOptions updateOptions noStrings noStrings
    innerWorld.mem := by
  refine ⟨⟨rfl, rfl, rfl⟩, ?_, ?_, ?_⟩
  all_goals rw [resumedGame_new]
  · exact sited_old
  · rw [innerWorld_game]
    decide +kernel
  · decide +kernel

theorem start_newest_iff_new : ∃ v' w' : World,
    start oldSetting 1 (some ⟨0, 0⟩) secondGame = some w' ∧
    (ChangesIn (ownPlaces oldSetting updateOptions noStrings) v'.mem w'.mem ↔
      Stands oldSetting newSetting updateOptions updateOptions noStrings noStrings
        innerWorld.mem) := by
  obtain ⟨v', h⟩ := nested_new
  exact ⟨v', start_newest_iff _ _ _ _ _ _ _ _ ⟨2, triedWorld⟩ 0 _ _ _ v' h inner_new resumed_old⟩

theorem start_not_newest : ¬ ∀ (S S' : Setting) (args : ℕ) (argp : Option PatchworkLaunchArgs)
    (options options' : PatchworkConfigOptions) (c c' : Configured) (t : Called ℤ) (old : ℤ)
    (w v v₁ v' : World), Nested S S' args argp options t old w v v' →
    Inner S' options' c' old v v₁ → Resumed S S' options options' c c' v₁.mem →
    ∃ w', start S args argp w = some w' ∧
      ChangesIn (ownPlaces S options c) v'.mem w'.mem := by
  intro h
  obtain ⟨v', hnested⟩ := nested_new
  obtain ⟨w', hw', hchanges⟩ := h _ _ _ _ _ _ _ _ _ _ _ _ _ _ hnested inner_new resumed_old
  obtain ⟨w'', hw'', hiff⟩ := hnested.newest_iff inner_new resumed_old
  obtain rfl : w' = w'' := Option.some.inj (hw'.symm.trans hw'')
  -- the old version would put its own user agent there
  let q : GamePatch := ⟨lbp2UserAgentOffset, oldSetting.globals.userAgent, lbpUserAgentLength,
    .indirect⟩
  have hstands := hiff.mp hchanges
  rw [Stands, resumedGame_new, innerWorld_game] at hstands
  have hbrought : brought oldSetting updateOptions noStrings .lbp2 innerWorld.mem q =
      some (ascii "PatchworkLBP2 2.0 NK" ++ [0, 0]) := by decide +kernel
  have hleft : leftBehind newSetting updateOptions noStrings .lbp2 innerWorld.mem q =
      ascii "PatchworkLBP2 10.12 NK" := by decide +kernel
  have hsame := hstands q (by decide) _ hbrought
  rw [hleft] at hsame
  exact absurd hsame (by decide)

end Patchwork.NestedStart
