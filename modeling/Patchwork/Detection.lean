import Patchwork.ConfiguredStrings

/-!
# Detection

The game is recognised by one character of its user agent, and the table puts
another user agent there. The game is recognised again if and only if that one
has the same character in the same place. Up to and including the game's digit
the new one is fixed, so the place lies in what follows: the version and the key.
-/

namespace Patchwork.Detection
open ByteMemory Console Util Patches Prx ConfiguredStrings

def mark : GameNumber → ℕ × UInt8
  | .unknown => (0, 0)
  | .lbp1 => (15, 36)
  | .lbp2 => (18, 50)
  | .lbp3 => (18, 50)
  | .lbp3JP => (18, 50)

def agentField : GameNumber → ℕ
  | .unknown => 0
  | .lbp1 => lbp1UserAgentOffset
  | .lbp2 => lbp2UserAgentOffset
  | .lbp3 => lbp3UserAgentOffset
  | .lbp3JP => lbp3JPUserAgentOffset

def probe (g : GameNumber) : ℕ := agentField g + (mark g).1

def versionText (S : Setting) (options : PatchworkConfigOptions) : List UInt8 :=
  ascii (" " ++ S.major ++ "." ++ S.minor ++ " ") ++
    ascii (if options.enableJoinKey ≠ 0 then "" else "NK")

/-- The character that the new user agent has where the game is recognised: one of its
version and key, the zero byte behind them, or what the stack held there. -/
def markLeft (S : Setting) (options : PatchworkConfigOptions) (g : GameNumber) (m : Mem) : UInt8 :=
  ((versionText S options ++ [0])[(mark g).1 - 13]?).getD (m (S.frame.userAgent + (mark g).1))

def Recognised (m : Mem) (g : GameNumber) : Prop := m (probe g) = (mark g).2

def earlier : GameNumber → List GameNumber
  | .unknown => []
  | .lbp1 => []
  | .lbp2 => [.lbp1]
  | .lbp3 => [.lbp1, .lbp2]
  | .lbp3JP => [.lbp1, .lbp2, .lbp3]

theorem getLBPGameNumber_eq_iff {g : GameNumber} (m : Mem) (known : g ≠ .unknown) :
    getLBPGameNumber m = g ↔ Recognised m g ∧ ∀ g' ∈ earlier g, ¬ Recognised m g' := by
  have hprobes : getLBPGameNumber m =
      if m (probe .lbp1) = (mark .lbp1).2 then .lbp1
      else if m (probe .lbp2) = (mark .lbp2).2 then .lbp2
      else if m (probe .lbp3) = (mark .lbp3).2 then .lbp3
      else if m (probe .lbp3JP) = (mark .lbp3JP).2 then .lbp3JP
      else .unknown := rfl
  rw [hprobes]
  cases g with
  | unknown => exact absurd rfl known
  | _ =>
    simp only [Recognised, earlier, List.mem_cons, List.not_mem_nil, or_false, forall_eq_or_imp,
      forall_eq, IsEmpty.forall_iff, implies_true, and_true]
    split_ifs <;> simp_all

theorem earlier_spec {g g' : GameNumber} (h : g' ∈ earlier g) : g' ≠ .unknown ∧ g' ≠ g := by
  revert h
  cases g <;> cases g' <;> decide

theorem getLBPGameNumber_again_iff {g : GameNumber} {m m' : Mem} (known : g ≠ .unknown)
    (game : getLBPGameNumber m = g)
    (hother : ∀ g', g' ≠ .unknown → g' ≠ g → m' (probe g') = m (probe g')) :
    getLBPGameNumber m' = g ↔ Recognised m' g := by
  have hbefore := ((getLBPGameNumber_eq_iff m known).mp game).2
  rw [getLBPGameNumber_eq_iff m' known]
  refine and_iff_left fun g' hg' => ?_
  rw [Recognised, hother g' (earlier_spec hg').1 (earlier_spec hg').2]
  exact hbefore g' hg'

theorem probe_mem_gamePlaces {g g' : GameNumber} (h : g' ≠ .unknown) :
    (probe g', 1) ∈ gamePlaces g := by
  cases g' with
  | unknown => exact absurd rfl h
  | _ => simp [gamePlaces, probe, agentField, mark]

theorem probe_apart {g g' : GameNumber} (h : g' ≠ .unknown) (hne : g' ≠ g) :
    ∀ t ∈ targets g, Apart (probe g') 1 t.1 t.2 := by
  revert h hne
  cases g <;> cases g' <;> decide

section Agent
variable {S : Setting} {options : PatchworkConfigOptions} {c : Configured} {g : GameNumber}

def agentRow (S : Setting) (g : GameNumber) : GamePatch :=
  ⟨agentField g, S.globals.userAgent, lbpUserAgentLength, .indirect⟩

theorem agentRow_mem (known : g ≠ .unknown) : agentRow S g ∈ patches S.globals g := by
  cases g with
  | unknown => exact absurd rfl known
  | _ => simp [agentRow, agentField, patches, lbp1Patches, lbp2Patches, lbp3Patches, lbp3JPPatches]

theorem userAgentText_eq (digit : UInt8) : userAgentText S options digit =
    ascii "PatchworkLBP" ++ [digit] ++ versionText S options := by
  simp [userAgentText, versionText]

theorem snprintf_agent {i : ℕ} (digit : UInt8) (m : Mem) (h13 : 13 ≤ i) (hi : i < 63) :
    snprintf S.frame.userAgent 64 (userAgentText S options digit) m (S.frame.userAgent + i) =
      ((versionText S options ++ [0])[i - 13]?).getD (m (S.frame.userAgent + i)) := by
  have hstored : snprintf S.frame.userAgent 64 (userAgentText S options digit) m
      (S.frame.userAgent + i) = (((userAgentText S options digit).take 63 ++ [0])[i]?).getD
        (m (S.frame.userAgent + i)) := by
    simp [snprintf, store]
  have hcut : ((userAgentText S options digit).take 63 ++ [0])[i]? =
      (userAgentText S options digit ++ [0])[i]? := by
    by_cases hlen : (userAgentText S options digit).length ≤ 63
    · rw [List.take_of_length_le hlen]
    · rw [List.getElem?_append_left (by simp; omega), List.getElem?_append_left (by omega),
        List.getElem?_take_of_lt hi]
  have hprefix : (ascii "PatchworkLBP" ++ [digit]).length = 13 := rfl
  rw [hstored, hcut, userAgentText_eq, List.append_assoc, List.getElem?_append_right (by omega),
    hprefix]

/-- Whether the character left at the probe is the game's is decided before the run. -/
structure Announced (S : Setting) (options : PatchworkConfigOptions) (g : GameNumber)
    (m₁ m : Mem) : Prop where
  pointer : load32 m S.globals.userAgent = S.frame.userAgent
  left : m (S.frame.userAgent + (mark g).1) = markLeft S options g m₁
  probes : ∀ g', g' ≠ .unknown → m (probe g') = m₁ (probe g')

/-- The join key and the ranges that `start` writes besides the strings lie apart. -/
def Spread (S : Setting) (options : PatchworkConfigOptions) (c : Configured) : Prop :=
  (c.joinKey.toList.map textRange ++ scratch S options).Pairwise fun r s => Apart r.1 r.2 s.1 s.2

end Agent

structure Recognising (S : Setting) (args : ℕ) (argp : Option PatchworkLaunchArgs)
    (options : PatchworkConfigOptions) (c : Configured) (w w₁ : World) (g : GameNumber) : Prop
    extends Launched S args argp options c w w₁ g where
  apart : Spread S options c
  agent : S.frame.userAgent ≠ 0 ∧ S.frame.userAgent < 2 ^ 32

section Run
variable {S : Setting} {options : PatchworkConfigOptions} {c : Configured} {g : GameNumber}
  {w w₁ : World}

theorem Spread.agent (apart : Spread S options c) :
    (∀ r ∈ c.joinKey.toList.map textRange ++ keyPlaces S ++ hookPlaces S ++
      [(S.frame.gameNumStr, 2)], Apart S.frame.userAgent 64 r.1 r.2) ∧
    Apart S.frame.userAgent 64 S.globals.userAgent 4 ∧
    ∀ r ∈ [(S.frame.userAgent, 64), (S.globals.userAgent, 4)],
      Apart r.1 r.2 (messageRange S options).1 (messageRange S options).2 := by
  have hsplit : c.joinKey.toList.map textRange ++ scratch S options =
      (c.joinKey.toList.map textRange ++ keyPlaces S ++ hookPlaces S ++
        [(S.frame.gameNumStr, 2)]) ++
      [(S.frame.userAgent, 64), (S.globals.userAgent, 4), messageRange S options] := by
    simp [scratch, announcePlaces]
  unfold Spread at apart
  rw [hsplit] at apart
  obtain ⟨-, hrest, hbefore⟩ := List.pairwise_append.mp apart
  obtain ⟨hagent, hcell⟩ := List.pairwise_cons.mp hrest
  refine ⟨fun r hr => (hbefore r hr (S.frame.userAgent, 64) (by simp)).symm,
    hagent (S.globals.userAgent, 4) (by simp), ?_⟩
  intro r hr
  rcases List.mem_cons.mp hr with rfl | hr
  · exact hagent (messageRange S options) (by simp)
  · obtain rfl := List.mem_singleton.mp hr
    exact (List.pairwise_cons.mp hcell).1 (messageRange S options) (by simp)

theorem Spread.places (apart : Spread S options c) :
    Apart S.frame.joinKeyHash 32 S.globals.networkKey 4 ∧
      Apart S.globals.notificationEnableInstruction 4 S.globals.scriptHookInstruction 4 ∧
      Clear (keyPlaces S) (hookPlaces S ++ announcePlaces S options) ∧
      Clear (hookPlaces S) (announcePlaces S options) := by
  have hscratch := (List.pairwise_append.mp apart).2.1
  rw [scratch, List.append_assoc] at hscratch
  obtain ⟨hkey, hrest, hkeyRest⟩ := List.pairwise_append.mp hscratch
  obtain ⟨hhook, -, hhookRest⟩ := List.pairwise_append.mp hrest
  exact ⟨(List.pairwise_cons.mp hkey).1 (S.globals.networkKey, 4) (by simp),
    (List.pairwise_cons.mp hhook).1 (S.globals.scriptHookInstruction, 4) (by simp), hkeyRest,
    hhookRest⟩

theorem mark_between (known : g ≠ .unknown) :
    13 ≤ (mark g).1 ∧ (mark g).1 < lbpUserAgentLength := by
  revert known
  cases g <;> decide

theorem changesIn_byte {rs : List (ℕ × ℕ)} {m m' : Mem} {a n i : ℕ} (h : ChangesIn rs m m')
    (hr : ∀ r ∈ rs, Apart a n r.1 r.2) (hi : i < n) : m' (a + i) = m (a + i) := by
  refine h _ fun r hmem => ?_
  have := hr r hmem
  unfold Apart at this
  omega

theorem agent_stack {m : Mem} (read : c.Read options m) (placed : Placed S options c g)
    (apart : Spread S options c) {i : ℕ} (hi : i < 64) :
    store (selectGame S g (stringsSet S options c m)) S.frame.gameNumStr [gameDigit g, 0]
      (S.frame.userAgent + i) = m (S.frame.userAgent + i) := by
  obtain ⟨hbuf, -, -⟩ := apart.agent
  have hagent : (S.frame.userAgent, 64) ∈ scratch S options := by simp [scratch, announcePlaces]
  have hnum : ChangesIn [(S.frame.gameNumStr, 2)] (selectGame S g (stringsSet S options c m))
      (store (selectGame S g (stringsSet S options c m)) S.frame.gameNumStr [gameDigit g, 0]) :=
    .store (r := (S.frame.gameNumStr, 2)) (by simp) (Nat.le_refl _) (Nat.le_refl _)
  rw [changesIn_byte hnum (fun r hr => hbuf r (by simp_all)) hi,
    changesIn_byte (selectGame_changes S g _) (fun r hr => hbuf r (by simp_all)) hi,
    changesIn_byte (stringsSet_trims S options c m) (fun r hr => ?_) hi,
    changesIn_byte (trim_changes c options m) (fun r hr => ?_) hi]
  · rw [Configured.texts, List.map_append, List.mem_append] at hr
    rcases hr with hr | hr
    · obtain ⟨s, hs, rfl⟩ := List.mem_map.mp hr
      exact (placed.text (read.in_of_mem hs) hs _ (List.mem_append_right _ hagent)).symm
    · exact hbuf r (by simp [hr])
  · rcases List.mem_append.mp hr with hr | hr
    · exact hbuf r (by simp [hr])
    · exact (placed.cells r hr _ (List.mem_append_right _ hagent)).symm

theorem agent_bytes {m₀ m : Mem} (read : c.Read options m₀) (placed : Placed S options c g)
    (apart : Spread S options c) (agent : S.frame.userAgent < 2 ^ 32)
    (prepared : Prepared S options c g m₀ m) :
    load32 m S.globals.userAgent = S.frame.userAgent ∧
      load m S.frame.userAgent 64 = load (snprintf S.frame.userAgent 64
        (userAgentText S options (gameDigit g)) m₀) S.frame.userAgent 64 := by
  obtain ⟨-, hcell, hmsg⟩ := apart.agent
  constructor
  · rw [load32, ChangesIn.load prepared (by simpa using hmsg (S.globals.userAgent, 4) (by simp))]
    exact load32_store _ agent
  · rw [ChangesIn.load prepared (by simpa using hmsg (S.frame.userAgent, 64) (by simp)), agentSet,
      store32, load_store_apart _ _ hcell]
    exact load_store_congr _ _ _ (load_congr _ _ fun i hi => agent_stack read placed apart hi)

theorem announced {m₀ m : Mem} (read : c.Read options m₀) (placed : Placed S options c g)
    (apart : Spread S options c) (agent : S.frame.userAgent < 2 ^ 32) (known : g ≠ .unknown)
    (prepared : Prepared S options c g m₀ m) : Announced S options g m₀ m := by
  obtain ⟨hpointer, hbytes⟩ := agent_bytes read placed apart agent prepared
  obtain ⟨h13, hlt⟩ := mark_between known
  refine ⟨hpointer, ?_, fun g' hg' => ?_⟩
  · rw [(load_eq_iff _ _).mp hbytes _ (Nat.lt_trans hlt (by decide)),
      snprintf_agent _ _ h13 (Nat.lt_trans hlt (by decide))]
    rfl
  · have hload := placed.gameMemory prepared.own _ (probe_mem_gamePlaces hg')
    simpa [load] using hload

theorem Announced.again_iff {m₀ : Mem} {v : World} (h : Announced S options g m₀ v.mem)
    (placed : Placed S options c g) (agent : S.frame.userAgent ≠ 0) (known : g ≠ .unknown)
    (game : getLBPGameNumber m₀ = g) :
    getLBPGameNumber (applyGamePatches (patches S.globals g) v).mem = g ↔
      markLeft S options g m₀ = (mark g).2 := by
  let q := agentRow S g
  have hq : q ∈ patches S.globals g := agentRow_mem known
  have horigin : origin v.mem q = S.frame.userAgent := h.pointer
  have hclear {r : ℕ × ℕ} (hr : r ∈ announcePlaces S options) :
      ∀ p ∈ patches S.globals g, Apart r.1 r.2 p.offset p.size := fun p hp =>
    (placed.game _ (gamePlaces_target hp) r (by simp [ownPlaces, scratch, hr])).symm.mono
      (Nat.le_refl _) (Nat.le_succ _)
  have hundisturbed : Undisturbed v.mem (patches S.globals g) q := by
    refine ⟨fun _ => hclear (r := (S.globals.userAgent, 4)) (by simp [announcePlaces]),
      fun _ p hp => ?_⟩
    rw [horigin]
    exact (hclear (r := (S.frame.userAgent, 64)) (by simp [announcePlaces]) p hp).mono
      (show lbpUserAgentLength ≤ 64 by decide) (Nat.le_refl _)
  have hfield := load_target (patches_spaced S.globals g) (patches_offset_ne_zero S.globals g) hq
    hundisturbed
  rw [delivered, horigin, if_neg agent] at hfield
  have hprobe : (applyGamePatches (patches S.globals g) v).mem (probe g) =
      markLeft S options g m₀ := by
    have hbyte := congrArg (·[(mark g).1]?) hfield
    have hlt : (mark g).1 < q.size := (mark_between known).2
    rw [← h.left, show probe g = q.offset + (mark g).1 from rfl]
    simpa [load, hlt] using hbyte
  have hother : ∀ g', g' ≠ .unknown → g' ≠ g →
      (applyGamePatches (patches S.globals g) v).mem (probe g') = m₀ (probe g') := by
    intro g' hg' hne
    have hkept : load (applyGamePatches (patches S.globals g) v).mem (probe g') 1 =
        load v.mem (probe g') 1 := by
      refine load_applyGamePatches fun p hp => probe_apart hg' hne (p.offset, p.size) ?_
      rw [← map_patches S.globals]
      exact List.mem_map_of_mem hp
    rw [← h.probes g' hg']
    simpa [load] using hkept
  rw [getLBPGameNumber_again_iff known game hother, Recognised, hprobe]

theorem Recognising.patched {args : ℕ} {argp : Option PatchworkLaunchArgs}
    (h : Recognising S args argp options c w w₁ g) : ∃ w₅ w',
      start S args argp w = some w' ∧ w'.mem = (applyGamePatches (patches S.globals g) w₅).mem ∧
      Announced S options g w₁.mem w₅.mem := by
  obtain ⟨w₅, w', hw', hmem, prepared⟩ := h.prepared
  exact ⟨w₅, w', hw', hmem, announced h.read h.placed h.apart h.agent.2 h.known prepared⟩

end Run

/-- When `start` has applied its table, the game is recognised again if and only if the new
user agent has the game's character at the mark. -/
theorem start_again_iff (S : Setting) (args : ℕ) (argp : Option PatchworkLaunchArgs)
    (options : PatchworkConfigOptions) (c : Configured) (w w₁ : World) (g : GameNumber)
    (h : Recognising S args argp options c w w₁ g) :
    ∃ w', start S args argp w = some w' ∧
      (getLBPGameNumber w'.mem = g ↔ markLeft S options g w₁.mem = (mark g).2) := by
  obtain ⟨w₅, w', hw', hmem, hannounced⟩ := h.patched
  exact ⟨w', hw', hmem ▸ hannounced.again_iff h.placed h.agent.1 h.known h.game⟩

-- The first game, patched by version 2.0.
theorem recognising : Recognising (stringSetting shortUrl) 0 none (stringOptions shortUrl)
    (strings shortUrl) firstGame (readWorld shortUrl) .lbp1 where
  toLaunched := launched (.inl rfl)
  apart := by
    unfold Spread
    decide +kernel
  agent := by decide

theorem start_again_iff_first : ∃ w', start (stringSetting shortUrl) 0 none firstGame = some w' ∧
    (getLBPGameNumber w'.mem = .lbp1 ↔
      markLeft (stringSetting shortUrl) (stringOptions shortUrl) .lbp1 (readWorld shortUrl).mem =
        (mark .lbp1).2) :=
  start_again_iff _ _ _ _ _ _ _ _ recognising

theorem start_not_again : ¬ ∀ (S : Setting) (args : ℕ) (argp : Option PatchworkLaunchArgs)
    (options : PatchworkConfigOptions) (c : Configured) (w w₁ : World) (g : GameNumber),
    Recognising S args argp options c w w₁ g →
    ∃ w', start S args argp w = some w' ∧ getLBPGameNumber w'.mem = g := by
  intro h
  obtain ⟨w', hw', hagain⟩ := h _ _ _ _ _ _ _ _ recognising
  obtain ⟨w₅, w'', hw'', hmem, hannounced⟩ := recognising.patched
  obtain rfl : w' = w'' := Option.some.inj (hw'.symm.trans hw'')
  rw [hmem, hannounced.again_iff recognising.placed recognising.agent.1 recognising.known
    recognising.game] at hagain
  exact absurd hagain (by decide +kernel)

end Patchwork.Detection
