import Patchwork.Detection
import Patchwork.TableFrame

/-!
# What a table brings

The table of `start` copies what the run has set up just before: the hash of the join
key, the user agent, the trimmed strings, two instruction words, and code of the module.
Each row's bytes are given by the version, the configuration and the addresses, and by
memory as it was before the run.
-/

namespace Patchwork.TableBytes
open ByteMemory Console Util Patches Prx ConfiguredStrings Detection TableFrame

section Rows
variable (S : Setting) (options : PatchworkConfigOptions) (c : Configured) (g : GameNumber)
  (m : Mem)

def hookWord : GameNumber → ℕ
  | .unknown => 0
  | .lbp1 => relativeBranch S.globals.lbp1ScriptHook lbp1ResourceCheckOffset
  | .lbp2 => relativeBranch S.globals.lbp2ScriptHook lbp2ResourceCheckOffset
  | .lbp3 => relativeBranch S.globals.lbp3ScriptHook lbp3ResourceCheckOffset
  | .lbp3JP => relativeBranch S.globals.lbp3JPScriptHook lbp3JPResourceCheckOffset

def notificationWord : GameNumber → ℕ
  | .unknown => 0
  | .lbp1 => 0
  | .lbp2 => 0x38000000
  | .lbp3 => 0x38600000
  | .lbp3JP => 0x38600000

/-- What a row of the table copies to the game, if anything: the hash of the join key where one
is used, the user agent with what the stack held behind it, a string as trimming leaves it, an
instruction word, or what is at the row's source. -/
def brought (q : GamePatch) : Option (List UInt8) :=
  match q.type with
  | .indirect =>
    if q.source = S.globals.networkKey then
      if options.enableJoinKey ≠ 0 then
        some ((S.env.sha256 (keyText S c)).toList.take q.size)
      else none
    else if q.source = S.globals.userAgent then
      some (load (snprintf S.frame.userAgent 64 (userAgentText S options (gameDigit g)) m)
        S.frame.userAgent q.size)
    else if q.source = S.globals.serverURL then
      c.url.map fun s => load (c.trim options m) s.addr q.size
    else c.digest.map fun s => load (c.trim options m) s.addr q.size
  | .direct =>
    if q.source = S.globals.scriptHookInstruction then some (be32 (hookWord S g))
    else if q.source = S.globals.notificationEnableInstruction then
      some (be32 (notificationWord g))
    else if q.source = 0 then none
    else some (load m q.source q.size)

def copiedText : List (ℕ × ℕ) :=
  c.url.toList.map (fun s => (s.addr, lbpPs3ProdUrlLength)) ++
    c.digest.toList.map fun s => (s.addr, lbpDigestLength)

def copiedCode : GameNumber → List (ℕ × ℕ)
  | .unknown => []
  | .lbp1 => [(S.globals.lbp1PlaylistOverride, 1),
      (S.globals.lbp1ForceJoinPatch, lbp1ForceJoinPatchLength)]
  | .lbp2 => [(S.globals.lbp2ForceJoinPatch, lbp2ForceJoinPatchLength)]
  | .lbp3 => [(S.globals.lbp3ForceJoinPatch, lbp3ForceJoinPatchLength)]
  | .lbp3JP => [(S.globals.lbp3JPForceJoinPatch, lbp3JPForceJoinPatchLength)]

/-- Memory before a run whose table brings what it should: the pointers are null, the
variables do not overlap, and what the rows copy lies apart from what is written. -/
structure Sited : Prop where
  placed : Placed S options c g
  apart : Spread S options c
  text : Clear (copiedText c) (pointerPlaces S ++ scratch S options ++ targets g)
  code : Clear (copiedCode S g) (ownPlaces S options c ++ targets g)
  fresh : Fresh S m
  key : load32 m S.globals.networkKey = 0
  hash : S.frame.joinKeyHash ≠ 0 ∧ S.frame.joinKeyHash < 2 ^ 32
  agent : S.frame.userAgent ≠ 0 ∧ S.frame.userAgent < 2 ^ 32
  words : S.globals.scriptHookInstruction ≠ 0 ∧ S.globals.notificationEnableInstruction ≠ 0

end Rows

section Supplies
variable {S : Setting} {options : PatchworkConfigOptions} {c : Configured} {g : GameNumber}
  {m₀ m : Mem} {q : GamePatch}

/-- In `m` a row has these bytes to copy, clear of the table's targets, or has none. -/
def Supplies (ps : List GamePatch) (m : Mem) (q : GamePatch) : Option (List UInt8) → Prop
  | none => origin m q = 0
  | some bytes => origin m q ≠ 0 ∧ load m (origin m q) q.size = bytes ∧
      ∀ p ∈ ps, Apart (origin m q) q.size p.offset p.size

theorem direct_rows (hq : q ∈ patches S.globals g) (ht : q.type = .direct) :
    (q.source = S.globals.scriptHookInstruction ∧ q.size = 4) ∨
      (q.source = S.globals.notificationEnableInstruction ∧ q.size = 4 ∧ g ≠ .lbp1) ∨
      (q.source, q.size) ∈ copiedCode S g ∧ 0 < q.size := by
  cases g <;>
    simp only [patches, lbp1Patches, lbp2Patches, lbp3Patches, lbp3JPPatches, List.mem_cons,
      List.not_mem_nil, or_false] at hq <;>
    rcases hq with rfl | rfl | rfl | rfl | rfl | rfl | rfl | rfl | rfl | rfl <;>
    simp [copiedCode, lbp1ForceJoinPatchLength, lbp2ForceJoinPatchLength,
      lbp3ForceJoinPatchLength, lbp3JPForceJoinPatchLength] at ht ⊢

theorem load_stringsSet (read : c.Read options m₀) (placed : Placed S options c g) {r : ℕ × ℕ}
    (hr : r ∈ scratch S options) :
    load (stringsSet S options c m₀) r.1 r.2 = load (keySet S options c m₀) r.1 r.2 := by
  have hrs : r ∈ pointerPlaces S ++ scratch S options := List.mem_append_right _ hr
  have hurl := placed.string_clear read.url (.inl rfl)
  have hdigest := placed.string_clear read.digest (.inr rfl)
  have hcells : ∀ s ∈ pointerPlaces S, Apart r.1 r.2 s.1 s.2 := fun s hs =>
    (placed.cells s hs r (List.mem_append_right _ hr)).symm
  rw [stringsSet, (pointed_changes _ _ _).load, (pointed_changes _ _ _).load]
  all_goals
    intro s hs
    rcases List.mem_append.mp hs with hs | hs
    · first | exact (hurl s hs r hrs).symm | exact (hdigest s hs r hrs).symm
    · obtain rfl := List.mem_singleton.mp hs
      exact hcells _ (by simp [pointerPlaces])

theorem Sited.clear (sited : Sited S options c g m₀) {a n : ℕ} {r : ℕ × ℕ}
    (hr : r ∈ ownPlaces S options c) (ha : r.1 = a) (hn : n ≤ r.2) :
    ∀ p ∈ patches S.globals g, Apart a n p.offset p.size := fun _ hp =>
  ha ▸ (sited.placed.game _ (gamePlaces_target hp) r (List.mem_append_right _ hr)).symm.mono hn
    (Nat.le_succ _)

theorem mem_targets {p : GamePatch} (hp : p ∈ patches S.globals g) :
    (p.offset, p.size) ∈ targets g := by
  rw [← map_patches S.globals]
  exact List.mem_map_of_mem hp

theorem load_selectGame_hook (g : GameNumber) (m : Mem) (known : g ≠ .unknown) :
    load (selectGame S g m) S.globals.scriptHookInstruction 4 = be32 (hookWord S g) := by
  cases g with
  | unknown => exact absurd rfl known
  | _ => exact load_store_same _ (be32 _)

theorem load_selectGame_notification
    (h : Apart S.globals.notificationEnableInstruction 4 S.globals.scriptHookInstruction 4)
    (m : Mem) (known : g ≠ .unknown) (hg : g ≠ .lbp1) :
    load (selectGame S g m) S.globals.notificationEnableInstruction 4 =
      be32 (notificationWord g) := by
  have hkept (v : ℕ) (m : Mem) : load (store32 S.globals.scriptHookInstruction v m)
      S.globals.notificationEnableInstruction 4 =
        load m S.globals.notificationEnableInstruction 4 := load_store_apart _ _ h
  cases g with
  | unknown => exact absurd rfl known
  | lbp1 => exact absurd rfl hg
  | _ => exact (hkept _ _).trans (load_store_same _ (be32 _))

theorem known_of_mem (hq : q ∈ patches S.globals g) : g ≠ .unknown := by
  rintro rfl
  cases hq

theorem pointer_place (hq : q ∈ patches S.globals g) (ht : q.type = .indirect) :
    ∃ r ∈ ownPlaces S options c, r.1 = q.source ∧ r.2 = 4 := by
  refine ⟨(q.source, 4), ?_, rfl, rfl⟩
  rcases indirect_rows S.globals g hq ht with h | h | h | h <;>
    simp [ownPlaces, scratch, keyPlaces, pointerPlaces, announcePlaces, h.1]

theorem cell_ne {a b : ℕ} (h : Apart a 4 b 4) : a ≠ b := by
  unfold Apart at h
  omega

section Prepared
variable (prepared : Prepared S options c g m₀ m) (sited : Sited S options c g m₀)
include prepared sited

theorem load_words : load m S.globals.scriptHookInstruction 4 =
      load (selectGame S g (stringsSet S options c m₀)) S.globals.scriptHookInstruction 4 ∧
    load m S.globals.notificationEnableInstruction 4 =
      load (selectGame S g (stringsSet S options c m₀))
        S.globals.notificationEnableInstruction 4 := by
  have hchanges : ChangesIn (announcePlaces S options)
      (selectGame S g (stringsSet S options c m₀)) m :=
    (agentSet_changes S options g _).trans (prepared.mono (by simp [announcePlaces]))
  have hclear := sited.apart.places.2.2.2
  exact ⟨hchanges.load (hclear (S.globals.scriptHookInstruction, 4) (by simp [hookPlaces])),
    hchanges.load (hclear (S.globals.notificationEnableInstruction, 4) (by simp [hookPlaces]))⟩

theorem supplies_direct (hq : q ∈ patches S.globals g) (ht : q.type = .direct) :
    Supplies (patches S.globals g) m q (brought S options c g m₀ q) := by
  obtain ⟨hhook, hnotify⟩ := load_words prepared sited
  have hwords := sited.apart.places.2.1
  have horigin : origin m q = q.source := by rw [origin, ht]
  have hword {a : ℕ} (ha : (a, 4) ∈ hookPlaces S) :
      ∀ p ∈ patches S.globals g, Apart a 4 p.offset p.size :=
    sited.clear (r := (a, 4)) (by simp [ownPlaces, scratch, ha]) rfl (Nat.le_refl _)
  rw [brought, ht]
  dsimp only
  rcases direct_rows hq ht with ⟨hs, hn⟩ | ⟨hs, hn, hg⟩ | ⟨hcode, hn⟩
  · rw [if_pos hs, Supplies, horigin, hs, hn, hhook]
    exact ⟨sited.words.1, load_selectGame_hook g _ (known_of_mem hq),
      hword (by simp [hookPlaces])⟩
  · rw [if_neg (hs ▸ cell_ne hwords), if_pos hs, Supplies, horigin, hs, hn, hnotify]
    exact ⟨sited.words.2, load_selectGame_notification hwords _ (known_of_mem hq) hg,
      hword (by simp [hookPlaces])⟩
  · have hclear := sited.code _ hcode
    have hne {a : ℕ} (ha : (a, 4) ∈ hookPlaces S) : q.source ≠ a := by
      have hapart := hclear (a, 4) (by simp [ownPlaces, scratch, ha])
      unfold Apart at hapart
      omega
    rw [if_neg (hne (by simp [hookPlaces])), if_neg (hne (by simp [hookPlaces]))]
    split_ifs with h0
    · exact horigin.trans h0
    · rw [Supplies, horigin]
      exact ⟨h0, prepared.own.load fun r hr => hclear r (List.mem_append_left _ hr),
        fun p hp => hclear _ (List.mem_append_right _ (mem_targets hp))⟩

variable (read : c.Read options m₀)
include read

theorem supplies_key (ht : q.type = .indirect) (hs : q.source = S.globals.networkKey)
    (hn : q.size ≤ 32) :
    Supplies (patches S.globals g) m q (brought S options c g m₀ q) := by
  obtain ⟨hcells, -, hkey, -⟩ := sited.apart.places
  have hsame {r : ℕ × ℕ} (hr : r ∈ keyPlaces S) :
      load m r.1 r.2 = load (keySet S options c m₀) r.1 r.2 := by
    rw [prepared.announced.load (hkey r hr)]
    exact load_stringsSet read sited.placed (by simp [scratch, hr])
  have hpointer : load32 m S.globals.networkKey =
      load32 (keySet S options c m₀) S.globals.networkKey :=
    congrArg ofBe32 (hsame (r := (S.globals.networkKey, 4)) (by simp [keyPlaces]))
  have horigin : origin m q = load32 m S.globals.networkKey := by rw [origin, ht, ← hs]
  have hbytes := hsame (r := (S.frame.joinKeyHash, 32)) (by simp [keyPlaces])
  have hbrought : brought S options c g m₀ q = if options.enableJoinKey ≠ 0 then
      some ((S.env.sha256 (keyText S c)).toList.take q.size) else none := by
    rw [brought, ht]
    exact if_pos hs
  rw [hbrought, Supplies.eq_def, horigin, hpointer]
  unfold keySet at hbytes ⊢
  split_ifs at hbytes ⊢ with henabled
  · dsimp only
    rw [store32, load32_store _ sited.hash.2]
    refine ⟨sited.hash.1, ?_, sited.clear (r := (S.frame.joinKeyHash, 32))
      (by simp [ownPlaces, scratch, keyPlaces]) rfl hn⟩
    rw [← load_take m hn, hbytes, store32, load_store_apart _ _ hcells]
    have hstored := load_store_same (cutAt c.joinKey m₀) (a := S.frame.joinKeyHash)
      (S.env.sha256 (keyText S c)).toList
    simp only [Vector.length_toList] at hstored
    rw [hstored]
  · exact sited.key

theorem supplies_agent (ht : q.type = .indirect) (hs : q.source = S.globals.userAgent)
    (hn : q.size ≤ 64) :
    Supplies (patches S.globals g) m q (brought S options c g m₀ q) := by
  obtain ⟨hpointer, hbytes⟩ := agent_bytes read sited.placed sited.apart sited.agent.2 prepared
  have hne : S.globals.userAgent ≠ S.globals.networkKey := (cell_ne (sited.apart.places.2.2.1
    (S.globals.networkKey, 4) (by simp [keyPlaces]) (S.globals.userAgent, 4)
      (by simp [announcePlaces]))).symm
  have hbrought : brought S options c g m₀ q = some (load (snprintf S.frame.userAgent 64
      (userAgentText S options (gameDigit g)) m₀) S.frame.userAgent q.size) := by
    rw [brought, ht]
    exact (if_neg (hs ▸ hne)).trans (if_pos hs)
  have horigin : origin m q = S.frame.userAgent := by rw [origin, ht, ← hpointer, ← hs]
  rw [hbrought, Supplies, horigin]
  refine ⟨sited.agent.1, ?_, sited.clear (r := (S.frame.userAgent, 64))
    (by simp [ownPlaces, scratch, announcePlaces]) rfl hn⟩
  rw [← load_take m hn, hbytes, load_take _ hn]

theorem supplies_string (ht : q.type = .indirect) {string : Option ConfigString}
    (hmem : string = c.url ∨ string = c.digest)
    (hbrought : brought S options c g m₀ q =
      string.map fun s => load (c.trim options m₀) s.addr q.size)
    (hpointer : load32 m q.source = pointerTo string)
    (hcopied : ∀ s, string = some s → (s.addr, q.size) ∈ copiedText c) :
    Supplies (patches S.globals g) m q (brought S options c g m₀ q) := by
  have horigin : origin m q = pointerTo string := by rw [origin, ht, ← hpointer]
  rw [hbrought, Supplies.eq_def, horigin]
  cases string with
  | none => rfl
  | some s =>
    have hclear := sited.text _ (hcopied s rfl)
    have hin := read.in_of_mem (s := s) (by rcases hmem with he | he <;> simp [← he])
    refine ⟨hin.nonnull, prepared.trims.load fun r hr => hclear r (List.mem_append_left _ hr),
      fun p hp => hclear _ (List.mem_append_right _ (mem_targets hp))⟩

theorem supplies_indirect (hq : q ∈ patches S.globals g) (ht : q.type = .indirect) :
    Supplies (patches S.globals g) m q (brought S options c g m₀ q) := by
  obtain ⟨hurl, hdigest⟩ := prepared.pointers read sited.placed sited.fresh
  have hcells {a b : ℕ} (ha : (a, 4) ∈ pointerPlaces S) (hb : (b, 4) ∈ scratch S options) :
      a ≠ b := cell_ne (sited.placed.cells (a, 4) ha (b, 4) (List.mem_append_right _ hb))
  have hkey : (S.globals.networkKey, 4) ∈ scratch S options := by simp [scratch, keyPlaces]
  have hagent : (S.globals.userAgent, 4) ∈ scratch S options := by simp [scratch, announcePlaces]
  have hurlCell : (S.globals.serverURL, 4) ∈ pointerPlaces S := by simp [pointerPlaces]
  have hdigestCell : (S.globals.serverDigest, 4) ∈ pointerPlaces S := by simp [pointerPlaces]
  have hstring (hcell : (q.source, 4) ∈ pointerPlaces S) : brought S options c g m₀ q =
      if q.source = S.globals.serverURL then
        c.url.map fun s => load (c.trim options m₀) s.addr q.size
      else c.digest.map fun s => load (c.trim options m₀) s.addr q.size := by
    rw [brought, ht]
    exact (if_neg (hcells hcell hkey)).trans (if_neg (hcells hcell hagent))
  rcases indirect_rows S.globals g hq ht with ⟨hs, hn⟩ | ⟨hs, hn⟩ | ⟨hs, hn⟩ | ⟨hs, hn⟩
  · exact supplies_key prepared sited read ht hs (by rw [hn]; decide)
  · exact supplies_agent prepared sited read ht hs (by rw [hn]; decide)
  · have hcell : (q.source, 4) ∈ pointerPlaces S := hs ▸ hurlCell
    exact supplies_string prepared sited read ht (.inl rfl)
      ((hstring hcell).trans (if_pos hs)) (hs ▸ hurl) fun s he => by simp [copiedText, he, hn]
  · have hcell : (q.source, 4) ∈ pointerPlaces S := hs ▸ hdigestCell
    have hne : q.source ≠ S.globals.serverURL := hs ▸ (cell_ne sited.placed.pointers).symm
    exact supplies_string prepared sited read ht (.inr rfl)
      ((hstring hcell).trans (if_neg hne)) (hs ▸ hdigest) fun s he => by simp [copiedText, he, hn]

theorem supplies (hq : q ∈ patches S.globals g) :
    Supplies (patches S.globals g) m q (brought S options c g m₀ q) := by
  cases ht : q.type with
  | direct => exact supplies_direct prepared sited hq ht
  | indirect => exact supplies_indirect prepared sited read hq ht

theorem delivered_eq (hq : q ∈ patches S.globals g) :
    delivered m q = (brought S options c g m₀ q).getD (load m₀ q.offset q.size) := by
  have hsupplies := supplies prepared sited read hq
  unfold delivered
  cases hbrought : brought S options c g m₀ q with
  | none =>
    rw [hbrought] at hsupplies
    have h0 : origin m q = 0 := hsupplies
    rw [if_pos h0]
    exact prepared.own.load fun r hr =>
      (sited.placed.game _ (gamePlaces_target hq) r (List.mem_append_right _ hr)).mono
        (Nat.le_succ _) (Nat.le_refl _)
  | some bytes =>
    rw [hbrought] at hsupplies
    rw [if_neg hsupplies.1, hsupplies.2.1, Option.getD_some]

theorem load_patched {w : World} (hw : w.mem = m) (hq : q ∈ patches S.globals g) :
    load (applyGamePatches (patches S.globals g) w).mem q.offset q.size =
      (brought S options c g m₀ q).getD (load m₀ q.offset q.size) := by
  subst hw
  have hsupplies := supplies prepared sited read hq
  rw [load_target (patches_spaced S.globals g) (patches_offset_ne_zero S.globals g) hq,
    delivered_eq prepared sited read hq]
  refine ⟨fun ht => ?_, fun h0 => ?_⟩
  · obtain ⟨r, hr, hsource⟩ := pointer_place hq ht
    exact sited.clear hr hsource.1 (Nat.le_of_eq hsource.2.symm)
  · cases hbrought : brought S options c g m₀ q with
    | none =>
      rw [hbrought] at hsupplies
      exact absurd hsupplies h0
    | some bytes =>
      rw [hbrought] at hsupplies
      exact hsupplies.2.2

end Prepared

theorem Sited.changes {rs : List (ℕ × ℕ)} (sited : Sited S options c g m₀)
    (h : ChangesIn rs m₀ m) (hclear : Clear (ownPlaces S options c) rs) :
    Sited S options c g m := by
  have hcell {a : ℕ} (ha : (a, 4) ∈ ownPlaces S options c) : load32 m a = load32 m₀ a :=
    congrArg ofBe32 (h.load (hclear (a, 4) ha))
  exact { sited with
    fresh := ⟨(hcell (by simp [ownPlaces, pointerPlaces])).trans sited.fresh.url,
      (hcell (by simp [ownPlaces, pointerPlaces])).trans sited.fresh.digest⟩
    key := (hcell (by simp [ownPlaces, scratch, keyPlaces])).trans sited.key }

theorem brought_changes {rs : List (ℕ × ℕ)} (sited : Sited S options c g m₀)
    (h : ChangesIn rs m₀ m)
    (hclear : Clear (copiedText c ++ copiedCode S g ++ ownPlaces S options c) rs)
    (hq : q ∈ patches S.globals g) :
    brought S options c g m q = brought S options c g m₀ q := by
  have hagent : load m S.frame.userAgent 64 = load m₀ S.frame.userAgent 64 :=
    h.load (hclear (S.frame.userAgent, 64) (by simp [ownPlaces, scratch, announcePlaces]))
  have htrim := trim_congr c options h
  unfold brought
  cases ht : q.type with
  | indirect =>
    have hrows := indirect_rows S.globals g hq ht
    have hne {a : ℕ} (ha : (a, 4) ∈ pointerPlaces S) : a ≠ S.globals.userAgent :=
      cell_ne (sited.placed.cells (a, 4) ha (S.globals.userAgent, 4)
        (by simp [scratch, announcePlaces]))
    have hurlAgent := hne (a := S.globals.serverURL) (by simp [pointerPlaces])
    have hdigestAgent := hne (a := S.globals.serverDigest) (by simp [pointerPlaces])
    have hpointers := cell_ne sited.placed.pointers
    have hstring {string : Option ConfigString}
        (hcopied : ∀ s, string = some s → (s.addr, q.size) ∈ copiedText c) :
        (string.map fun s => load (c.trim options m) s.addr q.size) =
          string.map fun s => load (c.trim options m₀) s.addr q.size := by
      cases string with
      | none => rfl
      | some s =>
        exact congrArg some (htrim.load (hclear (s.addr, q.size) (by simp [hcopied s rfl])))
    dsimp only
    split_ifs with hkey _ hsource hurl
    · rfl
    · rfl
    · have hn : q.size ≤ 64 := by
        rcases hrows with h | h | h | h
        · exact absurd h.1 hkey
        · exact h.2.trans_le (by decide)
        · exact absurd (h.1.symm.trans hsource) hurlAgent
        · exact absurd (h.1.symm.trans hsource) hdigestAgent
      rw [snprintf, snprintf, ← load_take _ hn, load_store_congr _ _ _ hagent, load_take _ hn]
    · refine hstring fun s hs => ?_
      rcases hrows with h | h | h | h
      · exact absurd h.1 hkey
      · exact absurd h.1 hsource
      · simp [copiedText, hs, h.2]
      · exact absurd (hurl.symm.trans h.1) hpointers
    · refine hstring fun s hs => ?_
      rcases hrows with h | h | h | h
      · exact absurd h.1 hkey
      · exact absurd h.1 hsource
      · exact absurd h.1 hurl
      · simp [copiedText, hs, h.2]
  | direct =>
    dsimp only
    split_ifs with hhook hnotify h0
    · rfl
    · rfl
    · rfl
    · rcases direct_rows hq ht with hs | hs | hcode
      · exact absurd hs.1 hhook
      · exact absurd hs.1 hnotify
      · rw [h.load (hclear (q.source, q.size) (by simp [hcode.1]))]

theorem targetRanges_patches (G : Globals) (g : GameNumber) :
    targetRanges (patches G g) = targets g := map_patches G g

theorem patchGame_confined {w : World} (read : c.Read options w.mem)
    (placed : Placed S options c g) (game : getLBPGameNumber w.mem = g) :
    ∃ w', patchGame S options w = some w' ∧
      ChangesIn (ownPlaces S options c ++ targets g) w.mem w'.mem := by
  by_cases known : g = .unknown
  · subst known
    obtain ⟨w', hpatch, hchanges⟩ := patchGame_unknown read placed game
    exact ⟨w', hpatch, hchanges.mono (List.subset_append_left ..)⟩
  · obtain ⟨u, hpatch, prepared⟩ := patchGame_steps read placed game known
    have htable := applyGamePatches_changes (patches S.globals g) u
    rw [targetRanges_patches] at htable
    exact ⟨_, hpatch, (prepared.own.mono (List.subset_append_left ..)).trans
      (htable.mono (List.subset_append_right ..))⟩

theorem patchGame_brings {w : World} (read : c.Read options w.mem)
    (sited : Sited S options c g w.mem) (game : getLBPGameNumber w.mem = g) :
    ∃ w', patchGame S options w = some w' ∧ ∀ q ∈ patches S.globals g,
      load w'.mem q.offset q.size =
        (brought S options c g w.mem q).getD (load w.mem q.offset q.size) := by
  by_cases known : g = .unknown
  · subst known
    obtain ⟨w', hpatch, -⟩ := patchGame_unknown read sited.placed game
    exact ⟨w', hpatch, by simp [patches]⟩
  · obtain ⟨u, hpatch, prepared⟩ := patchGame_steps read sited.placed game known
    exact ⟨_, hpatch, fun q hq => load_patched prepared sited read rfl hq⟩

/-- It leaves the game as it was if and only if each row brings what its target holds. -/
theorem patchGame_keeps_iff {w : World} (read : c.Read options w.mem)
    (sited : Sited S options c g w.mem) (game : getLBPGameNumber w.mem = g) :
    ∃ w', patchGame S options w = some w' ∧ (ChangesIn (ownPlaces S options c) w.mem w'.mem ↔
      ∀ q ∈ patches S.globals g, ∀ bytes, brought S options c g w.mem q = some bytes →
        load w.mem q.offset q.size = bytes) := by
  by_cases known : g = .unknown
  · subst known
    obtain ⟨w', hpatch, hchanges⟩ := patchGame_unknown read sited.placed game
    exact ⟨w', hpatch, iff_of_true hchanges (by simp [patches])⟩
  obtain ⟨u, hpatch, prepared⟩ := patchGame_steps read sited.placed game known
  have hown {m : Mem} (h : ChangesIn (ownPlaces S options c) w.mem m) :
      ∀ q ∈ patches S.globals g, load m q.offset q.size = load w.mem q.offset q.size :=
    fun q hq => h.load fun r hr =>
      (sited.placed.game _ (gamePlaces_target hq) r (List.mem_append_right _ hr)).mono
        (Nat.le_succ _) (Nat.le_refl _)
  refine ⟨_, hpatch, fun h q hq bytes hbytes => ?_, fun h => ?_⟩
  · have hload := load_patched prepared sited read (w := u) rfl hq
    rw [hbytes, hown h q hq] at hload
    exact hload
  · rw [applyGamePatches_of_delivered fun q hq => ?_]
    · exact prepared.own
    · rw [delivered_eq prepared sited read hq, hown prepared.own q hq]
      cases hbrought : brought S options c g w.mem q with
      | none => rfl
      | some bytes => exact (h q hq bytes hbrought).symm

end Supplies

end Patchwork.TableBytes
