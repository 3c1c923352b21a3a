import Mathlib.Data.List.Pairwise
import Patchwork.Util

/-!
# The runtime patch tables

The rows of `patches.c` with the addresses of `offsets.h`, and their application.
Rows are applied one after the other. Where no target covers a source or a
pointer, that comes to storing the bytes the sources held at the start.
-/

namespace Patchwork.Patches
open ByteMemory Console

inductive GameNumber where
  | unknown
  | lbp1
  | lbp2
  | lbp3
  | lbp3JP
deriving DecidableEq, Repr

inductive PatchType where
  | direct
  | indirect
deriving DecidableEq, Repr

structure GamePatch where
  offset : ℕ
  source : ℕ
  size : ℕ
  type : PatchType
deriving DecidableEq, Repr

def lbpPs3ProdUrlLength : ℕ := 70
def lbpDigestLength : ℕ := 18
def lbpNetworkKeySize : ℕ := 16
def lbpUserAgentLength : ℕ := 22

def lbp1NetworkKeyOffset : ℕ := 0x0074C418
def lbp1UserAgentOffset : ℕ := 0x0079FDA0
def lbp1HttpsUrlOffset : ℕ := 0x00767C40
def lbp1HttpUrlOffset : ℕ := 0x00767CF8
def lbp1DigestOffset : ℕ := 0x0079FBC0
def lbp1PlaylistOffset : ℕ := 0x0074C2C0
def lbp1ResourceCheckOffset : ℕ := 0x00081BC8
def lbp1ForceJoinPatchOffset : ℕ := 0x003ab70c
def lbp1ForceJoinPatchLength : ℕ := 64

def lbp2NetworkKeyOffset : ℕ := 0x00C248CC
def lbp2UserAgentOffset : ℕ := 0x00C36320
def lbp2HttpsUrlOffset : ℕ := 0x00C51B68
def lbp2HttpUrlOffset : ℕ := 0x00C51C08
def lbp2DigestOffset : ℕ := 0x00C361D0
def lbp2NotificationEnableOffset : ℕ := 0x0023B398
def lbp2ResourceCheckOffset : ℕ := 0x00153D74
def lbp2ForceJoinPatchOffset : ℕ := 0x00285fb8
def lbp2ForceJoinPatchLength : ℕ := 120

def lbp3NetworkKeyOffset : ℕ := 0x00D9D21C
def lbp3UserAgentOffset : ℕ := 0x00D8BF50
def lbp3HttpsUrlOffset : ℕ := 0x00D9E5D8
def lbp3HttpUrlOffset : ℕ := 0x00D9E4C4
def lbp3DigestOffset : ℕ := 0x00D8BD08
def lbp3PresenceUrlOffset : ℕ := 0x00D9E53C
def lbp3LiveUrlOffset : ℕ := 0x00D9E58C
def lbp3NotificationEnableOffset : ℕ := 0x002C15D0
def lbp3ResourceCheckOffset : ℕ := 0x001CFC6C
def lbp3ForceJoinPatchOffset : ℕ := 0x0030561C
def lbp3ForceJoinPatchLength : ℕ := 112

def lbp3JPNetworkKeyOffset : ℕ := 0x00D8305C
def lbp3JPUserAgentOffset : ℕ := 0x00D71DE8
def lbp3JPHttpsUrlOffset : ℕ := 0x00D84338
def lbp3JPHttpUrlOffset : ℕ := 0x00D84224
def lbp3JPDigestOffset : ℕ := 0x00D71BA0
def lbp3JPPresenceUrlOffset : ℕ := 0x00D8429C
def lbp3JPLiveUrlOffset : ℕ := 0x00D842EC
def lbp3JPNotificationEnableOffset : ℕ := 0x002BF520
def lbp3JPResourceCheckOffset : ℕ := 0x001CFB08
def lbp3JPForceJoinPatchOffset : ℕ := 0x00301e34
def lbp3JPForceJoinPatchLength : ℕ := 112

structure Globals where
  networkKey : ℕ
  userAgent : ℕ
  serverURL : ℕ
  serverDigest : ℕ
  lbp1PlaylistOverride : ℕ
  scriptHookInstruction : ℕ
  notificationEnableInstruction : ℕ
  lbp1ForceJoinPatch : ℕ
  lbp2ForceJoinPatch : ℕ
  lbp3ForceJoinPatch : ℕ
  lbp3JPForceJoinPatch : ℕ
  lbp1ScriptHook : ℕ
  lbp2ScriptHook : ℕ
  lbp3ScriptHook : ℕ
  lbp3JPScriptHook : ℕ

section Tables
variable (G : Globals)

def lbp1Patches : List GamePatch := [
  ⟨lbp1NetworkKeyOffset, G.networkKey, lbpNetworkKeySize, .indirect⟩,
  ⟨lbp1UserAgentOffset, G.userAgent, lbpUserAgentLength, .indirect⟩,
  ⟨lbp1HttpsUrlOffset, G.serverURL, lbpPs3ProdUrlLength, .indirect⟩,
  ⟨lbp1HttpUrlOffset, G.serverURL, lbpPs3ProdUrlLength, .indirect⟩,
  ⟨lbp1DigestOffset, G.serverDigest, lbpDigestLength, .indirect⟩,
  ⟨lbp1PlaylistOffset, G.lbp1PlaylistOverride, 1, .direct⟩,
  ⟨lbp1ResourceCheckOffset, G.scriptHookInstruction, 4, .direct⟩,
  ⟨lbp1ForceJoinPatchOffset, G.lbp1ForceJoinPatch, lbp1ForceJoinPatchLength, .direct⟩]

def lbp2Patches : List GamePatch := [
  ⟨lbp2NetworkKeyOffset, G.networkKey, lbpNetworkKeySize, .indirect⟩,
  ⟨lbp2UserAgentOffset, G.userAgent, lbpUserAgentLength, .indirect⟩,
  ⟨lbp2HttpsUrlOffset, G.serverURL, lbpPs3ProdUrlLength, .indirect⟩,
  ⟨lbp2HttpUrlOffset, G.serverURL, lbpPs3ProdUrlLength, .indirect⟩,
  ⟨lbp2DigestOffset, G.serverDigest, lbpDigestLength, .indirect⟩,
  ⟨lbp2NotificationEnableOffset, G.notificationEnableInstruction, 4, .direct⟩,
  ⟨lbp2ResourceCheckOffset, G.scriptHookInstruction, 4, .direct⟩,
  ⟨lbp2ForceJoinPatchOffset, G.lbp2ForceJoinPatch, lbp2ForceJoinPatchLength, .direct⟩]

def lbp3Patches : List GamePatch := [
  ⟨lbp3NetworkKeyOffset, G.networkKey, lbpNetworkKeySize, .indirect⟩,
  ⟨lbp3UserAgentOffset, G.userAgent, lbpUserAgentLength, .indirect⟩,
  ⟨lbp3HttpsUrlOffset, G.serverURL, lbpPs3ProdUrlLength, .indirect⟩,
  ⟨lbp3HttpUrlOffset, G.serverURL, lbpPs3ProdUrlLength, .indirect⟩,
  ⟨lbp3PresenceUrlOffset, G.serverURL, lbpPs3ProdUrlLength, .indirect⟩,
  ⟨lbp3LiveUrlOffset, G.serverURL, lbpPs3ProdUrlLength, .indirect⟩,
  ⟨lbp3DigestOffset, G.serverDigest, lbpDigestLength, .indirect⟩,
  ⟨lbp3NotificationEnableOffset, G.notificationEnableInstruction, 4, .direct⟩,
  ⟨lbp3ResourceCheckOffset, G.scriptHookInstruction, 4, .direct⟩,
  ⟨lbp3ForceJoinPatchOffset, G.lbp3ForceJoinPatch, lbp3ForceJoinPatchLength, .direct⟩]

def lbp3JPPatches : List GamePatch := [
  ⟨lbp3JPNetworkKeyOffset, G.networkKey, lbpNetworkKeySize, .indirect⟩,
  ⟨lbp3JPUserAgentOffset, G.userAgent, lbpUserAgentLength, .indirect⟩,
  ⟨lbp3JPHttpsUrlOffset, G.serverURL, lbpPs3ProdUrlLength, .indirect⟩,
  ⟨lbp3JPHttpUrlOffset, G.serverURL, lbpPs3ProdUrlLength, .indirect⟩,
  ⟨lbp3JPPresenceUrlOffset, G.serverURL, lbpPs3ProdUrlLength, .indirect⟩,
  ⟨lbp3JPLiveUrlOffset, G.serverURL, lbpPs3ProdUrlLength, .indirect⟩,
  ⟨lbp3JPDigestOffset, G.serverDigest, lbpDigestLength, .indirect⟩,
  ⟨lbp3JPNotificationEnableOffset, G.notificationEnableInstruction, 4, .direct⟩,
  ⟨lbp3JPResourceCheckOffset, G.scriptHookInstruction, 4, .direct⟩,
  ⟨lbp3JPForceJoinPatchOffset, G.lbp3JPForceJoinPatch, lbp3JPForceJoinPatchLength, .direct⟩]

def patches : GameNumber → List GamePatch
  | .unknown => []
  | .lbp1 => lbp1Patches G
  | .lbp2 => lbp2Patches G
  | .lbp3 => lbp3Patches G
  | .lbp3JP => lbp3JPPatches G

end Tables

def applyRow (p : GamePatch) (m : Mem) : Mem :=
  match p.type with
  | .indirect =>
    let source := load32 m p.source
    if source ≠ 0 then copy m p.offset source p.size else m
  | .direct => if p.source ≠ 0 then copy m p.offset p.source p.size else m

def rowLog (p : GamePatch) (w : World) : World :=
  match p.type with
  | .indirect =>
    if load32 w.mem p.source ≠ 0 then logLn "Applying indirect patch to offset 0x%X" w else w
  | .direct => if p.source ≠ 0 then logLn "Applying direct patch to offset 0x%X" w else w

def applyGamePatches : List GamePatch → World → World
  | [], w => w
  | p :: ps, w =>
    if p.offset = 0 then w
    else applyGamePatches ps { rowLog p w with mem := applyRow p w.mem }

def getLBPGameNumber (m : Mem) : GameNumber :=
  if m (lbp1UserAgentOffset + 15) = 36 then .lbp1
  else if m (lbp2UserAgentOffset + 18) = 50 then .lbp2
  else if m (lbp3UserAgentOffset + 18) = 50 then .lbp3
  else if m (lbp3JPUserAgentOffset + 18) = 50 then .lbp3JP
  else .unknown

def opcodeB : ℕ := 0x48000000

def relativeBranch (destination origin : ℕ) : ℕ :=
  (opcodeB + (destination + 2 ^ 32 - origin % 2 ^ 32) % 2 ^ 26) % 2 ^ 32

/-- The address a row copies from; 0 if it copies nothing. -/
def origin (m : Mem) (p : GamePatch) : ℕ :=
  match p.type with
  | .indirect => load32 m p.source
  | .direct => p.source

def delivered (m : Mem) (p : GamePatch) : List UInt8 :=
  load m (if origin m p = 0 then p.offset else origin m p) p.size

section Row
variable {p q : GamePatch} {m : Mem} {a n : ℕ}

theorem applyRow_eq (p : GamePatch) (m : Mem) :
    applyRow p m = if origin m p = 0 then m else copy m p.offset (origin m p) p.size := by
  unfold applyRow origin
  cases p.type with
  | indirect =>
    dsimp only
    split_ifs <;> first | rfl | contradiction
  | direct =>
    dsimp only
    split_ifs <;> first | rfl | contradiction

theorem load_applyRow (h : Apart a n p.offset p.size) : load (applyRow p m) a n = load m a n := by
  rw [applyRow_eq]
  split_ifs
  · rfl
  · exact load_store_apart m _ (by simpa using h)

theorem load_applyRow_self : load (applyRow p m) p.offset p.size = delivered m p := by
  rw [applyRow_eq, delivered]
  split_ifs with h0
  · rfl
  · have hload := load_store_same m (a := p.offset) (load m (origin m p) p.size)
    simpa [copy] using hload

theorem applyRow_of_delivered (h : delivered m p = load m p.offset p.size) :
    applyRow p m = m := by
  rw [applyRow_eq]
  split_ifs with h0
  · rfl
  · rw [delivered, if_neg h0] at h
    rw [copy, h, store_load_self]

theorem origin_applyRow (h : q.type = .indirect → Apart q.source 4 p.offset p.size) :
    origin (applyRow p m) q = origin m q := by
  unfold origin
  cases ht : q.type with
  | indirect =>
    simp only [load32]
    rw [load_applyRow (h ht)]
  | direct => rfl

end Row

structure Undisturbed (m : Mem) (ps : List GamePatch) (q : GamePatch) : Prop where
  pointer : q.type = .indirect → ∀ p ∈ ps, Apart q.source 4 p.offset p.size
  source : origin m q ≠ 0 → ∀ p ∈ ps, Apart (origin m q) q.size p.offset p.size

def Spaced (ps : List GamePatch) : Prop :=
  ps.Pairwise fun p q => Apart p.offset (p.size + 1) q.offset (q.size + 1)

section Table
variable {ps : List GamePatch} {q : GamePatch} {w : World} {a n : ℕ}

theorem applyGamePatches_cons {p : GamePatch} (h : p.offset ≠ 0) :
    applyGamePatches (p :: ps) w =
      applyGamePatches ps { rowLog p w with mem := applyRow p w.mem } := if_neg h

/-- A relation that chains and that holds over each row holds over the table. -/
theorem applyGamePatches_rel {R : World → World → Prop} (refl : ∀ w, R w w)
    (trans : ∀ {w w₁ w₂}, R w w₁ → R w₁ w₂ → R w w₂)
    (row : ∀ p ∈ ps, ∀ w, R w { rowLog p w with mem := applyRow p w.mem }) :
    R w (applyGamePatches ps w) := by
  induction ps generalizing w with
  | nil => exact refl w
  | cons p ps ih =>
    unfold applyGamePatches
    split
    · exact refl w
    · exact trans (row p List.mem_cons_self w) (ih fun q hq => row q (List.mem_cons_of_mem _ hq))

theorem load_applyGamePatches (h : ∀ p ∈ ps, Apart a n p.offset p.size) :
    load (applyGamePatches ps w).mem a n = load w.mem a n :=
  applyGamePatches_rel (R := fun w w' => load w'.mem a n = load w.mem a n) (fun _ => rfl)
    (fun h h' => h'.trans h) fun p hp _ => load_applyRow (h p hp)

theorem Undisturbed.tail {p : GamePatch} {m : Mem} (h : Undisturbed m (p :: ps) q) :
    Undisturbed (applyRow p m) ps q := by
  have ho : origin (applyRow p m) q = origin m q :=
    origin_applyRow fun ht => h.pointer ht p List.mem_cons_self
  refine ⟨fun ht r hr => h.pointer ht r (List.mem_cons_of_mem _ hr), fun h0 r hr => ?_⟩
  rw [ho] at h0 ⊢
  exact h.source h0 r (List.mem_cons_of_mem _ hr)

theorem Undisturbed.delivered {p : GamePatch} {m : Mem} (h : Undisturbed m (p :: ps) q)
    (ht : Apart q.offset q.size p.offset p.size) :
    delivered (applyRow p m) q = delivered m q := by
  unfold Patches.delivered
  rw [origin_applyRow fun hi => h.pointer hi p List.mem_cons_self]
  split_ifs with h0
  · exact load_applyRow ht
  · exact load_applyRow (h.source h0 p List.mem_cons_self)

theorem load_target (hs : Spaced ps) (hoff : ∀ p ∈ ps, p.offset ≠ 0) (hq : q ∈ ps)
    (h : Undisturbed w.mem ps q) :
    load (applyGamePatches ps w).mem q.offset q.size = delivered w.mem q := by
  induction ps generalizing w with
  | nil => cases hq
  | cons p ps ih =>
    obtain ⟨hp, hs⟩ := List.pairwise_cons.mp hs
    rw [applyGamePatches_cons (hoff p List.mem_cons_self)]
    rcases List.mem_cons.mp hq with rfl | hmem
    · rw [load_applyGamePatches fun r hr => (hp r hr).mono (Nat.le_succ _) (Nat.le_succ _)]
      exact load_applyRow_self
    · rw [ih hs (fun r hr => hoff r (List.mem_cons_of_mem _ hr)) hmem h.tail]
      exact h.delivered ((hp q hmem).mono (Nat.le_succ _) (Nat.le_succ _)).symm

theorem applyGamePatches_of_delivered
    (h : ∀ q ∈ ps, delivered w.mem q = load w.mem q.offset q.size) :
    (applyGamePatches ps w).mem = w.mem := by
  induction ps generalizing w with
  | nil => rfl
  | cons p ps ih =>
    have hkept : applyRow p w.mem = w.mem := applyRow_of_delivered (h p List.mem_cons_self)
    unfold applyGamePatches
    split
    · rfl
    · rw [hkept]
      exact ih fun q hq => h q (List.mem_cons_of_mem _ hq)

theorem after_target (hs : Spaced ps) (hq : q ∈ ps) :
    (applyGamePatches ps w).mem (q.offset + q.size) = w.mem (q.offset + q.size) := by
  have : Std.Symm fun p q : GamePatch => Apart p.offset (p.size + 1) q.offset (q.size + 1) :=
    ⟨fun _ _ h => h.symm⟩
  have hload : load (applyGamePatches ps w).mem (q.offset + q.size) 1 =
      load w.mem (q.offset + q.size) 1 := by
    refine load_applyGamePatches fun p hp => ?_
    by_cases hne : q = p
    · subst hne
      exact .inr (Nat.le_refl _)
    · have hapart := List.Pairwise.forall hs hq hp hne
      unfold Apart at *
      omega
  simpa [load] using hload

end Table

def targets (g : GameNumber) : List (ℕ × ℕ) :=
  (patches ⟨0, 0, 0, 0, 0, 0, 0, 0, 0, 0, 0, 0, 0, 0, 0⟩ g).map fun p => (p.offset, p.size)

theorem map_patches (G : Globals) (g : GameNumber) :
    (patches G g).map (fun p => (p.offset, p.size)) = targets g := by
  cases g <;> rfl

theorem patches_spaced (G : Globals) (g : GameNumber) : Spaced (patches G g) := by
  have h : (targets g).Pairwise fun p q => Apart p.1 (p.2 + 1) q.1 (q.2 + 1) := by
    cases g <;> decide
  rw [← map_patches G] at h
  exact List.pairwise_map.mp h

theorem patches_offset_ne_zero (G : Globals) (g : GameNumber) :
    ∀ p ∈ patches G g, p.offset ≠ 0 := by
  have h : ∀ t ∈ targets g, t.1 ≠ 0 := by
    cases g <;> decide
  rw [← map_patches G] at h
  exact fun p hp => h _ (List.mem_map_of_mem hp)

end Patchwork.Patches
