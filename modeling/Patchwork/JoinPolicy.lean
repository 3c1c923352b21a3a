import Patchwork.ForceJoinPatch

/-!
# The policy of the force-join blocks

When a join is let in without a question: it comes from the local player, or the
player who asks was invited. The invitation is a float, which the blocks test
with integer compares: three of them against zero, the LBP2 block for being
greater than zero. The two tests part where the sign bit is set.
-/

namespace Patchwork.JoinPolicy
open PowerPC ForceJoinPatch

inductive Game where
  | lbp1
  | lbp2
  | lbp3
  | lbp3JP
deriving DecidableEq, Repr

def Positive (word : BitVec 32) : Prop := word.msb = false ∧ word ≠ 0

instance (word : BitVec 32) : Decidable (Positive word) := inferInstanceAs (Decidable (_ ∧ _))

/-- The policy that the comments of the blocks describe. -/
def Welcome (isLocal : ℕ) (entry word : BitVec 32) : Prop :=
  isLocal = 1 ∨ entry ≠ 0 ∧ Positive word

theorem positive_iff (word : BitVec 32) : Positive word ↔ 0 < word.toInt := by
  have hne : word ≠ 0 ↔ word.toNat ≠ 0 := by
    rw [ne_eq, ← BitVec.toNat_inj]
    rfl
  have hlt := word.isLt
  rw [Positive, hne, BitVec.msb_eq_false_iff_two_mul_lt, BitVec.toInt_eq_toNat_cond]
  split_ifs <;> omega

namespace Game

def block : Game → Block
  | lbp1 => lbp1ForceJoinPatch
  | lbp2 => lbp2ForceJoinPatch
  | lbp3 => lbp3ForceJoinPatch
  | lbp3JP => lbp3JPForceJoinPatch

def find : Game → BitVec 64
  | lbp1 => 0x128b8c
  | lbp2 => 0x264148
  | lbp3 => 0x2eb594
  | lbp3JP => 0x2e821c

def field : Game → BitVec 64
  | lbp1 => 0x108
  | lbp2 => 0xe8
  | lbp3 => 0xf0
  | lbp3JP => 0xf0

def isLocal (m : Machine) : Game → ℕ
  | lbp1 => (lowByte (m.gpr 25)).toNat
  | lbp2 => (lowByte (m.gpr 23)).toNat
  | lbp3 => (low32 (m.gpr 28)).toNat
  | lbp3JP => (low32 (m.gpr 28)).toNat

/-- The join is let in: control leaves at the success path, or `DealWithRequestJoinParty`
is told to skip its checks. -/
def Accepts (e : Exit) : Game → Prop
  | lbp1 => e.addr = 0x3ab74c
  | lbp2 => e.addr = 0x286030
  | lbp3 => ∃ d ∈ e.calls, d.target = 0x305090 ∧ d.before.gpr 7 = 1
  | lbp3JP => ∃ d ∈ e.calls, d.target = 0x3018a8 ∧ d.before.gpr 7 = 1

def Test (word : BitVec 32) : Game → Prop
  | lbp1 => word ≠ 0
  | lbp2 => 0 < word.toInt
  | lbp3 => word ≠ 0
  | lbp3JP => word ≠ 0

def Found (g : Game) (e : Exit) (friend word : BitVec 32) : Prop :=
  ∀ c ∈ e.calls, c.target = g.find → low32 (entry c) = friend ∧ invitation g.field c = word

end Game

section LBP3
variable {blk : Block} {find deal : BitVec 64} {m : Machine} {e : Exit}

theorem skips_iff (hne : find ≠ deal) {d : Call} {skip : Bool} (hd : Lbp3Dealt m deal skip d)
    {cs : List Call} (hcs : ∀ c ∈ cs, c.target = find) :
    (∃ d' ∈ cs ++ [d], d'.target = deal ∧ d'.before.gpr 7 = 1) ↔ skip = true := by
  constructor
  · intro h
    obtain ⟨d', hmem, ht, h7⟩ := h
    rcases List.mem_append.mp hmem with hc | hc
    · exact absurd ((hcs d' hc).symm.trans ht) hne
    · obtain rfl := List.mem_singleton.mp hc
      rw [hd.skip_checks] at h7
      cases skip with
      | true => rfl
      | false => exact absurd h7 (by decide)
  · rintro rfl
    exact ⟨d, by simp, hd.target_eq, hd.skip_checks⟩

theorem lbp3_accepts_iff (hne : find ≠ deal) (h : Lbp3Gate blk find deal m e) :
    ((∃ d ∈ e.calls, d.target = deal ∧ d.before.gpr 7 = 1) ↔
      low32 (m.gpr 28) ≠ 0 ∨ ∃ c ∈ e.calls, c.target = find ∧ Invited 0xf0 (· ≠ 0) c) ∧
    (low32 (m.gpr 28) = 0 → ∃ c ∈ e.calls, c.target = find) := by
  obtain ⟨skip, d, hd, hlocal, hremote, -⟩ := h
  by_cases h0 : low32 (m.gpr 28) = 0
  · obtain ⟨c, ht, hcalls, hskip⟩ := hremote h0
    have hcs : ∀ c' ∈ [c], c'.target = find := by simp [ht]
    refine ⟨?_, fun _ => ⟨c, by simp [hcalls], ht⟩⟩
    rw [hcalls, show [c, d] = [c] ++ [d] from rfl, skips_iff hne hd hcs, hskip]
    constructor
    · exact fun hi => .inr ⟨c, by simp, ht, hi⟩
    · intro hor
      obtain hl | ⟨c', hc', ht', hi⟩ := hor
      · exact absurd h0 hl
      · rcases List.mem_append.mp hc' with hm | hm
        · exact List.mem_singleton.mp hm ▸ hi
        · obtain rfl := List.mem_singleton.mp hm
          exact absurd (ht'.symm.trans hd.target_eq) hne
  · obtain ⟨rfl, hcalls⟩ := hlocal h0
    refine ⟨?_, fun h0' => absurd h0' h0⟩
    rw [hcalls]
    exact iff_of_true ⟨d, by simp, hd.target_eq, hd.skip_checks⟩ (.inl h0)

end LBP3

variable (g : Game) (callee : Callee) (m : Machine)

theorem toNat_eq_zero_iff {n : ℕ} (x : BitVec n) : x.toNat = 0 ↔ x = 0 :=
  BitVec.toNat_inj (y := 0)

theorem accepts_iff (hv : callee.Nonvolatile) : ∃ e, g.block.exec callee m = some e ∧
    (g.Accepts e ↔ g.isLocal m ≠ 0 ∨
      ∃ c ∈ e.calls, c.target = g.find ∧ Invited g.field g.Test c) ∧
    (g.isLocal m = 0 → ∃ c ∈ e.calls, c.target = g.find) := by
  obtain ⟨⟨e₁, h₁, g₁⟩, ⟨e₂, h₂, g₂⟩, ⟨e₃, h₃, g₃⟩, ⟨e₄, h₄, g₄⟩⟩ := forceJoin_gate callee m hv
  cases g with
  | lbp1 =>
    rw [Game.isLocal, ne_eq, toNat_eq_zero_iff]
    refine ⟨e₁, h₁, g₁.accept_iff, fun h0 => ?_⟩
    obtain ⟨c, hc, ht⟩ := g₁.asked h0
    exact ⟨c, by simp [hc], ht⟩
  | lbp2 =>
    rw [Game.isLocal, ne_eq, toNat_eq_zero_iff]
    exact ⟨e₂, h₂, g₂.accept_iff, g₂.asked⟩
  | lbp3 =>
    rw [Game.isLocal, ne_eq, toNat_eq_zero_iff]
    exact ⟨e₃, h₃, lbp3_accepts_iff (by decide) g₃⟩
  | lbp3JP =>
    rw [Game.isLocal, ne_eq, toNat_eq_zero_iff]
    exact ⟨e₄, h₄, lbp3_accepts_iff (by decide) g₄⟩

theorem test_iff_positive (word : BitVec 32) :
    (g.Test word ↔ Positive word) ↔ word.msb = false ∨ g = .lbp2 := by
  have hpart : (word ≠ 0 ↔ Positive word) ↔ word.msb = false := by
    constructor
    · intro h
      by_cases h0 : word = 0
      · subst h0
        rfl
      · exact (h.mp h0).1
    · exact fun hs => ⟨fun h0 => ⟨hs, h0⟩, fun hp => hp.2⟩
  cases g with
  | lbp2 => exact iff_of_true (positive_iff word).symm (.inr rfl)
  | lbp1 => simpa [Game.Test] using hpart
  | lbp3 => simpa [Game.Test] using hpart
  | lbp3JP => simpa [Game.Test] using hpart

/-- A block follows the policy for the local player, for strangers, and for an invitation
whose sign bit is clear; the LBP2 block always does. -/
theorem accepts_welcome_iff (hv : callee.Nonvolatile)
    (hlocal : g.isLocal m = 0 ∨ g.isLocal m = 1) :
    ∃ e, g.block.exec callee m = some e ∧ ∀ friend word, g.Found e friend word →
      ((g.Accepts e ↔ Welcome (g.isLocal m) friend word) ↔
        g.isLocal m = 1 ∨ friend = 0 ∨ word.msb = false ∨ g = .lbp2) := by
  obtain ⟨e, he, haccepts, hasked⟩ := accepts_iff g callee m hv
  refine ⟨e, he, fun friend word hfound => ?_⟩
  rw [haccepts, Welcome]
  rcases hlocal with h0 | h1
  · have hinvited : (∃ c ∈ e.calls, c.target = g.find ∧ Invited g.field g.Test c) ↔
        friend ≠ 0 ∧ g.Test word := by
      constructor
      · intro h
        obtain ⟨c, hc, ht, hi⟩ := h
        obtain ⟨hfriend, hword⟩ := hfound c hc ht
        exact ⟨hfriend ▸ hi.1, hword ▸ hi.2⟩
      · intro h
        obtain ⟨c, hc, ht⟩ := hasked h0
        obtain ⟨rfl, rfl⟩ := hfound c hc ht
        exact ⟨c, hc, ht, h⟩
    rw [hinvited, h0, ← test_iff_positive g word]
    by_cases hf : friend = 0
    · simp [hf]
    · have hne : friend ≠ 0#32 := hf
      simp [hne]
  · simp [h1]

-- An invitation of negative zero, which is no invitation.
def negativeZero : Callee := fun _ _ m => { m with
  gpr := Function.update m.gpr 3 0x4
  mem := fun a => if a = 0x10c then 0x80 else 0 }

theorem negativeZero_nonvolatile : negativeZero.Nonvolatile := by
  intro _ _ m r hr
  refine Function.update_of_ne ?_ _ _
  rintro rfl
  exact absurd hr (by decide)

theorem negativeZero_accepted : ∃ e, Game.lbp1.block.exec negativeZero blankMachine = some e ∧
    Game.lbp1.Accepts e ∧ Game.lbp1.Found e 0x4 0x80000000 := by
  have hrun : (Game.lbp1.block.exec negativeZero blankMachine).map (fun e => (e.addr,
      e.calls.map fun c => (low32 (entry c), invitation 0x108 c))) =
      some (0x3ab74c, [(0x4, 0x80000000)]) := by decide +kernel
  obtain ⟨e, he, hv⟩ := Option.map_eq_some_iff.mp hrun
  obtain ⟨haddr, hcalls⟩ := Prod.mk.inj hv
  refine ⟨e, he, haddr, fun c hc _ => ?_⟩
  have hmem := List.mem_map_of_mem (f := fun c => (low32 (entry c), invitation 0x108 c)) hc
  rw [hcalls] at hmem
  exact Prod.mk.inj (List.mem_singleton.mp hmem)

theorem accepts_negativeZero : ¬ ∀ (g : Game) (callee : Callee) (m : Machine) (e : Exit)
    (friend word : BitVec 32), callee.Nonvolatile → (g.isLocal m = 0 ∨ g.isLocal m = 1) →
    g.block.exec callee m = some e → g.Found e friend word →
    (g.Accepts e ↔ Welcome (g.isLocal m) friend word) := by
  intro h
  obtain ⟨e, he, haccepts, hfound⟩ := negativeZero_accepted
  have hw := (h .lbp1 _ _ e _ _ negativeZero_nonvolatile (.inl rfl) he hfound).mp haccepts
  rcases hw with hlocal | ⟨-, hpos⟩
  · exact absurd hlocal (by decide)
  · exact absurd hpos (by decide)

theorem accepts_welcome_iff_negativeZero :
    ∃ e, Game.lbp1.block.exec negativeZero blankMachine = some e ∧
      ∀ friend word, Game.lbp1.Found e friend word →
        ((Game.lbp1.Accepts e ↔ Welcome (Game.lbp1.isLocal blankMachine) friend word) ↔
          Game.lbp1.isLocal blankMachine = 1 ∨ friend = 0 ∨ word.msb = false ∨
            Game.lbp1 = .lbp2) :=
  accepts_welcome_iff .lbp1 negativeZero blankMachine negativeZero_nonvolatile (.inl rfl)

end Patchwork.JoinPolicy
