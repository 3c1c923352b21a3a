import Patchwork.PowerPC

/-!
# The script hooks

The hooks that stop remote scripts from being loaded. They contain no address of
their own: branches inside a hook go to its labels, and control leaves through
absolute branches into the game, so every result holds for any start address.
-/

namespace Patchwork.ScriptBlock
open PowerPC BoundedLoop

def resourceTypeScript : BitVec 8 := 0xB

/-- The displacement from position `here` to a label at position `there`. -/
def label (here there : ℕ) : ℤ := 4 * ((there : ℤ) - here)

def lbp1ScriptHook (start : BitVec 64) : Block where
  start := start
  code := [
    .lwz 3 0 3,
    .lbz 3 39 3,
    .cmpwi 7 3 resourceTypeScript.toNat,
    .beq 7 (label 3 7),     -- BailLBP1
    .rldicl 3 25 0x0 0x20,  -- clrldi r3, r25, 32
    .bla 0x7D1EC,           -- AddToCSRQueue
    .ba 0x81BCC,
    .ba 0x81B40]

def lbp2ScriptHook (start : BitVec 64) : Block where
  start := start
  code := [
    .beq 7 (label 0 5),     -- BailLBP2
    .lbz 0 35 29,
    .cmpwi 7 0 resourceTypeScript.toNat,
    .beq 7 (label 3 5),     -- BailLBP2
    .ba 0x153D78,
    .ba 0x153D3C]

def lbp3Hook (proceed bail : ℕ) (start : BitVec 64) : Block where
  start := start
  code := [
    .cmpwi 0 3 0,
    .bne 0 (label 1 6),     -- BailLBP3
    .lbz 3 0x23 29,
    .cmpwi 7 3 resourceTypeScript.toNat,
    .beq 7 (label 4 6),     -- BailLBP3
    .ba proceed,
    .ba bail]

def lbp3ScriptHook : BitVec 64 → Block := lbp3Hook 0x1CFC78 0x1CFD10
def lbp3JPScriptHook : BitVec 64 → Block := lbp3Hook 0x1CFB14 0x1CFBAC

variable (callee : Callee) (start : BitVec 64) (m : Machine)

section LBP1

def lbp1Type (m : Machine) : BitVec 8 := m.mem ((word m.mem (m.gpr 3)).setWidth 64 + 39)

structure Lbp1Hook (m : Machine) (e : Exit) : Prop where
  bail_iff : e.addr = 0x81B40 ↔ lbp1Type m = resourceTypeScript
  bail : lbp1Type m = resourceTypeScript →
    e.calls = [] ∧ m.ChangesOnly [3] [7] e.machine ∧ e.machine.lr = m.lr
  proceed : lbp1Type m ≠ resourceTypeScript → e.addr = 0x81BCC ∧
    ∃ c, e.calls = [c] ∧ c.target = 0x7D1EC ∧ c.before.gpr 3 = (low32 (m.gpr 25)).setWidth 64 ∧
      m.ChangesOnly [3] [7] c.before ∧ e.machine = c.after

theorem lbp1_hook : ∃ e, (lbp1ScriptHook start).exec callee m = some e ∧ Lbp1Hook m e := by
  let blk := lbp1ScriptHook start
  let m₁ := blk.segment 0 3 m
  have hread : Rounds (blk.pass callee) ⟨0, m, []⟩ ⟨3, m₁, []⟩ :=
    blk.rounds_straight callee 0 3 rfl m []
  have hframe : m.ChangesOnly [3] [7] m₁ := blk.segment_changesOnly [3] [7] 0 3 rfl m
  have htest : (m₁.cr 7).eq = true ↔ lbp1Type m = resourceTypeScript := by
    refine (Instr.byte_test _ 7 3 39 (by decide) resourceTypeScript).trans ?_
    simp [lbp1Type, Instr.apply, Machine.effective]
  by_cases h : lbp1Type m = resourceTypeScript
  · have hjump : blk.pass callee ⟨3, m₁, []⟩ = .again ⟨7, m₁, []⟩ :=
      Block.pass_inside (i := .beq 7 (label 3 7)) (d := label 3 7) rfl (if_pos (htest.mpr h))
        (by simp [blk, lbp1ScriptHook, label])
    exact ⟨⟨0x81B40, m₁, []⟩, Block.exec_of_leads rfl ⟨_, hread.trans (.head hjump (.refl _)), rfl⟩,
      iff_of_true rfl h, fun _ => ⟨rfl, hframe, rfl⟩, fun hne => absurd h hne⟩
  · have hfall : blk.pass callee ⟨3, m₁, []⟩ = .again ⟨4, m₁, []⟩ :=
      Block.pass_next (i := .beq 7 (label 3 7)) rfl (if_neg (mt htest.mp h))
    let before : Machine := { blk.segment 4 1 m₁ with lr := blk.address 6 }
    let c : Call := ⟨0x7D1EC, before, callee 0 0x7D1EC before⟩
    have hcall : Rounds (blk.pass callee) ⟨0, m, []⟩ ⟨6, c.after, [c]⟩ :=
      hread.trans <| .head hfall <| (blk.rounds_straight callee 4 1 rfl m₁ []).trans <|
        .head rfl (.refl _)
    refine ⟨⟨0x81BCC, c.after, [c]⟩, Block.exec_of_leads rfl ⟨_, hcall, rfl⟩,
      iff_of_false (by simp) h, fun hs => absurd hs h, fun _ => ⟨rfl, c, rfl, rfl, ?_, ?_, rfl⟩⟩
    · have h3 : c.before.gpr 3 = (low32 (m₁.gpr 25)).setWidth 64 := by
        change ((Instr.rldicl 3 25 0x0 0x20).apply m₁).gpr 3 = _
        rw [Instr.rldicl_low32, Machine.setGpr_self]
      rw [h3, hframe.gpr 25 (by decide)]
    · have hset := hframe.trans (blk.segment_changesOnly [3] [7] 4 1 rfl m₁)
      exact ⟨hset.gpr, hset.cr, hset.ca, hset.so, hset.mem⟩

end LBP1

/-- A hook that calls nothing: it leaves at `bail` exactly when the load is refused,
else at `proceed`, having written only its staging register and condition fields. -/
structure Filters (bail proceed : BitVec 64) (refused : Prop) (regs : List Reg)
    (fields : List (Fin 8)) (m : Machine) (e : Exit) : Prop where
  bail_iff : e.addr = bail ↔ refused
  proceed : ¬ refused → e.addr = proceed
  calls : e.calls = []
  frame : m.ChangesOnly regs fields e.machine
  lr : e.machine.lr = m.lr

section LBP2

def Lbp2Refused (m : Machine) : Prop :=
  (m.cr 7).eq = true ∨ m.mem (m.gpr 29 + 35) = resourceTypeScript

theorem lbp2_hook : ∃ e, (lbp2ScriptHook start).exec callee m = some e ∧
    Filters 0x153D3C 0x153D78 (Lbp2Refused m) [0] [7] m e := by
  let blk := lbp2ScriptHook start
  by_cases h : (m.cr 7).eq = true
  · have hjump : blk.pass callee ⟨0, m, []⟩ = .again ⟨5, m, []⟩ :=
      Block.pass_inside (i := .beq 7 (label 0 5)) (d := label 0 5) rfl (if_pos h)
        (by simp [blk, lbp2ScriptHook, label])
    exact ⟨⟨0x153D3C, m, []⟩, Block.exec_of_leads rfl ⟨_, .head hjump (.refl _), rfl⟩,
      iff_of_true rfl (.inl h), fun hn => absurd (.inl h) hn, rfl, .refl m, rfl⟩
  · have hfall : blk.pass callee ⟨0, m, []⟩ = .again ⟨1, m, []⟩ :=
      Block.pass_next (i := .beq 7 (label 0 5)) rfl (if_neg h)
    let m₁ := blk.segment 1 2 m
    have hread : Rounds (blk.pass callee) ⟨0, m, []⟩ ⟨3, m₁, []⟩ :=
      .head hfall (blk.rounds_straight callee 1 2 rfl m [])
    have hframe : m.ChangesOnly [0] [7] m₁ := blk.segment_changesOnly [0] [7] 1 2 rfl m
    have htest : (m₁.cr 7).eq = true ↔ m.mem (m.gpr 29 + 35) = resourceTypeScript :=
      Instr.byte_test m 7 0 35 (by decide) resourceTypeScript
    by_cases hs : m.mem (m.gpr 29 + 35) = resourceTypeScript
    · have hjump : blk.pass callee ⟨3, m₁, []⟩ = .again ⟨5, m₁, []⟩ :=
        Block.pass_inside (i := .beq 7 (label 3 5)) (d := label 3 5) rfl (if_pos (htest.mpr hs))
          (by simp [blk, lbp2ScriptHook, label])
      exact ⟨⟨0x153D3C, m₁, []⟩, Block.exec_of_leads rfl
        ⟨_, hread.trans (.head hjump (.refl _)), rfl⟩,
        iff_of_true rfl (.inr hs), fun hn => absurd (.inr hs) hn, rfl, hframe, rfl⟩
    · have hpass : blk.pass callee ⟨3, m₁, []⟩ = .again ⟨4, m₁, []⟩ :=
        Block.pass_next (i := .beq 7 (label 3 5)) rfl (if_neg (mt htest.mp hs))
      exact ⟨⟨0x153D78, m₁, []⟩, Block.exec_of_leads rfl
        ⟨_, hread.trans (.head hpass (.refl _)), rfl⟩,
        iff_of_false (by simp) (fun hr => hr.elim h hs), fun _ => rfl, rfl, hframe, rfl⟩

end LBP2

section LBP3

def Lbp3Refused (m : Machine) : Prop :=
  low32 (m.gpr 3) ≠ 0 ∨ m.mem (m.gpr 29 + 0x23) = resourceTypeScript

theorem lbp3_hook (proceed bail : ℕ) (hne : BitVec.ofNat 64 proceed ≠ BitVec.ofNat 64 bail) :
    ∃ e, (lbp3Hook proceed bail start).exec callee m = some e ∧
      Filters (BitVec.ofNat 64 bail) (BitVec.ofNat 64 proceed) (Lbp3Refused m) [3] [0, 7] m e := by
  let blk := lbp3Hook proceed bail start
  let m₁ := blk.segment 0 1 m
  have hentry : Rounds (blk.pass callee) ⟨0, m, []⟩ ⟨1, m₁, []⟩ :=
    blk.rounds_straight callee 0 1 rfl m []
  have hframe : m.ChangesOnly [3] [0, 7] m₁ := blk.segment_changesOnly [3] [0, 7] 0 1 rfl m
  have hfailed : (m₁.cr 0).eq = true ↔ low32 (m.gpr 3) = 0 := Instr.cmpwi_eq m 0 3 0
  by_cases h : low32 (m.gpr 3) = 0
  · have hfall : blk.pass callee ⟨1, m₁, []⟩ = .again ⟨2, m₁, []⟩ :=
      Block.pass_next (i := .bne 0 (label 1 6)) rfl (if_pos (hfailed.mpr h))
    let m₂ := blk.segment 2 2 m₁
    have hread : Rounds (blk.pass callee) ⟨0, m, []⟩ ⟨4, m₂, []⟩ :=
      hentry.trans (.head hfall (blk.rounds_straight callee 2 2 rfl m₁ []))
    have hframe₂ : m.ChangesOnly [3] [0, 7] m₂ :=
      hframe.trans (blk.segment_changesOnly [3] [0, 7] 2 2 rfl m₁)
    have htest : (m₂.cr 7).eq = true ↔ m.mem (m.gpr 29 + 0x23) = resourceTypeScript :=
      Instr.byte_test m₁ 7 3 0x23 (by decide) resourceTypeScript
    by_cases hs : m.mem (m.gpr 29 + 0x23) = resourceTypeScript
    · have hjump : blk.pass callee ⟨4, m₂, []⟩ = .again ⟨6, m₂, []⟩ :=
        Block.pass_inside (i := .beq 7 (label 4 6)) (d := label 4 6) rfl (if_pos (htest.mpr hs))
          (by simp [blk, lbp3Hook, label])
      exact ⟨⟨BitVec.ofNat 64 bail, m₂, []⟩,
        Block.exec_of_leads rfl ⟨_, hread.trans (.head hjump (.refl _)), rfl⟩,
        iff_of_true rfl (.inr hs), fun hn => absurd (.inr hs) hn, rfl, hframe₂, rfl⟩
    · have hpass : blk.pass callee ⟨4, m₂, []⟩ = .again ⟨5, m₂, []⟩ :=
        Block.pass_next (i := .beq 7 (label 4 6)) rfl (if_neg (mt htest.mp hs))
      exact ⟨⟨BitVec.ofNat 64 proceed, m₂, []⟩,
        Block.exec_of_leads rfl ⟨_, hread.trans (.head hpass (.refl _)), rfl⟩,
        iff_of_false hne (fun hr => hr.elim (fun hl => hl h) hs), fun _ => rfl, rfl, hframe₂, rfl⟩
  · have hjump : blk.pass callee ⟨1, m₁, []⟩ = .again ⟨6, m₁, []⟩ :=
      Block.pass_inside (i := .bne 0 (label 1 6)) (d := label 1 6) rfl (if_neg (mt hfailed.mp h))
        (by simp [blk, lbp3Hook, label])
    exact ⟨⟨BitVec.ofNat 64 bail, m₁, []⟩,
      Block.exec_of_leads rfl ⟨_, hentry.trans (.head hjump (.refl _)), rfl⟩,
      iff_of_true rfl (.inl h), fun hn => absurd (.inl h) hn, rfl, hframe, rfl⟩

end LBP3

/-- Wherever a hook is placed, a script resource never gets past it, and the game
goes on with its own registers and memory. -/
theorem scriptHook_filters :
    (∃ e, (lbp1ScriptHook start).exec callee m = some e ∧ Lbp1Hook m e) ∧
    (∃ e, (lbp2ScriptHook start).exec callee m = some e ∧
      Filters 0x153D3C 0x153D78 (Lbp2Refused m) [0] [7] m e) ∧
    (∃ e, (lbp3ScriptHook start).exec callee m = some e ∧
      Filters 0x1CFD10 0x1CFC78 (Lbp3Refused m) [3] [0, 7] m e) ∧
    (∃ e, (lbp3JPScriptHook start).exec callee m = some e ∧
      Filters 0x1CFBAC 0x1CFB14 (Lbp3Refused m) [3] [0, 7] m e) :=
  ⟨lbp1_hook callee start m, lbp2_hook callee start m, lbp3_hook callee start m _ _ (by decide),
    lbp3_hook callee start m _ _ (by decide)⟩

end Patchwork.ScriptBlock
