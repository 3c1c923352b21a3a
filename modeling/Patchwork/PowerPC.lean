import Mathlib.Algebra.Group.Nat.Defs
import Mathlib.Data.Fin.Basic
import Mathlib.Logic.Function.Basic
import Patchwork.BoundedLoop

/-!
# Straight blocks of PowerPC code

The fixed-point, load and branch instructions that hand-written hooks use, in
64-bit mode. A block is placed at a start address and runs until control leaves
it: past its last instruction, through a relative branch whose target lies
outside, or through an absolute branch, which names an address of the program
the block is hooked into. A linked absolute branch calls a function of that
program; what the function does is the parameter `callee`, which is told how many
calls came before, so that two calls of one function may behave differently.
-/

namespace Patchwork.PowerPC
open BoundedLoop

abbrev Reg := Fin 32

scoped instance regCount : @NeZero ℕ Zero.ofOfNat0 32 := ⟨Nat.succ_ne_zero 31⟩
scoped instance fieldCount : @NeZero ℕ Zero.ofOfNat0 8 := ⟨Nat.succ_ne_zero 7⟩

abbrev Memory := BitVec 64 → BitVec 8

structure CrField where
  lt : Bool
  gt : Bool
  eq : Bool
  so : Bool

structure Machine where
  gpr : Reg → BitVec 64
  cr : Fin 8 → CrField
  lr : BitVec 64
  ca : Bool
  so : Bool
  mem : Memory

def word (mem : Memory) (a : BitVec 64) : BitVec 32 :=
  mem a ++ mem (a + 1) ++ mem (a + 2) ++ mem (a + 3)

def low32 (x : BitVec 64) : BitVec 32 := x.setWidth 32
def lowByte (x : BitVec 64) : BitVec 8 := x.setWidth 8

/-- Bits `mb` to `me`, counted from the most significant one, wrapping round when `me < mb`. -/
def mask (mb me : ℕ) : BitVec 64 :=
  let ones := BitVec.allOnes 64
  if mb ≤ me then (ones >>> mb) &&& (ones <<< (63 - me)) else (ones >>> mb) ||| (ones <<< (63 - me))

def compareWords (a b : BitVec 32) (so : Bool) : CrField :=
  ⟨a.slt b, b.slt a, a == b, so⟩

inductive Instr where
  | rlwinm (rA rS : Reg) (sh mb me : ℕ)
  | rldicl (rA rS : Reg) (sh mb : ℕ)
  | cmpwi (bf : Fin 8) (rA : Reg) (si : ℤ)
  | lis (rD : Reg) (si : ℤ)
  | li (rD : Reg) (si : ℤ)
  | ori (rA rS : Reg) (ui : ℕ)
  | or (rA rS rB : Reg)
  | subic (rD rA : Reg) (si : ℤ)
  | lwz (rD : Reg) (d : ℤ) (rA : Reg)
  | lbz (rD : Reg) (d : ℤ) (rA : Reg)
  | beq (bf : Fin 8) (disp : ℤ)
  | bne (bf : Fin 8) (disp : ℤ)
  | bgt (bf : Fin 8) (disp : ℤ)
  | b (disp : ℤ)
  | ba (target : ℕ)
  | bla (target : ℕ)

namespace Machine

def setGpr (m : Machine) (r : Reg) (x : BitVec 64) : Machine :=
  { m with gpr := Function.update m.gpr r x }

def setCr (m : Machine) (f : Fin 8) (c : CrField) : Machine :=
  { m with cr := Function.update m.cr f c }

/-- The effective address of a load: register 0 as a base reads as zero. -/
def effective (m : Machine) (d : ℤ) (rA : Reg) : BitVec 64 :=
  (if rA = 0 then 0 else m.gpr rA) + BitVec.ofInt 64 d

section Fields
variable (m : Machine) (r r' : Reg) (x : BitVec 64) (f f' : Fin 8) (c : CrField)

@[simp] theorem setGpr_self : (m.setGpr r x).gpr r = x := by simp [setGpr]
@[simp] theorem setGpr_cr : (m.setGpr r x).cr = m.cr := rfl
@[simp] theorem setGpr_lr : (m.setGpr r x).lr = m.lr := rfl
@[simp] theorem setGpr_ca : (m.setGpr r x).ca = m.ca := rfl
@[simp] theorem setGpr_so : (m.setGpr r x).so = m.so := rfl
@[simp] theorem setGpr_mem : (m.setGpr r x).mem = m.mem := rfl
@[simp] theorem setCr_self : (m.setCr f c).cr f = c := by simp [setCr]
@[simp] theorem setCr_gpr : (m.setCr f c).gpr = m.gpr := rfl
@[simp] theorem setCr_lr : (m.setCr f c).lr = m.lr := rfl
@[simp] theorem setCr_ca : (m.setCr f c).ca = m.ca := rfl
@[simp] theorem setCr_so : (m.setCr f c).so = m.so := rfl
@[simp] theorem setCr_mem : (m.setCr f c).mem = m.mem := rfl

variable {m r r' f f'}
theorem setGpr_of_ne (h : r' ≠ r) : (m.setGpr r x).gpr r' = m.gpr r' := by simp [setGpr, h]
theorem setCr_of_ne (h : f' ≠ f) : (m.setCr f c).cr f' = m.cr f' := by simp [setCr, h]

theorem effective_of_ne (m : Machine) (d : ℤ) (h : r ≠ 0) :
    m.effective d r = m.gpr r + BitVec.ofInt 64 d := by
  rw [effective, if_neg h]

end Fields

structure ChangesOnly (regs : List Reg) (fields : List (Fin 8)) (m m' : Machine) : Prop where
  gpr : ∀ r ∉ regs, m'.gpr r = m.gpr r
  cr : ∀ f ∉ fields, m'.cr f = m.cr f
  ca : m'.ca = m.ca
  so : m'.so = m.so
  mem : m'.mem = m.mem

namespace ChangesOnly
variable {regs : List Reg} {fields : List (Fin 8)} {m m' m'' : Machine}

theorem refl (m : Machine) : ChangesOnly regs fields m m :=
  ⟨fun _ _ => rfl, fun _ _ => rfl, rfl, rfl, rfl⟩

theorem trans (h : ChangesOnly regs fields m m') (h' : ChangesOnly regs fields m' m'') :
    ChangesOnly regs fields m m'' :=
  ⟨fun r hr => (h'.gpr r hr).trans (h.gpr r hr), fun f hf => (h'.cr f hf).trans (h.cr f hf),
    h'.ca.trans h.ca, h'.so.trans h.so, h'.mem.trans h.mem⟩

theorem setGpr {r : Reg} (hr : r ∈ regs) (x : BitVec 64) :
    ChangesOnly regs fields m (m.setGpr r x) :=
  ⟨fun _ h => setGpr_of_ne x (fun he => h (he ▸ hr)), fun _ _ => rfl, rfl, rfl, rfl⟩

theorem setCr {f : Fin 8} (hf : f ∈ fields) (c : CrField) :
    ChangesOnly regs fields m (m.setCr f c) :=
  ⟨fun _ _ => rfl, fun _ h => setCr_of_ne c (fun he => h (he ▸ hf)), rfl, rfl, rfl⟩

end ChangesOnly
end Machine

inductive Flow where
  | next
  | disp (d : ℤ)
  | leave (target : BitVec 64)
  | call (target : BitVec 64)

namespace Instr

def apply (m : Machine) : Instr → Machine
  | rlwinm rA rS sh mb me =>
      let r := (low32 (m.gpr rS)).rotateLeft sh
      m.setGpr rA ((r ++ r).setWidth 64 &&& mask (mb + 32) (me + 32))
  | rldicl rA rS sh mb => m.setGpr rA ((m.gpr rS).rotateLeft sh &&& mask mb 63)
  | cmpwi bf rA si => m.setCr bf (compareWords (low32 (m.gpr rA)) (BitVec.ofInt 32 si) m.so)
  | lis rD si => m.setGpr rD (BitVec.ofInt 64 (si * 65536))
  | li rD si => m.setGpr rD (BitVec.ofInt 64 si)
  | ori rA rS ui => m.setGpr rA (m.gpr rS ||| BitVec.ofNat 64 ui)
  | or rA rS rB => m.setGpr rA (m.gpr rS ||| m.gpr rB)
  | subic rD rA si =>
      let a := m.gpr rA
      let c := BitVec.ofInt 64 (-si)
      { m.setGpr rD (a + c) with ca := decide (2 ^ 64 ≤ a.toNat + c.toNat) }
  | lwz rD d rA => m.setGpr rD ((word m.mem (m.effective d rA)).setWidth 64)
  | lbz rD d rA => m.setGpr rD ((m.mem (m.effective d rA)).setWidth 64)
  | _ => m

def flow (m : Machine) : Instr → Flow
  | beq bf d => if (m.cr bf).eq then .disp d else .next
  | bne bf d => if (m.cr bf).eq then .next else .disp d
  | bgt bf d => if (m.cr bf).gt then .disp d else .next
  | b d => .disp d
  | ba t => .leave (BitVec.ofNat 64 t)
  | bla t => .call (BitVec.ofNat 64 t)
  | _ => .next

def jump? : Instr → Option ℤ
  | beq _ d | bne _ d | bgt _ d | b d => some d
  | _ => none

def straight : Instr → Bool
  | beq _ _ | bne _ _ | bgt _ _ | b _ | ba _ | bla _ => false
  | _ => true

theorem flow_of_straight {i : Instr} (h : i.straight = true) (m : Machine) : i.flow m = .next := by
  cases i <;> first | rfl | simp [straight] at h

theorem jump?_of_flow {i : Instr} {m : Machine} {d : ℤ} (h : i.flow m = .disp d) :
    i.jump? = some d := by
  cases i <;> simp only [flow] at h <;> (try split_ifs at h) <;> simp_all [jump?]

def dest? : Instr → Option Reg
  | rlwinm rA _ _ _ _ | rldicl rA _ _ _ | ori rA _ _ | or rA _ _ => some rA
  | lis rD _ | li rD _ | subic rD _ _ | lwz rD _ _ | lbz rD _ _ => some rD
  | _ => none

theorem apply_gpr {i : Instr} {r : Reg} (h : i.dest? ≠ some r) (m : Machine) :
    (i.apply m).gpr r = m.gpr r := by
  cases i <;> first
    | rfl
    | exact Machine.setGpr_of_ne _ (fun he => h (congrArg some he.symm))

section Values

theorem and_allOnes {n : ℕ} (x : BitVec n) (k : ℕ) :
    x &&& (BitVec.allOnes k).setWidth n = (x.setWidth k).setWidth n := by
  ext i hi
  simp only [BitVec.getElem_and, BitVec.getElem_setWidth, BitVec.getLsbD_allOnes,
    BitVec.getLsbD_setWidth, BitVec.getLsbD_eq_getElem hi]
  grind

theorem rotateLeft_zero {w : ℕ} (x : BitVec w) : x.rotateLeft 0 = x := by
  ext i hi
  simp [BitVec.getElem_rotateLeft]

theorem setWidth_inj {v w : ℕ} (h : v ≤ w) {x y : BitVec v} :
    x.setWidth w = y.setWidth w ↔ x = y := by
  rw [← BitVec.toNat_inj, BitVec.toNat_setWidth_of_le h, BitVec.toNat_setWidth_of_le h,
    BitVec.toNat_inj]

@[simp] theorem low32_setWidth (x : BitVec 32) : low32 (x.setWidth 64) = x := by
  simp [low32]

theorem low32_byte (x : BitVec 8) : low32 (x.setWidth 64) = x.setWidth 32 := by
  ext i hi
  simp [low32]

variable (m : Machine)

theorem apply_rlwinm (rA rS : Reg) (sh mb me : ℕ) :
    (rlwinm rA rS sh mb me).apply m = m.setGpr rA
      (((low32 (m.gpr rS)).rotateLeft sh ++ (low32 (m.gpr rS)).rotateLeft sh).setWidth 64 &&&
        mask (mb + 32) (me + 32)) := rfl

theorem apply_rldicl (rA rS : Reg) (sh mb : ℕ) :
    (rldicl rA rS sh mb).apply m = m.setGpr rA ((m.gpr rS).rotateLeft sh &&& mask mb 63) := rfl

theorem apply_cmpwi (bf : Fin 8) (rA : Reg) (si : ℤ) : (cmpwi bf rA si).apply m =
    m.setCr bf (compareWords (low32 (m.gpr rA)) (BitVec.ofInt 32 si) m.so) := rfl

theorem apply_lwz (rD : Reg) (d : ℤ) {rA : Reg} (h : rA ≠ 0) : (lwz rD d rA).apply m =
    m.setGpr rD ((word m.mem (m.gpr rA + BitVec.ofInt 64 d)).setWidth 64) := by
  rw [← Machine.effective_of_ne m d h]
  rfl

theorem apply_lbz (rD : Reg) (d : ℤ) {rA : Reg} (h : rA ≠ 0) : (lbz rD d rA).apply m =
    m.setGpr rD ((m.mem (m.gpr rA + BitVec.ofInt 64 d)).setWidth 64) := by
  rw [← Machine.effective_of_ne m d h]
  rfl

theorem rlwinm_lowByte (rA rS : Reg) :
    (rlwinm rA rS 0x0 0x18 0x1f).apply m = m.setGpr rA ((lowByte (m.gpr rS)).setWidth 64) := by
  have hm : mask (0x18 + 32) (0x1f + 32) = (BitVec.allOnes 8).setWidth 64 := by decide
  simp only [apply_rlwinm, rotateLeft_zero, low32, lowByte, hm, and_allOnes]
  rw [BitVec.setWidth_eq, BitVec.setWidth_append]
  simp

theorem rldicl_low32 (rA rS : Reg) :
    (rldicl rA rS 0x0 0x20).apply m = m.setGpr rA ((low32 (m.gpr rS)).setWidth 64) := by
  have hm : mask 0x20 63 = (BitVec.allOnes 32).setWidth 64 := by decide
  simp only [apply_rldicl, rotateLeft_zero, low32, hm, and_allOnes]

theorem cmpwi_eq (bf : Fin 8) (rA : Reg) (si : ℤ) :
    (((cmpwi bf rA si).apply m).cr bf).eq = true ↔ low32 (m.gpr rA) = BitVec.ofInt 32 si := by
  simp [apply_cmpwi, compareWords]

theorem cmpwi_gt_zero (bf : Fin 8) (rA : Reg) :
    (((cmpwi bf rA 0x0).apply m).cr bf).gt = true ↔ 0 < (low32 (m.gpr rA)).toInt := by
  simp [apply_cmpwi, compareWords, BitVec.slt_eq_decide]

theorem lowByte_test (bf : Fin 8) (rA rS : Reg) :
    (((cmpwi bf rA 0x0).apply ((rlwinm rA rS 0x0 0x18 0x1f).apply m)).cr bf).eq = true ↔
      lowByte (m.gpr rS) = 0 := by
  rw [cmpwi_eq, rlwinm_lowByte, Machine.setGpr_self, low32_byte]
  exact setWidth_inj (by omega) (y := 0)

theorem word_test (bf : Fin 8) (rD : Reg) (d : ℤ) {rA : Reg} (h : rA ≠ 0) :
    (((cmpwi bf rD 0x0).apply ((lwz rD d rA).apply m)).cr bf).eq = true ↔
      word m.mem (m.gpr rA + BitVec.ofInt 64 d) = 0 := by
  rw [cmpwi_eq, apply_lwz m rD d h]
  simp

theorem word_test_pos (bf : Fin 8) (rD : Reg) (d : ℤ) {rA : Reg} (h : rA ≠ 0) :
    (((cmpwi bf rD 0x0).apply ((lwz rD d rA).apply m)).cr bf).gt = true ↔
      0 < (word m.mem (m.gpr rA + BitVec.ofInt 64 d)).toInt := by
  rw [cmpwi_gt_zero, apply_lwz m rD d h]
  simp

theorem byte_test (bf : Fin 8) (rD : Reg) (d : ℤ) {rA : Reg} (h : rA ≠ 0) (v : BitVec 8) :
    (((cmpwi bf rD v.toNat).apply ((lbz rD d rA).apply m)).cr bf).eq = true ↔
      m.mem (m.gpr rA + BitVec.ofInt 64 d) = v := by
  rw [cmpwi_eq, ← setWidth_inj (show 8 ≤ 32 by omega) (y := v)]
  simp only [apply_lbz m rD d h, Machine.setGpr_self, low32_byte]
  rw [BitVec.ofInt_natCast, BitVec.ofNat_toNat]

end Values
end Instr

structure Call where
  target : BitVec 64
  before : Machine
  after : Machine

structure Point where
  pos : ℕ
  machine : Machine
  calls : List Call

structure Exit where
  addr : BitVec 64
  machine : Machine
  calls : List Call

/-- What the `n`-th call does, given its target and the machine it is entered with. -/
abbrev Callee := ℕ → BitVec 64 → Machine → Machine

def Callee.Nonvolatile (callee : Callee) : Prop :=
  ∀ n t m, ∀ r : Reg, 14 ≤ r → (callee n t m).gpr r = m.gpr r

structure Block where
  start : BitVec 64
  code : List Instr

namespace Block
variable (blk : Block) (callee : Callee)

def address (k : ℤ) : BitVec 64 := blk.start + BitVec.ofInt 64 (4 * k)

/-- One instruction. The two low bits of a displacement are dropped. -/
def pass (s : Point) : Pass Point Exit :=
  match blk.code[s.pos]? with
  | none => .leave ⟨blk.address s.pos, s.machine, s.calls⟩
  | some i =>
    let m := i.apply s.machine
    match i.flow s.machine with
    | .next => .again ⟨s.pos + 1, m, s.calls⟩
    | .disp d =>
      let k := s.pos + d / 4
      if 0 ≤ k ∧ k < blk.code.length then .again ⟨k.toNat, m, s.calls⟩
      else .leave ⟨blk.address k, m, s.calls⟩
    | .leave t => .leave ⟨t, m, s.calls⟩
    | .call t =>
      let before := { m with lr := blk.address (s.pos + 1) }
      let after := callee s.calls.length t before
      .again ⟨s.pos + 1, after, s.calls ++ [⟨t, before, after⟩]⟩

def exec (m : Machine) : Option Exit := run (blk.pass callee) (blk.code.length + 1) ⟨0, m, []⟩

def forward : Bool :=
  blk.code.zipIdx.all fun (i, k) =>
    match i.jump? with
    | none => true
    | some d => decide (0 < d / 4) || decide ((k : ℤ) + d / 4 < 0)

variable {blk callee}

theorem forward_at (h : blk.forward = true) {k : ℕ} {i : Instr} {d : ℤ}
    (hi : blk.code[k]? = some i) (hd : i.jump? = some d) : 0 < d / 4 ∨ (k : ℤ) + d / 4 < 0 := by
  have hall := List.all_eq_true.mp h (i, k) (List.mem_zipIdx_iff_getElem?.mpr hi)
  simpa [hd] using hall

section Steps
variable {i : Instr} {k : ℕ} {m : Machine} {cs : List Call} {d : ℤ}

theorem pass_next (hi : blk.code[k]? = some i) (hf : i.flow m = .next) :
    blk.pass callee ⟨k, m, cs⟩ = .again ⟨k + 1, i.apply m, cs⟩ := by
  simp only [pass, hi, hf]

theorem pass_inside (hi : blk.code[k]? = some i) (hf : i.flow m = .disp d)
    (hk : 0 ≤ k + d / 4 ∧ k + d / 4 < blk.code.length) :
    blk.pass callee ⟨k, m, cs⟩ = .again ⟨(k + d / 4).toNat, i.apply m, cs⟩ := by
  simp only [pass, hi, hf, if_pos hk]

theorem pass_outside (hi : blk.code[k]? = some i) (hf : i.flow m = .disp d)
    (hk : ¬ (0 ≤ k + d / 4 ∧ k + d / 4 < blk.code.length)) :
    blk.pass callee ⟨k, m, cs⟩ = .leave ⟨blk.address (k + d / 4), i.apply m, cs⟩ := by
  simp only [pass, hi, hf, if_neg hk]

end Steps

theorem pass_again {s s' : Point} (hp : blk.pass callee s = .again s') :
    ∃ i, blk.code[s.pos]? = some i ∧
      ((i.flow s.machine = .next ∧ s' = ⟨s.pos + 1, i.apply s.machine, s.calls⟩) ∨
      (∃ d, i.flow s.machine = .disp d ∧ 0 ≤ s.pos + d / 4 ∧ s.pos + d / 4 < blk.code.length ∧
        s' = ⟨(s.pos + d / 4).toNat, i.apply s.machine, s.calls⟩) ∨
      ∃ t before, i.flow s.machine = .call t ∧
        s' = ⟨s.pos + 1, callee s.calls.length t before,
          s.calls ++ [⟨t, before, callee s.calls.length t before⟩]⟩) := by
  simp only [pass] at hp
  cases hi : blk.code[s.pos]? with
  | none => simp [hi] at hp
  | some i =>
    refine ⟨i, rfl, ?_⟩
    rw [hi] at hp
    cases hf : i.flow s.machine with
    | next => simp only [hf, Pass.again.injEq] at hp; exact .inl ⟨rfl, hp.symm⟩
    | disp d =>
      simp only [hf] at hp
      split_ifs at hp with hk
      cases hp
      exact .inr (.inl ⟨d, rfl, hk.1, hk.2, rfl⟩)
    | leave t => simp [hf] at hp
    | call t =>
      simp only [hf, Pass.again.injEq] at hp
      exact .inr (.inr ⟨t, _, rfl, hp.symm⟩)

theorem pass_rises (h : blk.forward = true) {s s' : Point} (hp : blk.pass callee s = .again s') :
    s.pos < s'.pos ∧ s.pos < blk.code.length := by
  obtain ⟨i, hi, hcase⟩ := pass_again hp
  have hlt : s.pos < blk.code.length := (List.getElem?_eq_some_iff.mp hi).1
  obtain ⟨-, rfl⟩ | ⟨d, hf, h0, -, rfl⟩ | ⟨t, before, -, rfl⟩ := hcase
  · exact ⟨Nat.lt_succ_self _, hlt⟩
  · have hj := forward_at h hi (Instr.jump?_of_flow hf)
    refine ⟨?_, hlt⟩
    simp only
    omega
  · exact ⟨Nat.lt_succ_self _, hlt⟩

theorem exec_total (h : blk.forward = true) (m : Machine) : ∃ e, blk.exec callee m = some e := by
  refine run_total _ (fun _ => True) (fun s => blk.code.length - s.pos) ?_ trivial ?_
  · intro s s' _ hp
    have := pass_rises h hp
    exact ⟨trivial, by omega⟩
  · simp

def segment (blk : Block) (k n : ℕ) (m : Machine) : Machine :=
  ((blk.code.drop k).take n).foldl Instr.apply m

def straight (blk : Block) (k n : ℕ) : Bool :=
  decide (k + n ≤ blk.code.length) && ((blk.code.drop k).take n).all Instr.straight

theorem rounds_straight (blk : Block) (callee : Callee) (k n : ℕ) (h : blk.straight k n = true)
    (m : Machine) (cs : List Call) :
    Rounds (blk.pass callee) ⟨k, m, cs⟩ ⟨k + n, blk.segment k n m, cs⟩ := by
  obtain ⟨hlen, hall⟩ : k + n ≤ blk.code.length ∧
      ((blk.code.drop k).take n).all Instr.straight = true := by simpa [straight] using h
  induction n generalizing k m with
  | zero => exact .refl _
  | succ n ih =>
    have hk : k < blk.code.length := by omega
    have hcons : (blk.code.drop k).take (n + 1) =
        blk.code[k] :: (blk.code.drop (k + 1)).take n := by
      rw [List.drop_eq_getElem_cons hk, List.take_succ_cons]
    rw [hcons, List.all_cons, Bool.and_eq_true] at hall
    have hstep : blk.pass callee ⟨k, m, cs⟩ = .again ⟨k + 1, blk.code[k].apply m, cs⟩ :=
      pass_next (by simp [hk]) (Instr.flow_of_straight hall.1 m)
    have hrest := ih (k + 1)
      (by simp only [straight, hall.2, Bool.and_true, decide_eq_true_eq]; omega)
      (blk.code[k].apply m) (by omega) hall.2
    rw [show k + (n + 1) = k + 1 + n by omega]
    simpa only [segment, hcons, List.foldl_cons] using Rounds.head hstep hrest

def nonvolatile (blk : Block) (k n : ℕ) : Bool :=
  ((blk.code.drop k).take n).all fun i => i.dest?.all fun r => decide (r < 14)

theorem segment_nonvolatile (blk : Block) (k n : ℕ) (h : blk.nonvolatile k n = true)
    (m : Machine) {r : Reg}
    (hr : 14 ≤ r) : (blk.segment k n m).gpr r = m.gpr r := by
  simp only [nonvolatile, segment] at h ⊢
  generalize (blk.code.drop k).take n = code at h ⊢
  induction code generalizing m with
  | nil => rfl
  | cons i code ih =>
    rw [List.all_cons, Bool.and_eq_true] at h
    have hi : i.dest? ≠ some r := by
      intro he
      have hlt : r < 14 := by simpa [he] using h.1
      exact absurd hlt (Fin.not_lt.mpr hr)
    rw [List.foldl_cons, ih (i.apply m) h.2, Instr.apply_gpr hi]

def within (blk : Block) (regs : List Reg) (fields : List (Fin 8)) (k n : ℕ) : Bool :=
  ((blk.code.drop k).take n).all fun
    | .cmpwi bf _ _ => fields.contains bf
    | .subic _ _ _ => false
    | i => i.dest?.all regs.contains

theorem segment_changesOnly (blk : Block) (regs : List Reg) (fields : List (Fin 8)) (k n : ℕ)
    (h : blk.within regs fields k n = true) (m : Machine) :
    m.ChangesOnly regs fields (blk.segment k n m) := by
  simp only [within, segment] at h ⊢
  generalize (blk.code.drop k).take n = code at h ⊢
  induction code generalizing m with
  | nil => exact .refl m
  | cons i code ih =>
    rw [List.all_cons, Bool.and_eq_true] at h
    refine Machine.ChangesOnly.trans ?_ (ih (i.apply m) h.2)
    cases i <;> simp only [Instr.dest?, Option.all, List.contains_iff_mem, Bool.false_eq_true,
      false_and] at h
    case cmpwi => exact .setCr h.1 _
    all_goals first
      | exact .refl m
      | exact .setGpr h.1 _

def Leads (blk : Block) (callee : Callee) (s : Point) (e : Exit) : Prop :=
  ∃ s', Rounds (blk.pass callee) s s' ∧ blk.pass callee s' = .leave e

theorem Leads.after {s s' : Point} {e : Exit} (h : Rounds (blk.pass callee) s s')
    (hl : blk.Leads callee s' e) : blk.Leads callee s e := by
  obtain ⟨t, ht, he⟩ := hl
  exact ⟨t, h.trans ht, he⟩

theorem exec_of_leads (h : blk.forward = true) {m : Machine} {e : Exit}
    (hl : blk.Leads callee ⟨0, m, []⟩ e) : blk.exec callee m = some e := by
  obtain ⟨s, hr, he⟩ := hl
  exact hr.run_eq he (exec_total h m)

end Block
end Patchwork.PowerPC
