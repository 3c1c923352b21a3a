import Patchwork.PowerPC

/-!
# The force-join blocks

The four blocks that replace the join-request handling of the games, at their
start addresses. Branch operands are byte displacements; the addresses in the
comments are those the displacements lead to. The LBP3 and LBP3 JP blocks differ
only in their start, the pointer they load and the functions they call.
-/

namespace Patchwork.ForceJoinPatch
open PowerPC BoundedLoop

def lbp1ForceJoinPatch : Block where
  start := 0x3ab70c
  code := [
    .rlwinm 0 25 0x0 0x18 0x1f,
    .cmpwi 7 0 0x0,
    .bne 7 0x3b,            -- 0x3ab74c
    .lis 3 0x86,
    .ori 3 3 0xd930,
    .lwz 3 0x0 3,
    .lwz 3 0x18 3,
    .or 4 27 27,
    .li 5 0x0,
    .bla 0x128b8c,          -- FindFriendEntryData
    .cmpwi 7 3 0x0,
    .beq 7 0xd3,            -- 0x3ab808
    .lwz 6 0x108 3,
    .cmpwi 7 6 0x0,
    .beq 7 0xc7,            -- 0x3ab808
    .ori 0 0 0x0]

def lbp2ForceJoinPatch : Block where
  start := 0x285fb8
  code := [
    .rlwinm 0 23 0x0 0x18 0x1f,
    .cmpwi 7 0 0x0,
    .bne 7 0x73,            -- 0x286030
    .lis 3 0xd9,
    .ori 3 3 0xb35c,
    .lwz 3 0x0 3,
    .lwz 3 0x1c 3,
    .or 4 27 27,
    .li 5 0x0,
    .bla 0x264148,          -- FindFriendDataEntry
    .cmpwi 7 3 0x0,
    .beq 7 0x10,            -- 0x285ff4
    .lwz 6 0xe8 3,
    .cmpwi 7 6 0x0,
    .bgt 7 0x43,            -- 0x286030
    .rldicl 3 25 0x0 0x20,
    .rldicl 4 28 0x0 0x20,
    .or 5 27 27,
    .li 6 0x0,
    .li 7 0x0,
    .li 8 0xc,
    .bla 0x285914,          -- DealWithRequestJoinParty
    .rlwinm 3 3 0x0 0x18 0x1f,
    .cmpwi 7 3 0x0,
    .bne 7 (-0xf0),         -- 0x285f28
    .rldicl 3 25 0x0 0x20,
    .rldicl 4 28 0x0 0x20,
    .or 5 27 27,
    .bla 0x282440,          -- ForwardRequestJoinPartyToLocalClient
    .b (-0x104)]            -- 0x285f28

def lbp3Block (start : BitVec 64) (managerHigh managerLow : ℤ) (find deal : ℕ) : Block where
  start := start
  code := [
    .cmpwi 0 28 0x0,
    .bne 0 0x33,            -- success path
    .lis 3 managerHigh,
    .subic 3 3 managerLow,
    .lwz 3 0x1c 3,
    .or 4 31 31,
    .li 5 0x0,
    .bla find,              -- FindFriendDataEntry
    .cmpwi 0 3 0x0,
    .beq 0 0x1b,            -- failure path
    .lwz 3 0xf0 3,
    .cmpwi 0 3 0x0,
    .beq 0 0xf,             -- failure path
    .li 26 0x1,
    .b 0x8,
    .li 26 0x0,
    .ori 3 29 0x0,
    .ori 4 30 0x0,
    .ori 5 31 0x0,
    .ori 6 28 0x0,
    .or 7 26 26,
    .li 8 0xd,
    .li 9 0x6,
    .bla deal,              -- DealWithRequestJoinParty
    .cmpwi 0 26 0x0,
    .bne 0 0x33,
    .cmpwi 0 3 0x0,
    .bne 0 0x2b]

def lbp3ForceJoinPatch : Block := lbp3Block 0x30561c 0xf8 0x5a80 0x2eb594 0x305090
def lbp3JPForceJoinPatch : Block := lbp3Block 0x301e34 0xf6 0x6000 0x2e821c 0x3018a8

/-- The friend entry that a call returned, and its invitation word. -/
def entry (c : Call) : BitVec 64 := c.after.gpr 3
def invitation (offset : BitVec 64) (c : Call) : BitVec 32 := word c.after.mem (entry c + offset)

def Invited (offset : BitVec 64) (test : BitVec 32 → Prop) (c : Call) : Prop :=
  low32 (entry c) ≠ 0 ∧ test (invitation offset c)

variable (callee : Callee) (m : Machine)

section LBP1

/-- What control does in the LBP1 block: only the entry that `FindFriendEntryData`
returns can let a join in that does not come from the local player. -/
structure Lbp1Gate (m : Machine) (e : Exit) : Prop where
  accept_iff : e.addr = 0x3ab74c ↔
    lowByte (m.gpr 25) ≠ 0 ∨ ∃ c ∈ e.calls, c.target = 0x128b8c ∧ Invited 0x108 (· ≠ 0) c
  otherwise : e.addr ≠ 0x3ab74c → e.addr = 0x3ab808
  asked : lowByte (m.gpr 25) = 0 → ∃ c, e.calls = [c] ∧ c.target = 0x128b8c

theorem lbp1_local (h : lowByte (m.gpr 25) ≠ 0) :
    ∃ m', lbp1ForceJoinPatch.exec callee m = some ⟨0x3ab74c, m', []⟩ := by
  let m₁ := lbp1ForceJoinPatch.segment 0 2 m
  have hne : ¬ (m₁.cr 7).eq = true := mt (Instr.lowByte_test m 7 0 25).mp h
  have hout : lbp1ForceJoinPatch.pass callee ⟨2, m₁, []⟩ = .leave ⟨0x3ab74c, m₁, []⟩ :=
    Block.pass_outside (i := .bne 7 0x3b) (d := 0x3b) rfl (if_neg hne) (by decide)
  exact ⟨m₁, Block.exec_of_leads (by decide)
    ⟨_, lbp1ForceJoinPatch.rounds_straight callee 0 2 (by decide) m [], hout⟩⟩

theorem lbp1_remote (h : lowByte (m.gpr 25) = 0) :
    ∃ c m' addr, c.target = 0x128b8c ∧ lbp1ForceJoinPatch.exec callee m = some ⟨addr, m', [c]⟩ ∧
      ((Invited 0x108 (· ≠ 0) c ∧ addr = 0x3ab74c) ∨
        (¬ Invited 0x108 (· ≠ 0) c ∧ addr = 0x3ab808)) := by
  let m₁ := lbp1ForceJoinPatch.segment 0 2 m
  have heq : (m₁.cr 7).eq = true := (Instr.lowByte_test m 7 0 25).mpr h
  have hfall : lbp1ForceJoinPatch.pass callee ⟨2, m₁, []⟩ = .again ⟨3, m₁, []⟩ :=
    Block.pass_next (i := .bne 7 0x3b) rfl (if_pos heq)
  let before : Machine := { lbp1ForceJoinPatch.segment 3 6 m₁ with lr := 0x3ab734 }
  let c : Call := ⟨0x128b8c, before, callee 0 0x128b8c before⟩
  let m₂ := lbp1ForceJoinPatch.segment 10 1 c.after
  have hfound : Rounds (lbp1ForceJoinPatch.pass callee) ⟨0, m, []⟩ ⟨11, m₂, [c]⟩ :=
    (lbp1ForceJoinPatch.rounds_straight callee 0 2 (by decide) m []).trans <| .head hfall <|
      (lbp1ForceJoinPatch.rounds_straight callee 3 6 (by decide) m₁ []).trans <| .head rfl <|
      lbp1ForceJoinPatch.rounds_straight callee 10 1 (by decide) c.after [c]
  have hnull : (m₂.cr 7).eq = true ↔ low32 (entry c) = 0 := Instr.cmpwi_eq c.after 7 3 0x0
  by_cases he : low32 (entry c) = 0
  · have hout : lbp1ForceJoinPatch.pass callee ⟨11, m₂, [c]⟩ = .leave ⟨0x3ab808, m₂, [c]⟩ :=
      Block.pass_outside (i := .beq 7 0xd3) (d := 0xd3) rfl (if_pos (hnull.mpr he)) (by decide)
    exact ⟨c, m₂, 0x3ab808, rfl, Block.exec_of_leads (by decide) ⟨_, hfound, hout⟩,
      .inr ⟨fun hi => hi.1 he, rfl⟩⟩
  · have hentry : lbp1ForceJoinPatch.pass callee ⟨11, m₂, [c]⟩ = .again ⟨12, m₂, [c]⟩ :=
      Block.pass_next (i := .beq 7 0xd3) rfl (if_neg (mt hnull.mp he))
    let m₃ := lbp1ForceJoinPatch.segment 12 2 m₂
    have hread : Rounds (lbp1ForceJoinPatch.pass callee) ⟨0, m, []⟩ ⟨14, m₃, [c]⟩ :=
      hfound.trans <| .head hentry <|
        lbp1ForceJoinPatch.rounds_straight callee 12 2 (by decide) m₂ [c]
    have hword : (m₃.cr 7).eq = true ↔ invitation 0x108 c = 0 :=
      Instr.word_test m₂ 7 6 0x108 (by decide)
    by_cases hw : invitation 0x108 c = 0
    · have hout : lbp1ForceJoinPatch.pass callee ⟨14, m₃, [c]⟩ = .leave ⟨0x3ab808, m₃, [c]⟩ :=
        Block.pass_outside (i := .beq 7 0xc7) (d := 0xc7) rfl (if_pos (hword.mpr hw)) (by decide)
      exact ⟨c, m₃, 0x3ab808, rfl, Block.exec_of_leads (by decide) ⟨_, hread, hout⟩,
        .inr ⟨fun hi => hi.2 hw, rfl⟩⟩
    · have hpass : lbp1ForceJoinPatch.pass callee ⟨14, m₃, [c]⟩ = .again ⟨15, m₃, [c]⟩ :=
        Block.pass_next (i := .beq 7 0xc7) rfl (if_neg (mt hword.mp hw))
      exact ⟨c, _, 0x3ab74c, rfl, Block.exec_of_leads (by decide) ⟨_, hread.trans <| .head hpass <|
        lbp1ForceJoinPatch.rounds_straight callee 15 1 (by decide) m₃ [c], rfl⟩,
        .inl ⟨⟨he, hw⟩, rfl⟩⟩

theorem lbp1_gate : ∃ e, lbp1ForceJoinPatch.exec callee m = some e ∧ Lbp1Gate m e := by
  by_cases h : lowByte (m.gpr 25) = 0
  · obtain ⟨c, m', addr, ht, he, ⟨hi, rfl⟩ | ⟨hi, rfl⟩⟩ := lbp1_remote callee m h
    · exact ⟨_, he, iff_of_true rfl (.inr ⟨c, by simp, ht, hi⟩), fun hne => absurd rfl hne,
        fun _ => ⟨c, rfl, ht⟩⟩
    · refine ⟨_, he, iff_of_false (by simp) ?_, fun _ => rfl, fun _ => ⟨c, rfl, ht⟩⟩
      intro haccept
      obtain hl | ⟨c', hc, -, hi'⟩ := haccept
      · exact hl h
      · exact hi (List.mem_singleton.mp hc ▸ hi')
  · obtain ⟨m', he⟩ := lbp1_local callee m h
    exact ⟨_, he, iff_of_true rfl (.inl h), fun hne => absurd rfl hne, fun h0 => absurd h0 h⟩

end LBP1

section LBP2

structure RequestArgs (m before : Machine) : Prop where
  this : before.gpr 3 = (low32 (m.gpr 25)).setWidth 64
  message : before.gpr 4 = (low32 (m.gpr 28)).setWidth 64
  source : before.gpr 5 = m.gpr 27

/-- The calls after a refusal: `DealWithRequestJoinParty` for a join that is not
local, then `ForwardRequestJoinPartyToLocalClient` if that returned false. -/
def Lbp2Refused (m : Machine) (find : Call) (cs : List Call) : Prop :=
  ∃ deal, deal.target = 0x285914 ∧ deal.before.gpr 6 = 0 ∧ RequestArgs m deal.before ∧
    ((lowByte (deal.after.gpr 3) ≠ 0 ∧ cs = [find, deal]) ∨
      (lowByte (deal.after.gpr 3) = 0 ∧ ∃ forward, forward.target = 0x282440 ∧
        RequestArgs m forward.before ∧ cs = [find, deal, forward]))

theorem Lbp2Refused.mem_find {m : Machine} {find : Call} {cs : List Call}
    (h : Lbp2Refused m find cs) : find ∈ cs := by
  obtain ⟨deal, -, -, -, ⟨-, rfl⟩ | ⟨-, forward, -, -, rfl⟩⟩ := h <;> simp

theorem Lbp2Refused.eq_find {m : Machine} {find : Call} {cs : List Call}
    (h : Lbp2Refused m find cs) {c : Call} (hc : c ∈ cs) (ht : c.target = 0x264148) : c = find := by
  obtain ⟨deal, hd, -, -, ⟨-, rfl⟩ | ⟨-, forward, hf, -, rfl⟩⟩ := h
  · obtain rfl | rfl : c = find ∨ c = deal := by simpa using hc
    · rfl
    · exact absurd (ht.symm.trans hd) (by decide)
  · obtain rfl | rfl | rfl : c = find ∨ c = deal ∨ c = forward := by simpa using hc
    · rfl
    · exact absurd (ht.symm.trans hd) (by decide)
    · exact absurd (ht.symm.trans hf) (by decide)

structure Lbp2Gate (m : Machine) (e : Exit) : Prop where
  accept_iff : e.addr = 0x286030 ↔
    lowByte (m.gpr 23) ≠ 0 ∨ ∃ c ∈ e.calls, c.target = 0x264148 ∧ Invited 0xe8 (0 < ·.toInt) c
  asked : lowByte (m.gpr 23) = 0 → ∃ c ∈ e.calls, c.target = 0x264148
  accepted : e.addr = 0x286030 → ∀ c ∈ e.calls, c.target = 0x264148
  otherwise : e.addr ≠ 0x286030 → e.addr = 0x285f28 ∧
    ∃ find, find.target = 0x264148 ∧ Lbp2Refused m find e.calls

theorem lbp2_local (h : lowByte (m.gpr 23) ≠ 0) :
    ∃ m', lbp2ForceJoinPatch.exec callee m = some ⟨0x286030, m', []⟩ := by
  let m₁ := lbp2ForceJoinPatch.segment 0 2 m
  have hne : ¬ (m₁.cr 7).eq = true := mt (Instr.lowByte_test m 7 0 23).mp h
  have hout : lbp2ForceJoinPatch.pass callee ⟨2, m₁, []⟩ = .leave ⟨0x286030, m₁, []⟩ :=
    Block.pass_outside (i := .bne 7 0x73) (d := 0x73) rfl (if_neg hne) (by decide)
  exact ⟨m₁, Block.exec_of_leads (by decide)
    ⟨_, lbp2ForceJoinPatch.rounds_straight callee 0 2 (by decide) m [], hout⟩⟩

def setRequestArgs (m : Machine) : Machine :=
  (Instr.or 5 27 27).apply
    ((Instr.rldicl 4 28 0x0 0x20).apply ((Instr.rldicl 3 25 0x0 0x20).apply m))

theorem setRequestArgs_spec {m m₁ : Machine} (hreg : ∀ r : Reg, 14 ≤ r → m₁.gpr r = m.gpr r) :
    RequestArgs m (setRequestArgs m₁) := by
  rw [setRequestArgs, Instr.rldicl_low32, Instr.rldicl_low32]
  constructor <;> simp [Instr.apply, Machine.setGpr_of_ne, hreg]

theorem lbp2_refused (hv : callee.Nonvolatile) {m₁ : Machine} (find : Call)
    (hreg : ∀ r : Reg, 14 ≤ r → m₁.gpr r = m.gpr r) :
    ∃ m' cs, Lbp2Refused m find cs ∧
      lbp2ForceJoinPatch.Leads callee ⟨15, m₁, [find]⟩ ⟨0x285f28, m', cs⟩ := by
  let before : Machine := { lbp2ForceJoinPatch.segment 15 6 m₁ with lr := 0x286010 }
  let deal : Call := ⟨0x285914, before, callee 1 0x285914 before⟩
  have hargs : RequestArgs m deal.before := by
    obtain ⟨h3, h4, h5⟩ := setRequestArgs_spec hreg
    exact ⟨h3, h4, h5⟩
  let m₂ := lbp2ForceJoinPatch.segment 22 2 deal.after
  have hdealt : Rounds (lbp2ForceJoinPatch.pass callee) ⟨15, m₁, [find]⟩ ⟨24, m₂, [find, deal]⟩ :=
    (lbp2ForceJoinPatch.rounds_straight callee 15 6 (by decide) m₁ [find]).trans <| .head rfl <|
      lbp2ForceJoinPatch.rounds_straight callee 22 2 (by decide) deal.after [find, deal]
  have htest : (m₂.cr 7).eq = true ↔ lowByte (deal.after.gpr 3) = 0 :=
    Instr.lowByte_test deal.after 7 3 3
  by_cases hr : lowByte (deal.after.gpr 3) = 0
  · have hfall : lbp2ForceJoinPatch.pass callee ⟨24, m₂, [find, deal]⟩ =
        .again ⟨25, m₂, [find, deal]⟩ :=
      Block.pass_next (i := .bne 7 (-0xf0)) rfl (if_pos (htest.mpr hr))
    let before' : Machine := { lbp2ForceJoinPatch.segment 25 3 m₂ with lr := 0x28602c }
    let forward : Call := ⟨0x282440, before', callee 2 0x282440 before'⟩
    have hargs' : RequestArgs m forward.before := by
      have hreg' : ∀ r : Reg, 14 ≤ r → m₂.gpr r = m.gpr r := by
        intro r hr
        calc
          m₂.gpr r = deal.after.gpr r :=
            lbp2ForceJoinPatch.segment_nonvolatile 22 2 (by decide) deal.after hr
          _ = deal.before.gpr r := hv _ _ _ r hr
          _ = m₁.gpr r := lbp2ForceJoinPatch.segment_nonvolatile 15 6 (by decide) m₁ hr
          _ = m.gpr r := hreg r hr
      obtain ⟨h3, h4, h5⟩ := setRequestArgs_spec hreg'
      exact ⟨h3, h4, h5⟩
    have hout : lbp2ForceJoinPatch.pass callee ⟨29, forward.after, [find, deal, forward]⟩ =
        .leave ⟨0x285f28, forward.after, [find, deal, forward]⟩ :=
      Block.pass_outside (i := .b (-0x104)) (d := -0x104) rfl rfl (by decide)
    exact ⟨forward.after, _, ⟨deal, rfl, rfl, hargs, .inr ⟨hr, forward, rfl, hargs', rfl⟩⟩,
      _, hdealt.trans <| .head hfall <|
        (lbp2ForceJoinPatch.rounds_straight callee 25 3 (by decide) m₂ [find, deal]).trans <|
        .head rfl (.refl _), hout⟩
  · have hout : lbp2ForceJoinPatch.pass callee ⟨24, m₂, [find, deal]⟩ =
        .leave ⟨0x285f28, m₂, [find, deal]⟩ :=
      Block.pass_outside (i := .bne 7 (-0xf0)) (d := -0xf0) rfl (if_neg (mt htest.mp hr))
        (by decide)
    exact ⟨m₂, _, ⟨deal, rfl, rfl, hargs, .inl ⟨hr, rfl⟩⟩, _, hdealt, hout⟩

theorem lbp2_remote (hv : callee.Nonvolatile) (h : lowByte (m.gpr 23) = 0) :
    ∃ find e, find.target = 0x264148 ∧ lbp2ForceJoinPatch.exec callee m = some e ∧
      ((Invited 0xe8 (0 < ·.toInt) find ∧ e.addr = 0x286030 ∧ e.calls = [find]) ∨
        (¬ Invited 0xe8 (0 < ·.toInt) find ∧ e.addr = 0x285f28 ∧ Lbp2Refused m find e.calls)) := by
  let m₁ := lbp2ForceJoinPatch.segment 0 2 m
  have heq : (m₁.cr 7).eq = true := (Instr.lowByte_test m 7 0 23).mpr h
  have hfall : lbp2ForceJoinPatch.pass callee ⟨2, m₁, []⟩ = .again ⟨3, m₁, []⟩ :=
    Block.pass_next (i := .bne 7 0x73) rfl (if_pos heq)
  let before : Machine := { lbp2ForceJoinPatch.segment 3 6 m₁ with lr := 0x285fe0 }
  let find : Call := ⟨0x264148, before, callee 0 0x264148 before⟩
  let m₂ := lbp2ForceJoinPatch.segment 10 1 find.after
  have hfound : Rounds (lbp2ForceJoinPatch.pass callee) ⟨0, m, []⟩ ⟨11, m₂, [find]⟩ :=
    (lbp2ForceJoinPatch.rounds_straight callee 0 2 (by decide) m []).trans <| .head hfall <|
      (lbp2ForceJoinPatch.rounds_straight callee 3 6 (by decide) m₁ []).trans <| .head rfl <|
      lbp2ForceJoinPatch.rounds_straight callee 10 1 (by decide) find.after [find]
  have hreg : ∀ r : Reg, 14 ≤ r → m₂.gpr r = m.gpr r := by
    intro r hr
    calc
      m₂.gpr r = find.after.gpr r :=
        lbp2ForceJoinPatch.segment_nonvolatile 10 1 (by decide) find.after hr
      _ = find.before.gpr r := hv _ _ _ r hr
      _ = m₁.gpr r := lbp2ForceJoinPatch.segment_nonvolatile 3 6 (by decide) m₁ hr
      _ = m.gpr r := lbp2ForceJoinPatch.segment_nonvolatile 0 2 (by decide) m hr
  have hnull : (m₂.cr 7).eq = true ↔ low32 (entry find) = 0 := Instr.cmpwi_eq find.after 7 3 0x0
  by_cases he : low32 (entry find) = 0
  · have hjump : lbp2ForceJoinPatch.pass callee ⟨11, m₂, [find]⟩ = .again ⟨15, m₂, [find]⟩ :=
      Block.pass_inside (i := .beq 7 0x10) (d := 0x10) rfl (if_pos (hnull.mpr he)) (by decide)
    obtain ⟨m', cs, hcs, hl⟩ := lbp2_refused callee m hv find hreg
    exact ⟨find, _, rfl, Block.exec_of_leads (by decide)
      (.after (hfound.trans (.head hjump (.refl _))) hl),
      .inr ⟨fun hi => hi.1 he, rfl, hcs⟩⟩
  · have hentry : lbp2ForceJoinPatch.pass callee ⟨11, m₂, [find]⟩ = .again ⟨12, m₂, [find]⟩ :=
      Block.pass_next (i := .beq 7 0x10) rfl (if_neg (mt hnull.mp he))
    let m₃ := lbp2ForceJoinPatch.segment 12 2 m₂
    have hread : Rounds (lbp2ForceJoinPatch.pass callee) ⟨0, m, []⟩ ⟨14, m₃, [find]⟩ :=
      hfound.trans <| .head hentry <|
        lbp2ForceJoinPatch.rounds_straight callee 12 2 (by decide) m₂ [find]
    have hword : (m₃.cr 7).gt = true ↔ 0 < (invitation 0xe8 find).toInt :=
      Instr.word_test_pos m₂ 7 6 0xe8 (by decide)
    by_cases hw : 0 < (invitation 0xe8 find).toInt
    · have hout : lbp2ForceJoinPatch.pass callee ⟨14, m₃, [find]⟩ = .leave ⟨0x286030, m₃, [find]⟩ :=
        Block.pass_outside (i := .bgt 7 0x43) (d := 0x43) rfl (if_pos (hword.mpr hw)) (by decide)
      exact ⟨find, _, rfl, Block.exec_of_leads (by decide) ⟨_, hread, hout⟩,
        .inl ⟨⟨he, hw⟩, rfl, rfl⟩⟩
    · have hpass : lbp2ForceJoinPatch.pass callee ⟨14, m₃, [find]⟩ = .again ⟨15, m₃, [find]⟩ :=
        Block.pass_next (i := .bgt 7 0x43) rfl (if_neg (mt hword.mp hw))
      have hreg' : ∀ r : Reg, 14 ≤ r → m₃.gpr r = m.gpr r := fun r hr =>
        (lbp2ForceJoinPatch.segment_nonvolatile 12 2 (by decide) m₂ hr).trans (hreg r hr)
      obtain ⟨m', cs, hcs, hl⟩ := lbp2_refused callee m hv find hreg'
      exact ⟨find, _, rfl,
        Block.exec_of_leads (by decide) (.after (hread.trans (.head hpass (.refl _))) hl),
        .inr ⟨fun hi => hw hi.2, rfl, hcs⟩⟩

theorem lbp2_gate (hv : callee.Nonvolatile) :
    ∃ e, lbp2ForceJoinPatch.exec callee m = some e ∧ Lbp2Gate m e := by
  by_cases h : lowByte (m.gpr 23) = 0
  · obtain ⟨find, e, ht, he, ⟨hi, ha, hcs⟩ | ⟨hi, ha, hcs⟩⟩ := lbp2_remote callee m hv h
    · have hfind : ∀ c ∈ e.calls, c = find := by simp [hcs]
      exact ⟨e, he, iff_of_true ha (.inr ⟨find, by simp [hcs], ht, hi⟩),
        fun _ => ⟨find, by simp [hcs], ht⟩, fun _ c hc => hfind c hc ▸ ht,
        fun hne => absurd ha hne⟩
    · have hne : e.addr ≠ 0x286030 := by rw [ha]; decide
      refine ⟨e, he, iff_of_false hne ?_, fun _ => ⟨find, hcs.mem_find, ht⟩,
        fun hac => absurd hac hne, fun _ => ⟨ha, find, ht, hcs⟩⟩
      intro haccept
      obtain hl | ⟨c, hc, hct, hi'⟩ := haccept
      · exact hl h
      · exact hi (hcs.eq_find hc hct ▸ hi')
  · obtain ⟨m', he⟩ := lbp2_local callee m h
    exact ⟨_, he, iff_of_true rfl (.inl h), fun h0 => absurd h0 h, fun _ c hc => by simp at hc,
      fun hne => absurd rfl hne⟩

end LBP2
section LBP3
variable (start : BitVec 64) (managerHigh managerLow : ℤ) (find deal : ℕ)

structure Lbp3Dealt (m : Machine) (target : BitVec 64) (skip : Bool) (d : Call) : Prop where
  target_eq : d.target = target
  this : d.before.gpr 3 = m.gpr 29
  message : d.before.gpr 4 = m.gpr 30
  source : d.before.gpr 5 = m.gpr 31
  isLocal : d.before.gpr 6 = m.gpr 28
  skip_checks : d.before.gpr 7 = if skip then 1 else 0

/-- The LBP3 blocks always make that call, once; the entry decides `skip_checks`,
and `skip_checks` or a result other than zero decides where control leaves. -/
def Lbp3Gate (blk : Block) (find deal : BitVec 64) (m : Machine) (e : Exit) : Prop :=
  ∃ skip d, Lbp3Dealt m deal skip d ∧
    (low32 (m.gpr 28) ≠ 0 → skip = true ∧ e.calls = [d]) ∧
    (low32 (m.gpr 28) = 0 → ∃ c, c.target = find ∧ e.calls = [c, d] ∧
      (skip = true ↔ Invited 0xf0 (· ≠ 0) c)) ∧
    e.addr = if skip = true ∨ low32 (d.after.gpr 3) ≠ 0 then blk.start + 0x94 else blk.start + 0x70

theorem lbp3_deal (hv : callee.Nonvolatile) {m₁ : Machine} (cs : List Call) (skip : Bool)
    (hskip : m₁.gpr 26 = if skip then 1 else 0) (hreg : ∀ r : Reg, 28 ≤ r → m₁.gpr r = m.gpr r) :
    ∃ d m', Lbp3Dealt m (BitVec.ofNat 64 deal) skip d ∧
      (lbp3Block start managerHigh managerLow find deal).Leads callee ⟨16, m₁, cs⟩
        ⟨if skip = true ∨ low32 (d.after.gpr 3) ≠ 0 then start + 0x94 else start + 0x70, m',
          cs ++ [d]⟩ := by
  let blk := lbp3Block start managerHigh managerLow find deal
  let before : Machine := { blk.segment 16 7 m₁ with lr := blk.address 24 }
  let d : Call := ⟨BitVec.ofNat 64 deal, before, callee cs.length (BitVec.ofNat 64 deal) before⟩
  have hdealt : Lbp3Dealt m (BitVec.ofNat 64 deal) skip d := by
    have hbefore : before.gpr = ((((((m₁.setGpr 3 (m.gpr 29)).setGpr 4 (m.gpr 30)).setGpr 5
        (m.gpr 31)).setGpr 6 (m.gpr 28)).setGpr 7 (m₁.gpr 26)).setGpr 8 0xd
          |>.setGpr 9 0x6).gpr := by
      simp [before, blk, Block.segment, lbp3Block, Instr.apply, Machine.setGpr_of_ne, hreg]
    refine ⟨rfl, ?_, ?_, ?_, ?_, ?_⟩ <;> simp [d, hbefore, Machine.setGpr_of_ne, hskip]
  let m₂ := blk.segment 24 1 d.after
  have hcalled : Rounds (blk.pass callee) ⟨16, m₁, cs⟩ ⟨25, m₂, cs ++ [d]⟩ :=
    (blk.rounds_straight callee 16 7 rfl m₁ cs).trans <| .head rfl <|
      blk.rounds_straight callee 24 1 rfl d.after (cs ++ [d])
  have hkept : d.after.gpr 26 = if skip then 1 else 0 :=
    (hv _ _ _ 26 (by decide)).trans ((blk.segment_nonvolatile 16 7 rfl m₁ (by decide)).trans hskip)
  have htest : (m₂.cr 0).eq = true ↔ low32 (d.after.gpr 26) = 0 := Instr.cmpwi_eq d.after 0 26 0x0
  rw [hkept] at htest
  cases skip with
  | true =>
    have hne : ¬ (m₂.cr 0).eq = true := mt htest.mp (by decide)
    have hout : blk.pass callee ⟨25, m₂, cs ++ [d]⟩ = .leave ⟨start + 0x94, m₂, cs ++ [d]⟩ :=
      Block.pass_outside (i := .bne 0 0x33) (d := 0x33) rfl (if_neg hne) (by simp [blk, lbp3Block])
    exact ⟨d, m₂, hdealt, _, hcalled, by rw [if_pos (.inl rfl)]; exact hout⟩
  | false =>
    have hfall : blk.pass callee ⟨25, m₂, cs ++ [d]⟩ = .again ⟨26, m₂, cs ++ [d]⟩ :=
      Block.pass_next (i := .bne 0 0x33) rfl (if_pos (htest.mpr (by decide)))
    let m₃ := blk.segment 26 1 m₂
    have hchecked : Rounds (blk.pass callee) ⟨16, m₁, cs⟩ ⟨27, m₃, cs ++ [d]⟩ :=
      hcalled.trans <| .head hfall <| blk.rounds_straight callee 26 1 rfl m₂ (cs ++ [d])
    have hresult : (m₃.cr 0).eq = true ↔ low32 (d.after.gpr 3) = 0 := Instr.cmpwi_eq m₂ 0 3 0x0
    by_cases hr : low32 (d.after.gpr 3) = 0
    · have hend : blk.pass callee ⟨27, m₃, cs ++ [d]⟩ = .again ⟨28, m₃, cs ++ [d]⟩ :=
        Block.pass_next (i := .bne 0 0x2b) rfl (if_pos (hresult.mpr hr))
      have hout : blk.pass callee ⟨28, m₃, cs ++ [d]⟩ = .leave ⟨start + 0x70, m₃, cs ++ [d]⟩ := rfl
      exact ⟨d, m₃, hdealt, _, hchecked.trans (.head hend (.refl _)),
        by rw [if_neg (by simp [hr])]; exact hout⟩
    · have hout : blk.pass callee ⟨27, m₃, cs ++ [d]⟩ = .leave ⟨start + 0x94, m₃, cs ++ [d]⟩ :=
        Block.pass_outside (i := .bne 0 0x2b) (d := 0x2b) rfl (if_neg (mt hresult.mp hr))
          (by simp [blk, lbp3Block])
      exact ⟨d, m₃, hdealt, _, hchecked, by rw [if_pos (.inr hr)]; exact hout⟩

theorem lbp3_skip_checks (m : Machine) (cs : List Call) (skip : Bool) :
    Rounds ((lbp3Block start managerHigh managerLow find deal).pass callee)
      ⟨if skip then 13 else 15, m, cs⟩ ⟨16, m.setGpr 26 (if skip then 1 else 0), cs⟩ := by
  cases skip with
  | true => exact .head rfl (.head rfl (.refl _))
  | false => exact .head rfl (.refl _)

theorem lbp3_decided (hv : callee.Nonvolatile) {m₁ : Machine} {cs : List Call} (skip : Bool)
    (hreg : ∀ r : Reg, 14 ≤ r → m₁.gpr r = m.gpr r)
    (hr : Rounds ((lbp3Block start managerHigh managerLow find deal).pass callee) ⟨0, m, []⟩
      ⟨if skip then 13 else 15, m₁, cs⟩) :
    ∃ d m', Lbp3Dealt m (BitVec.ofNat 64 deal) skip d ∧
      (lbp3Block start managerHigh managerLow find deal).exec callee m = some
        ⟨if skip = true ∨ low32 (d.after.gpr 3) ≠ 0 then start + 0x94 else start + 0x70, m',
          cs ++ [d]⟩ := by
  have hkept : ∀ r : Reg, 28 ≤ r → (m₁.setGpr 26 (if skip then 1 else 0)).gpr r = m.gpr r := by
    intro r hr
    rw [Machine.setGpr_of_ne _ (by rintro rfl; exact absurd hr (by decide))]
    exact hreg r (Fin.le_trans (by decide) hr)
  obtain ⟨d, m', hd, hl⟩ := lbp3_deal callee m start managerHigh managerLow find deal hv cs skip
    (Machine.setGpr_self m₁ 26 _) hkept
  exact ⟨d, m', hd, Block.exec_of_leads rfl
    (.after (hr.trans
      (lbp3_skip_checks callee start managerHigh managerLow find deal m₁ cs skip)) hl)⟩

theorem lbp3_gate (hv : callee.Nonvolatile) :
    ∃ e, (lbp3Block start managerHigh managerLow find deal).exec callee m = some e ∧
      Lbp3Gate (lbp3Block start managerHigh managerLow find deal) (BitVec.ofNat 64 find)
        (BitVec.ofNat 64 deal) m e := by
  let blk := lbp3Block start managerHigh managerLow find deal
  let m₁ := blk.segment 0 1 m
  have hlocal : (m₁.cr 0).eq = true ↔ low32 (m.gpr 28) = 0 := Instr.cmpwi_eq m 0 28 0x0
  by_cases h : low32 (m.gpr 28) = 0
  · have hfall : blk.pass callee ⟨1, m₁, []⟩ = .again ⟨2, m₁, []⟩ :=
      Block.pass_next (i := .bne 0 0x33) rfl (if_pos (hlocal.mpr h))
    let before : Machine := { blk.segment 2 5 m₁ with lr := blk.address 8 }
    let c : Call := ⟨BitVec.ofNat 64 find, before, callee 0 (BitVec.ofNat 64 find) before⟩
    let m₂ := blk.segment 8 1 c.after
    have hfound : Rounds (blk.pass callee) ⟨0, m, []⟩ ⟨9, m₂, [c]⟩ :=
      (blk.rounds_straight callee 0 1 rfl m []).trans <| .head hfall <|
        (blk.rounds_straight callee 2 5 rfl m₁ []).trans <| .head rfl <|
        blk.rounds_straight callee 8 1 rfl c.after [c]
    have hreg : ∀ r : Reg, 14 ≤ r → m₂.gpr r = m.gpr r := by
      intro r hr
      calc
        m₂.gpr r = c.after.gpr r := blk.segment_nonvolatile 8 1 rfl c.after hr
        _ = c.before.gpr r := hv _ _ _ r hr
        _ = m₁.gpr r := blk.segment_nonvolatile 2 5 rfl m₁ hr
        _ = m.gpr r := blk.segment_nonvolatile 0 1 rfl m hr
    have hnull : (m₂.cr 0).eq = true ↔ low32 (entry c) = 0 := Instr.cmpwi_eq c.after 0 3 0x0
    have hrun : ∃ m₃ skip, (skip = true ↔ Invited 0xf0 (· ≠ 0) c) ∧
        (∀ r : Reg, 14 ≤ r → m₃.gpr r = m.gpr r) ∧
        Rounds (blk.pass callee) ⟨0, m, []⟩ ⟨if skip then 13 else 15, m₃, [c]⟩ := by
      by_cases he : low32 (entry c) = 0
      · have hjump : blk.pass callee ⟨9, m₂, [c]⟩ = .again ⟨15, m₂, [c]⟩ :=
          Block.pass_inside (i := .beq 0 0x1b) (d := 0x1b) rfl (if_pos (hnull.mpr he))
            (by simp [blk, lbp3Block])
        exact ⟨m₂, false, iff_of_false (by decide) (fun hi => hi.1 he), hreg,
          hfound.trans (.head hjump (.refl _))⟩
      · have hentry : blk.pass callee ⟨9, m₂, [c]⟩ = .again ⟨10, m₂, [c]⟩ :=
          Block.pass_next (i := .beq 0 0x1b) rfl (if_neg (mt hnull.mp he))
        let m₃ := blk.segment 10 2 m₂
        have hread : Rounds (blk.pass callee) ⟨0, m, []⟩ ⟨12, m₃, [c]⟩ :=
          hfound.trans <| .head hentry <| blk.rounds_straight callee 10 2 rfl m₂ [c]
        have hreg' : ∀ r : Reg, 14 ≤ r → m₃.gpr r = m.gpr r := fun r hr =>
          (blk.segment_nonvolatile 10 2 rfl m₂ hr).trans (hreg r hr)
        have hword : (m₃.cr 0).eq = true ↔ invitation 0xf0 c = 0 :=
          Instr.word_test m₂ 0 3 0xf0 (by decide)
        by_cases hw : invitation 0xf0 c = 0
        · have hjump : blk.pass callee ⟨12, m₃, [c]⟩ = .again ⟨15, m₃, [c]⟩ :=
            Block.pass_inside (i := .beq 0 0xf) (d := 0xf) rfl (if_pos (hword.mpr hw))
              (by simp [blk, lbp3Block])
          exact ⟨m₃, false, iff_of_false (by decide) (fun hi => hi.2 hw), hreg',
            hread.trans (.head hjump (.refl _))⟩
        · have hpass : blk.pass callee ⟨12, m₃, [c]⟩ = .again ⟨13, m₃, [c]⟩ :=
            Block.pass_next (i := .beq 0 0xf) rfl (if_neg (mt hword.mp hw))
          exact ⟨m₃, true, iff_of_true rfl ⟨he, hw⟩, hreg', hread.trans (.head hpass (.refl _))⟩
    obtain ⟨m₃, skip, hskip, hreg₃, hr⟩ := hrun
    obtain ⟨d, m', hd, he⟩ :=
      lbp3_decided callee m start managerHigh managerLow find deal hv skip hreg₃ hr
    exact ⟨_, he, skip, d, hd, fun hne => absurd h hne, fun _ => ⟨c, rfl, rfl, hskip⟩, rfl⟩
  · have hjump : blk.pass callee ⟨1, m₁, []⟩ = .again ⟨13, m₁, []⟩ :=
      Block.pass_inside (i := .bne 0 0x33) (d := 0x33) rfl (if_neg (mt hlocal.mp h))
        (by simp [blk, lbp3Block])
    have hr : Rounds (blk.pass callee) ⟨0, m, []⟩ ⟨13, m₁, []⟩ :=
      (blk.rounds_straight callee 0 1 rfl m []).trans (.head hjump (.refl _))
    obtain ⟨d, m', hd, he⟩ := lbp3_decided callee m start managerHigh managerLow find deal hv true
      (fun r hr => blk.segment_nonvolatile 0 1 rfl m hr) hr
    exact ⟨_, he, true, d, hd, fun _ => ⟨rfl, rfl⟩, fun h0 => absurd h0 h, rfl⟩

end LBP3

/-- The gate of every game, for any callee that keeps registers 14 to 31: what
the game's functions return and do to memory, and whether a join is let in. -/
theorem forceJoin_gate (hv : callee.Nonvolatile) :
    (∃ e, lbp1ForceJoinPatch.exec callee m = some e ∧ Lbp1Gate m e) ∧
    (∃ e, lbp2ForceJoinPatch.exec callee m = some e ∧ Lbp2Gate m e) ∧
    (∃ e, lbp3ForceJoinPatch.exec callee m = some e ∧
      Lbp3Gate lbp3ForceJoinPatch 0x2eb594 0x305090 m e) ∧
    (∃ e, lbp3JPForceJoinPatch.exec callee m = some e ∧
      Lbp3Gate lbp3JPForceJoinPatch 0x2e821c 0x3018a8 m e) :=
  ⟨lbp1_gate callee m, lbp2_gate callee m hv, lbp3_gate callee m _ _ _ _ _ hv,
    lbp3_gate callee m _ _ _ _ _ hv⟩

def strangers : Callee := fun _ _ m => m.setGpr 3 0
def blankMachine : Machine :=
  ⟨fun _ => 0, fun _ => ⟨false, false, false, false⟩, 0, false, false, fun _ => 0⟩

theorem forceJoin_gate_strangers :
    (∃ e, lbp1ForceJoinPatch.exec strangers blankMachine = some e ∧ Lbp1Gate blankMachine e) ∧
    (∃ e, lbp2ForceJoinPatch.exec strangers blankMachine = some e ∧ Lbp2Gate blankMachine e) ∧
    (∃ e, lbp3ForceJoinPatch.exec strangers blankMachine = some e ∧
      Lbp3Gate lbp3ForceJoinPatch 0x2eb594 0x305090 blankMachine e) ∧
    (∃ e, lbp3JPForceJoinPatch.exec strangers blankMachine = some e ∧
      Lbp3Gate lbp3JPForceJoinPatch 0x2e821c 0x3018a8 blankMachine e) := by
  refine forceJoin_gate strangers blankMachine fun _ _ m r hr => Machine.setGpr_of_ne 0 ?_
  rintro rfl
  exact absurd hr (by decide)

end Patchwork.ForceJoinPatch
