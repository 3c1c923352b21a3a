import Patchwork.ConfiguredStrings
import Patchwork.HookBranch
import Patchwork.JoinPolicy
import Patchwork.MachineCode
import Patchwork.ScriptBlock
import Patchwork.TableBytes

/-!
# The patched game

What the processor does in the memory that `start` leaves. The table has put the words of
a join block over the game's own, and at the resource check a branch to the script
hook, which stays where the module was loaded. Running these words comes to the exits of
the two blocks.
-/

namespace Patchwork.JoinPolicy.Game
open ForceJoinPatch Patches PowerPC ScriptBlock

def number : Game → GameNumber
  | .lbp1 => .lbp1
  | .lbp2 => .lbp2
  | .lbp3 => .lbp3
  | .lbp3JP => .lbp3JP

def joinOffset : Game → ℕ
  | .lbp1 => lbp1ForceJoinPatchOffset
  | .lbp2 => lbp2ForceJoinPatchOffset
  | .lbp3 => lbp3ForceJoinPatchOffset
  | .lbp3JP => lbp3JPForceJoinPatchOffset

def joinSource (G : Globals) : Game → ℕ
  | .lbp1 => G.lbp1ForceJoinPatch
  | .lbp2 => G.lbp2ForceJoinPatch
  | .lbp3 => G.lbp3ForceJoinPatch
  | .lbp3JP => G.lbp3JPForceJoinPatch

def checkOffset : Game → ℕ
  | .lbp1 => lbp1ResourceCheckOffset
  | .lbp2 => lbp2ResourceCheckOffset
  | .lbp3 => lbp3ResourceCheckOffset
  | .lbp3JP => lbp3JPResourceCheckOffset

def hookSource (G : Globals) : Game → ℕ
  | .lbp1 => G.lbp1ScriptHook
  | .lbp2 => G.lbp2ScriptHook
  | .lbp3 => G.lbp3ScriptHook
  | .lbp3JP => G.lbp3JPScriptHook

def hook : Game → BitVec 64 → Block
  | .lbp1 => lbp1ScriptHook
  | .lbp2 => lbp2ScriptHook
  | .lbp3 => lbp3ScriptHook
  | .lbp3JP => lbp3JPScriptHook

def silenced : Game → List (ℕ × ℕ × Reg)
  | .lbp1 => []
  | .lbp2 => [(lbp2NotificationEnableOffset, 0x38000000, 0)]
  | .lbp3 => [(lbp3NotificationEnableOffset, 0x38600000, 3)]
  | .lbp3JP => [(lbp3JPNotificationEnableOffset, 0x38600000, 3)]

def exits : Game → List ℕ
  | .lbp1 => [0x81BCC, 0x81B40]
  | .lbp2 => [0x153D78, 0x153D3C]
  | .lbp3 => [0x1CFC78, 0x1CFD10]
  | .lbp3JP => [0x1CFB14, 0x1CFBAC]

def Gate (m : Machine) (e : Exit) : Game → Prop
  | .lbp1 => Lbp1Gate m e
  | .lbp2 => Lbp2Gate m e
  | .lbp3 => Lbp3Gate lbp3ForceJoinPatch 0x2eb594 0x305090 m e
  | .lbp3JP => Lbp3Gate lbp3JPForceJoinPatch 0x2e821c 0x3018a8 m e

def Filtered (m : Machine) (e : Exit) : Game → Prop
  | .lbp1 => Lbp1Hook m e
  | .lbp2 => Filters 0x153D3C 0x153D78 (ScriptBlock.Lbp2Refused m) [0] [7] m e
  | .lbp3 => Filters 0x1CFD10 0x1CFC78 (Lbp3Refused m) [3] [0, 7] m e
  | .lbp3JP => Filters 0x1CFBAC 0x1CFB14 (Lbp3Refused m) [3] [0, 7] m e

end Patchwork.JoinPolicy.Game

namespace Patchwork.PatchedGame
open BoundedLoop ByteMemory ConfiguredStrings Console ForceJoinPatch HookBranch JoinPolicy Patches
open PowerPC Prx ScriptBlock TableBytes TableFrame

def within (start : BitVec 64) (n : ℕ) (pc : BitVec 64) : Bool :=
  decide ((pc - start).toNat < 4 * n)

section Words
variable (g : Game) (callee : Callee) (m : Machine)

theorem address_within (blk : Block) (h : 4 * blk.code.length < 2 ^ 64) :
    ∀ k < blk.code.length, within blk.start blk.code.length (blk.address k) = true := by
  intro k hk
  have hsub : blk.address k - blk.start = BitVec.ofNat 64 (4 * k) := by
    rw [Block.address_natCast, BitVec.add_comm, BitVec.add_sub_cancel]
  rw [within, hsub, BitVec.toNat_ofNat, Nat.mod_eq_of_lt (by omega), decide_eq_true_eq]
  omega

theorem block_encodable : ∀ i ∈ g.block.code, i.Encodable := by
  cases g <;> decide

theorem hook_encodable (start : BitVec 64) : ∀ i ∈ (g.hook start).code, i.Encodable := by
  cases g <;> simp only [Game.hook, lbp1ScriptHook, lbp2ScriptHook, lbp3ScriptHook,
    lbp3JPScriptHook, lbp3Hook] <;> decide

theorem gate (hv : callee.Nonvolatile) :
    ∃ e, g.block.exec callee m = some e ∧ g.Gate m e := by
  cases g with
  | lbp1 => exact lbp1_gate callee m
  | lbp2 => exact lbp2_gate callee m hv
  | lbp3 => exact lbp3_gate callee m _ _ _ _ _ hv
  | lbp3JP => exact lbp3_gate callee m _ _ _ _ _ hv

theorem filtered (start : BitVec 64) :
    ∃ e, (g.hook start).exec callee m = some e ∧ g.Filtered m e := by
  cases g with
  | lbp1 => exact lbp1_hook callee start m
  | lbp2 => exact lbp2_hook callee start m
  | lbp3 => exact lbp3_hook callee start m _ _ (by decide)
  | lbp3JP => exact lbp3_hook callee start m _ _ (by decide)

theorem gate_outside {e : Exit} (h : g.Gate m e) :
    within g.block.start g.block.code.length e.addr = false := by
  cases g with
  | lbp1 =>
    by_cases ha : e.addr = 0x3ab74c
    · rw [ha]; decide
    · rw [h.otherwise ha]; decide
  | lbp2 =>
    by_cases ha : e.addr = 0x286030
    · rw [ha]; decide
    · rw [(h.otherwise ha).1]; decide
  | lbp3 =>
    obtain ⟨skip, d, -, -, -, ha⟩ := h
    rw [ha]
    split_ifs <;> decide
  | lbp3JP =>
    obtain ⟨skip, d, -, -, -, ha⟩ := h
    rw [ha]
    split_ifs <;> decide

theorem filtered_exits {e : Exit} (h : g.Filtered m e) :
    ∃ a ∈ g.exits, e.addr = BitVec.ofNat 64 a := by
  cases g with
  | lbp1 =>
    by_cases hs : lbp1Type m = resourceTypeScript
    · exact ⟨0x81B40, by decide, h.bail_iff.mpr hs⟩
    · exact ⟨0x81BCC, by decide, (h.proceed hs).1⟩
  | lbp2 =>
    by_cases hs : ScriptBlock.Lbp2Refused m
    · exact ⟨0x153D3C, by decide, h.bail_iff.mpr hs⟩
    · exact ⟨0x153D78, by decide, h.proceed hs⟩
  | lbp3 =>
    by_cases hs : Lbp3Refused m
    · exact ⟨0x1CFD10, by decide, h.bail_iff.mpr hs⟩
    · exact ⟨0x1CFC78, by decide, h.proceed hs⟩
  | lbp3JP =>
    by_cases hs : Lbp3Refused m
    · exact ⟨0x1CFBAC, by decide, h.bail_iff.mpr hs⟩
    · exact ⟨0x1CFB14, by decide, h.proceed hs⟩

end Words

def Joined (g : Game) (m : Mem) : Prop :=
  load m g.joinOffset g.block.bytes.length = g.block.bytes

/-- The word of the resource check branches to the hook, whose code is in memory. -/
structure Hooked (g : Game) (hookAt : ℕ) (m : Mem) : Prop where
  check : load m g.checkOffset 4 = be32 (Instr.b (hookAt - g.checkOffset)).encode
  hook : load m hookAt (g.hook 0).bytes.length = (g.hook 0).bytes

/-- The hook is behind the game and where the branch can reach it. -/
structure Linked (g : Game) (hookAt : ℕ) : Prop where
  aligned : hookAt % 4 = 0
  behind : targetsEnd g.number ≤ hookAt
  near : hookAt < g.checkOffset + 2 ^ 25

def checked (g : Game) (hookAt : ℕ) (pc : BitVec 64) : Bool :=
  pc == BitVec.ofNat 64 g.checkOffset ||
    within (BitVec.ofNat 64 hookAt) (g.hook 0).code.length pc

section Memory
variable {g : Game} {hookAt : ℕ} {mem : Mem} {callee : Callee} {m : Machine}

theorem start_joinOffset (g : Game) : g.block.start = BitVec.ofNat 64 g.joinOffset := by
  cases g <;> rfl

theorem hook_code (g : Game) (start : BitVec 64) : (g.hook start).code = (g.hook 0).code := by
  cases g <;> rfl

theorem hook_start (g : Game) (start : BitVec 64) : (g.hook start).start = start := by
  cases g <;> rfl

theorem hook_bytes (g : Game) (start : BitVec 64) : (g.hook start).bytes = (g.hook 0).bytes := by
  rw [Block.bytes, hook_code, Block.bytes]

theorem block_length (g : Game) : g.block.code.length ≤ 30 := by
  cases g <;> decide

theorem hook_length (g : Game) : (g.hook 0).code.length ≤ 8 := by
  cases g <;> decide

theorem Joined.joins (h : Joined g mem) (hm : m.mem = ofMem mem) (hv : callee.Nonvolatile)
    (hk : callee.Keeps g.block.start g.block.bytes.length) :
    ∃ e, run (step (within g.block.start g.block.code.length) callee) (g.block.code.length + 2)
      ⟨g.block.start, m, []⟩ = some (.left e) ∧ g.Gate m e := by
  obtain ⟨e, he, hgate⟩ := gate g callee m hv
  have hlen := block_length g
  have hbytes : g.block.bytes.length = 4 * g.block.code.length := bytes_length _
  have hlow : g.joinOffset < 2 ^ 32 := by cases g <;> decide
  have laid : g.block.Laid (within g.block.start g.block.code.length) callee m.mem := by
    refine ⟨block_encodable g, address_within _ (by omega), ?_, hk⟩
    rw [hm, start_joinOffset]
    exact stored_ofMem h (by omega)
  exact ⟨e, Block.exec_stops laid he (gate_outside g m hgate), hgate⟩

theorem checkOffset_bounds (g : Game) : g.checkOffset % 4 = 0 ∧ g.checkOffset < 2 ^ 25 ∧
    g.checkOffset + 4 ≤ targetsEnd g.number ∧
    ∀ a ∈ g.exits, a ≠ g.checkOffset ∧ a < targetsEnd g.number := by
  cases g <;> decide

theorem Linked.encodable (h : Linked g hookAt) : (Instr.b (hookAt - g.checkOffset)).Encodable := by
  obtain ⟨-, hlow, hend, -⟩ := checkOffset_bounds g
  have hbehind := h.behind
  have hnear := h.near
  unfold Instr.Encodable
  omega

theorem Linked.decode (h : Linked g hookAt) :
    Instr.decode (Instr.b (hookAt - g.checkOffset)).encode =
      some (.b (hookAt - g.checkOffset)) := by
  have h4 := (checkOffset_bounds g).1
  have haligned := h.aligned
  rw [Instr.decode_encode h.encodable, Instr.aligned,
    show 4 * (((hookAt : ℤ) - g.checkOffset) / 4) = hookAt - g.checkOffset by omega]

theorem Linked.relativeBranch (h : Linked g hookAt) :
    relativeBranch hookAt g.checkOffset = (Instr.b (hookAt - g.checkOffset)).encode := by
  obtain ⟨h4, hlow, -, -⟩ := checkOffset_bounds g
  have haligned := h.aligned
  rw [relativeBranch_eq, displacement, Instr.encode]
  omega

theorem lands (g : Game) (hookAt : ℕ) : BitVec.ofNat 64 g.checkOffset +
    BitVec.ofInt 64 (hookAt - g.checkOffset) = BitVec.ofNat 64 hookAt := by
  rw [← BitVec.ofInt_natCast, ← BitVec.ofInt_add, ← BitVec.ofInt_natCast]
  congr 1
  omega

theorem Hooked.branches (h : Hooked g hookAt mem) (linked : Linked g hookAt)
    (hm : m.mem = ofMem mem) :
    step (checked g hookAt) callee ⟨BitVec.ofNat 64 g.checkOffset, m, []⟩ =
      .again ⟨BitVec.ofNat 64 hookAt, m, []⟩ := by
  have hlow := (checkOffset_bounds g).2.1
  have hword : word m.mem (BitVec.ofNat 64 g.checkOffset) =
      BitVec.ofNat 32 (Instr.b (hookAt - g.checkOffset)).encode := by
    rw [hm]
    exact word_stored (stored_ofMem (by rw [be32_length, h.check]) (by rw [be32_length]; omega))
  have hlt := Instr.encode_lt linked.encodable
  have hdecode : Instr.decode (word m.mem (BitVec.ofNat 64 g.checkOffset)).toNat =
      some (.b (hookAt - g.checkOffset)) := by
    rw [hword, BitVec.toNat_ofNat, Nat.mod_eq_of_lt hlt, linked.decode]
  have hinside : checked g hookAt (BitVec.ofNat 64 g.checkOffset) = true := by simp [checked]
  rw [step, if_pos hinside]
  simp only [hdecode, Instr.flow, Instr.apply, lands]

theorem exits_unchecked (linked : Linked g hookAt) {a : ℕ} (ha : a ∈ g.exits) :
    checked g hookAt (BitVec.ofNat 64 a) = false := by
  obtain ⟨-, hlow, -, hexits⟩ := checkOffset_bounds g
  obtain ⟨hne, hlt⟩ := hexits a ha
  have hbehind := linked.behind
  have hnear := linked.near
  have hlen := hook_length g
  rw [checked, Bool.or_eq_false_iff]
  constructor
  · rw [beq_eq_false_iff_ne, ne_eq, ← BitVec.toNat_inj, BitVec.toNat_ofNat, BitVec.toNat_ofNat]
    omega
  · rw [within, decide_eq_false_iff_not, BitVec.toNat_sub, BitVec.toNat_ofNat,
      BitVec.toNat_ofNat]
    omega

theorem Hooked.checks (h : Hooked g hookAt mem) (linked : Linked g hookAt) (hm : m.mem = ofMem mem)
    (hk : callee.Keeps (BitVec.ofNat 64 hookAt) (g.hook 0).bytes.length) :
    ∃ e, run (step (checked g hookAt) callee) ((g.hook 0).code.length + 3)
      ⟨BitVec.ofNat 64 g.checkOffset, m, []⟩ = some (.left e) ∧ g.Filtered m e := by
  obtain ⟨e, he, hfiltered⟩ := filtered g callee m (BitVec.ofNat 64 hookAt)
  obtain ⟨-, -, -, hexits⟩ := checkOffset_bounds g
  have hbytes : (g.hook 0).bytes.length = 4 * (g.hook 0).code.length := bytes_length _
  have hlen := hook_length g
  have hbehind := linked.behind
  have hnear := linked.near
  have hlow := (checkOffset_bounds g).2.1
  have hcode := hook_code g (BitVec.ofNat 64 hookAt)
  have laid : (g.hook (BitVec.ofNat 64 hookAt)).Laid (checked g hookAt) callee m.mem := by
    refine ⟨hook_encodable g _, fun k hk => ?_, ?_, ?_⟩
    · have hin := address_within (g.hook (BitVec.ofNat 64 hookAt)) (by rw [hcode]; omega) k hk
      rw [hook_start, hcode] at hin
      rw [checked, hin, Bool.or_true]
    · rw [hook_start, hook_bytes, hm]
      exact stored_ofMem h.hook (by omega)
    · rw [hook_start, hook_bytes]
      exact hk
  obtain ⟨a, ha, haddr⟩ := filtered_exits g m hfiltered
  have hout : checked g hookAt e.addr = false := haddr ▸ exits_unchecked linked ha
  have hrun := Block.exec_stops laid he hout
  rw [hook_start, hcode] at hrun
  exact ⟨e, (run_again (h.branches linked hm) _).trans hrun, hfiltered⟩

end Memory

def codePlaces (G : Globals) (g : Game) : List (ℕ × ℕ) :=
  [(g.joinSource G, g.block.bytes.length), (g.hookSource G, (g.hook 0).bytes.length)]

/-- The module is in memory behind the game, with the code of its blocks, and nothing that
`start` writes lies over that code or over the two instruction words. -/
structure Loaded (S : Setting) (options : PatchworkConfigOptions) (c : Configured) (g : Game)
    (m : Mem) : Prop extends Linked g (g.hookSource S.globals) where
  joinCode : load m (g.joinSource S.globals) g.block.bytes.length = g.block.bytes
  hookCode : load m (g.hookSource S.globals) (g.hook 0).bytes.length = (g.hook 0).bytes
  joinBehind : targetsEnd g.number ≤ g.joinSource S.globals
  code : Clear (codePlaces S.globals g) (ownPlaces S options c)
  words : Clear (hookPlaces S) (announcePlaces S options)
  wordsApart : Apart S.globals.notificationEnableInstruction 4 S.globals.scriptHookInstruction 4
  wordsPlaced : S.globals.notificationEnableInstruction ≠ 0 ∧ S.globals.scriptHookInstruction ≠ 0

section Start
variable {S : Setting} {options : PatchworkConfigOptions} {c : Configured} {w : World} {g : Game}

theorem targetsEnd_pos (g : Game) : 0 < targetsEnd g.number := by
  cases g <;> decide

theorem selectGame_check (S : Setting) (g : Game) (m : Mem) :
    load (selectGame S g.number m) S.globals.scriptHookInstruction 4 =
      be32 (relativeBranch (g.hookSource S.globals) g.checkOffset) := by
  cases g <;> exact load_store_same _ (be32 _)

theorem selectGame_silenced (loaded : Loaded S options c g w.mem) (m : Mem) {q : ℕ × ℕ × Reg}
    (hq : q ∈ g.silenced) :
    load (selectGame S g.number m) S.globals.notificationEnableInstruction 4 = be32 q.2.1 := by
  have hkept (v : ℕ) (m : Mem) : load (store32 S.globals.scriptHookInstruction v m)
      S.globals.notificationEnableInstruction 4 =
        load m S.globals.notificationEnableInstruction 4 :=
    load_store_apart _ _ loaded.wordsApart
  cases g <;> simp only [Game.silenced, List.mem_singleton, List.not_mem_nil] at hq
  all_goals
    subst hq
    exact (hkept _ _).trans (load_store_same _ (be32 _))

theorem mem_patches_check (G : Globals) (g : Game) :
    ⟨g.checkOffset, G.scriptHookInstruction, 4, .direct⟩ ∈ patches G g.number := by
  cases g <;> simp [patches, Game.number, Game.checkOffset, lbp1Patches, lbp2Patches,
    lbp3Patches, lbp3JPPatches]

theorem mem_patches_join (G : Globals) (g : Game) :
    ⟨g.joinOffset, g.joinSource G, g.block.bytes.length, .direct⟩ ∈ patches G g.number := by
  rw [show g.block.bytes.length = 4 * g.block.code.length from bytes_length _]
  cases g
  · exact List.mem_of_getElem? (i := 7) rfl
  · exact List.mem_of_getElem? (i := 7) rfl
  · exact List.mem_of_getElem? (i := 9) rfl
  · exact List.mem_of_getElem? (i := 9) rfl

theorem mem_patches_silenced (G : Globals) {q : ℕ × ℕ × Reg} (hq : q ∈ g.silenced) :
    ⟨q.1, G.notificationEnableInstruction, 4, .direct⟩ ∈ patches G g.number := by
  cases g <;> simp only [Game.silenced, List.mem_singleton, List.not_mem_nil] at hq <;> subst hq
  · exact List.mem_of_getElem? (i := 5) rfl
  · exact List.mem_of_getElem? (i := 7) rfl
  · exact List.mem_of_getElem? (i := 7) rfl

theorem load_direct {offset source n : ℕ}
    (hq : ⟨offset, source, n, .direct⟩ ∈ patches S.globals g.number) (h0 : source ≠ 0)
    (hclear : ∀ p ∈ patches S.globals g.number, Apart source n p.offset p.size) :
    load (applyGamePatches (patches S.globals g.number) w).mem offset n = load w.mem source n := by
  have horigin : origin w.mem ⟨offset, source, n, .direct⟩ = source := rfl
  have hload := load_target (w := w) (patches_spaced S.globals g.number)
    (patches_offset_ne_zero S.globals g.number) hq ⟨fun ht => (nomatch ht), fun _ => hclear⟩
  rwa [delivered, horigin, if_neg h0] at hload

structure Ready (S : Setting) (g : Game) (m : Mem) : Prop where
  join : load m (g.joinSource S.globals) g.block.bytes.length = g.block.bytes
  hook : load m (g.hookSource S.globals) (g.hook 0).bytes.length = (g.hook 0).bytes
  check : load m S.globals.scriptHookInstruction 4 =
    be32 (relativeBranch (g.hookSource S.globals) g.checkOffset)
  silenced : ∀ q ∈ g.silenced, load m S.globals.notificationEnableInstruction 4 = be32 q.2.1

theorem patchGame_ready (read : c.Read options w.mem) (placed : Placed S options c g.number)
    (game : getLBPGameNumber w.mem = g.number) (known : g.number ≠ .unknown)
    (loaded : Loaded S options c g w.mem) :
    ∃ w', patchGame S options w = some (applyGamePatches (patches S.globals g.number) w') ∧
      Ready S g w'.mem := by
  obtain ⟨w₅, hpatch, prepared⟩ := patchGame_steps read placed game known
  have hcode {r : ℕ × ℕ} (hr : r ∈ codePlaces S.globals g) :
      load w₅.mem r.1 r.2 = load w.mem r.1 r.2 := prepared.own.load (loaded.code r hr)
  have hwords : ChangesIn (announcePlaces S options)
      (selectGame S g.number (stringsSet S options c w.mem)) w₅.mem :=
    (agentSet_changes S options g.number _).trans (prepared.mono (by simp [announcePlaces]))
  have hword {a : ℕ} (ha : (a, 4) ∈ hookPlaces S) : load w₅.mem a 4 =
      load (selectGame S g.number (stringsSet S options c w.mem)) a 4 :=
    hwords.load (loaded.words (a, 4) ha)
  refine ⟨w₅, hpatch, ?_, ?_, ?_, fun q hq => ?_⟩
  · rw [← loaded.joinCode]
    simpa using hcode (r := (g.joinSource S.globals, g.block.bytes.length)) (by simp [codePlaces])
  · rw [← loaded.hookCode]
    simpa using hcode (r := (g.hookSource S.globals, (g.hook 0).bytes.length))
      (by simp [codePlaces])
  · rw [hword (by simp [hookPlaces]), selectGame_check]
  · rw [hword (by simp [hookPlaces]), selectGame_silenced loaded _ hq]

structure Done (S : Setting) (g : Game) (m : Mem) : Prop
    extends Hooked g (g.hookSource S.globals) m where
  join : Joined g m
  silenced : ∀ q ∈ g.silenced, load m q.1 4 = be32 q.2.1

theorem Ready.done {m₀ : Mem} (ready : Ready S g w.mem) (placed : Placed S options c g.number)
    (loaded : Loaded S options c g m₀) :
    Done S g (applyGamePatches (patches S.globals g.number) w).mem := by
  have hpos := targetsEnd_pos g
  have hbehind {a n : ℕ} (ha : targetsEnd g.number ≤ a) :
      ∀ p ∈ patches S.globals g.number, Apart a n p.offset p.size := fun p hp =>
    .inr ((target_bounds S.globals g.number p hp).1.trans ha)
  have hword {a : ℕ} (ha : (a, 4) ∈ hookPlaces S) :
      ∀ p ∈ patches S.globals g.number, Apart a 4 p.offset p.size := fun p hp =>
    ((placed.game _ (gamePlaces_target hp) (a, 4) (by simp [ownPlaces, scratch, ha])).mono
      (Nat.le_succ _) (Nat.le_refl _)).symm
  have hjoin := loaded.joinBehind
  refine ⟨⟨?_, ?_⟩, ?_, fun q hq => ?_⟩
  · rw [load_direct (mem_patches_check S.globals g) loaded.wordsPlaced.2
      (hword (by simp [hookPlaces])), ready.check, loaded.relativeBranch]
  · rw [load_applyGamePatches (hbehind loaded.behind), ready.hook]
  · rw [Joined, load_direct (mem_patches_join S.globals g) (by omega) (hbehind hjoin), ready.join]
  · rw [load_direct (mem_patches_silenced S.globals hq) loaded.wordsPlaced.1
      (hword (by simp [hookPlaces])), ready.silenced q hq]

theorem start_done {args : ℕ} {argp : Option PatchworkLaunchArgs} {w₁ : World}
    (launched : Launched S args argp options c w w₁ g.number)
    (loaded : Loaded S options c g w₁.mem) :
    ∃ w', start S args argp w = some w' ∧ Done S g w'.mem := by
  obtain ⟨w₂, hw₂, hready⟩ := patchGame_ready launched.read launched.placed launched.game
    launched.known loaded
  obtain ⟨w', hw', hmem⟩ := start_patchGame launched.configured hw₂
  exact ⟨w', hw', hmem ▸ hready.done launched.placed loaded⟩

end Start

def ownArrays (S : Setting) (c : Configured) : List (ℕ × ℕ) :=
  c.texts ++ pointerPlaces S ++ keyPlaces S ++ hookPlaces S ++ [(S.frame.gameNumStr, 4),
    (S.frame.userAgent, 64), (S.globals.userAgent, 4), msgBuf S]

/-- The bytes behind `msg_buf` that the message takes. -/
def overrun (S : Setting) (options : PatchworkConfigOptions) : ℕ × ℕ :=
  ((msgBuf S).1 + (msgBuf S).2, (messageRange S options).2 - (msgBuf S).2)

/-- What a run may write: the plugin's own variables, what is behind the message's buffer, and
the targets of the game's table, none for a game that was not recognised. -/
def writable (S : Setting) (options : PatchworkConfigOptions) (c : Configured) (g : GameNumber) :
    List (ℕ × ℕ) :=
  ownArrays S c ++ [overrun S options] ++ targets g

section Results
variable (S : Setting) (args : ℕ) (argp : Option PatchworkLaunchArgs)
  (options : PatchworkConfigOptions) (c : Configured) (w w₁ : World) (g : Game)

/-- In the memory that `start` leaves, the game's join requests go through the game's join
block: running its words, whatever the game's functions do, comes to an exit of the gate. -/
theorem start_gates_joins (launched : Launched S args argp options c w w₁ g.number)
    (loaded : Loaded S options c g w₁.mem) :
    ∃ w', start S args argp w = some w' ∧ ∀ (callee : Callee) (m : Machine),
      m.mem = ofMem w'.mem → callee.Nonvolatile →
      callee.Keeps g.block.start g.block.bytes.length →
      ∃ e, run (step (within g.block.start g.block.code.length) callee) (g.block.code.length + 2)
        ⟨BitVec.ofNat 64 g.joinOffset, m, []⟩ = some (.left e) ∧ g.Gate m e := by
  obtain ⟨w', hw', hdone⟩ := start_done launched loaded
  refine ⟨w', hw', fun callee m hm hv hk => ?_⟩
  rw [← start_joinOffset]
  exact hdone.join.joins hm hv hk

/-- And what it loads goes through the script hook: running from the resource check comes to
the exit that refuses the resource exactly where it is a script. -/
theorem start_filters_scripts (launched : Launched S args argp options c w w₁ g.number)
    (loaded : Loaded S options c g w₁.mem) :
    ∃ w', start S args argp w = some w' ∧ ∀ (callee : Callee) (m : Machine),
      m.mem = ofMem w'.mem →
      callee.Keeps (BitVec.ofNat 64 (g.hookSource S.globals)) (g.hook 0).bytes.length →
      ∃ e, run (step (checked g (g.hookSource S.globals)) callee) ((g.hook 0).code.length + 3)
        ⟨BitVec.ofNat 64 g.checkOffset, m, []⟩ = some (.left e) ∧ g.Filtered m e := by
  obtain ⟨w', hw', hdone⟩ := start_done launched loaded
  exact ⟨w', hw', fun callee m hm hk => hdone.toHooked.checks loaded.toLinked hm hk⟩

theorem silenced_decode {q : ℕ × ℕ × Reg} (hq : q ∈ g.silenced) :
    Instr.decode q.2.1 = some (.li q.2.2 0) ∧ q.2.1 < 2 ^ 32 ∧ q.1 + 4 ≤ 2 ^ 64 := by
  cases g <;> simp only [Game.silenced, List.mem_singleton, List.not_mem_nil] at hq <;> subst hq
  all_goals exact ⟨rfl, by decide, by decide⟩

/-- And where the game asks whether to notify, it goes on with the answer zero. -/
theorem start_silences (launched : Launched S args argp options c w w₁ g.number)
    (loaded : Loaded S options c g w₁.mem) :
    ∃ w', start S args argp w = some w' ∧ ∀ q ∈ g.silenced, ∀ (inside : BitVec 64 → Bool)
      (callee : Callee) (m : Machine) (cs : List Call), m.mem = ofMem w'.mem →
      inside (BitVec.ofNat 64 q.1) = true →
      step inside callee ⟨BitVec.ofNat 64 q.1, m, cs⟩ =
        .again ⟨BitVec.ofNat 64 q.1 + 4, m.setGpr q.2.2 0, cs⟩ := by
  obtain ⟨w', hw', hdone⟩ := start_done launched loaded
  refine ⟨w', hw', fun q hq inside callee m cs hm hin => ?_⟩
  obtain ⟨hli, hlt, hroom⟩ := silenced_decode g hq
  have hword : word m.mem (BitVec.ofNat 64 q.1) = BitVec.ofNat 32 q.2.1 := by
    rw [hm]
    exact word_stored (stored_ofMem (by rw [be32_length, hdone.silenced q hq])
      (by rw [be32_length]; exact hroom))
  have hdecode : Instr.decode (word m.mem (BitVec.ofNat 64 q.1)).toNat = some (.li q.2.2 0) := by
    rw [hword, BitVec.toNat_ofNat, Nat.mod_eq_of_lt hlt, hli]
  rw [step, if_pos hin]
  simp only [hdecode, Instr.flow, Instr.apply]
  rfl

end Results

-- The second game with the module's variables and code close behind it.
def linkedSetting : Setting := { stringSetting shortUrl with
  globals := ⟨0x01000000, 0x01000004, 0x01000008, 0x0100000c, 0x01000010, 0x01000014, 0x01000018,
    0x01001000, 0x01001100, 0x01001200, 0x01001300, 0x01001400, 0x01001500, 0x01001600,
    0x01001700⟩ }

def linkedGame : World := { firstGame with
  mem := store (store (store (fun _ => 0) (lbp2UserAgentOffset + 18) [50]) 0x01001100
    lbp2ForceJoinPatch.bytes) 0x01001500 (lbp2ScriptHook 0).bytes }

def linkedWorld : World := (readConfig linkedSetting (launch linkedSetting none linkedGame)).world

theorem linked_launched : Launched linkedSetting 0 none (stringOptions shortUrl) (strings shortUrl)
    linkedGame linkedWorld Game.lbp2.number := by
  have hdigest : Held linkedWorld.mem (stringOptions shortUrl).digestKey
      (some (digestString shortUrl)) :=
    ⟨rfl, ⟨by decide +kernel, by decide, by decide +kernel⟩, by decide, by decide +kernel,
      by decide⟩
  have hurl : Held linkedWorld.mem 0x20002000 (some (urlString shortUrl)) :=
    ⟨rfl, ⟨by decide +kernel, by decide +kernel, by decide +kernel⟩, by decide, by decide +kernel,
      by decide⟩
  exact ⟨rfl, ⟨hurl, hdigest, rfl⟩,
    ⟨by decide +kernel, by decide, by decide +kernel, by decide +kernel, by decide +kernel,
      by decide +kernel⟩, by decide +kernel, by decide⟩

theorem linked_loaded : Loaded linkedSetting (stringOptions shortUrl) (strings shortUrl) .lbp2
    linkedWorld.mem := by
  have linked : Linked .lbp2 (Game.lbp2.hookSource linkedSetting.globals) :=
    ⟨by decide, by decide, by decide⟩
  exact { linked with
    joinCode := by decide +kernel
    hookCode := by decide +kernel
    joinBehind := by decide
    code := by decide +kernel
    words := by decide +kernel
    wordsApart := by decide
    wordsPlaced := by decide }

theorem strangers_nonvolatile : strangers.Nonvolatile := by
  intro _ _ m r hr
  refine Machine.setGpr_of_ne 0 ?_
  rintro rfl
  exact absurd hr (by decide)

theorem strangers_keeps (a : BitVec 64) (n : ℕ) : strangers.Keeps a n := fun _ _ _ _ _ => rfl

theorem start_gates_joins_lbp2 : ∃ w', start linkedSetting 0 none linkedGame = some w' ∧
    ∃ e, run (step (within Game.lbp2.block.start 30) strangers) 32
      ⟨BitVec.ofNat 64 lbp2ForceJoinPatchOffset, { blankMachine with mem := ofMem w'.mem }, []⟩ =
        some (.left e) ∧ Game.lbp2.Gate { blankMachine with mem := ofMem w'.mem } e := by
  obtain ⟨w', hw', hgate⟩ := start_gates_joins linkedSetting 0 none
    (stringOptions shortUrl) (strings shortUrl) linkedGame linkedWorld .lbp2 linked_launched
    linked_loaded
  exact ⟨w', hw', hgate strangers _ rfl strangers_nonvolatile (strangers_keeps _ _)⟩

theorem start_filters_scripts_lbp2 : ∃ w', start linkedSetting 0 none linkedGame = some w' ∧
    ∃ e, run (step (checked .lbp2 0x01001500) strangers) 9
      ⟨BitVec.ofNat 64 lbp2ResourceCheckOffset, { blankMachine with mem := ofMem w'.mem }, []⟩ =
        some (.left e) ∧ Game.lbp2.Filtered { blankMachine with mem := ofMem w'.mem } e := by
  obtain ⟨w', hw', hfilter⟩ := start_filters_scripts linkedSetting 0 none
    (stringOptions shortUrl) (strings shortUrl) linkedGame linkedWorld .lbp2 linked_launched
    linked_loaded
  exact ⟨w', hw', hfilter strangers _ rfl (strangers_keeps _ _)⟩

theorem start_silences_lbp2 : ∃ w', start linkedSetting 0 none linkedGame = some w' ∧
    step (fun _ => true) strangers
      ⟨BitVec.ofNat 64 lbp2NotificationEnableOffset,
        { blankMachine with mem := ofMem w'.mem }, []⟩ =
        .again ⟨BitVec.ofNat 64 lbp2NotificationEnableOffset + 4,
          ({ blankMachine with mem := ofMem w'.mem } : Machine).setGpr 0 0, []⟩ := by
  obtain ⟨w', hw', hsilent⟩ := start_silences linkedSetting 0 none
    (stringOptions shortUrl) (strings shortUrl) linkedGame linkedWorld .lbp2 linked_launched
    linked_loaded
  exact ⟨w', hw', hsilent (lbp2NotificationEnableOffset, 0x38000000, 0) (by simp [Game.silenced])
    (fun _ => true) strangers _ [] rfl rfl⟩

end Patchwork.PatchedGame
