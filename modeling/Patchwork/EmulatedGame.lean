import Patchwork.Agreement
import Patchwork.Generator
import Patchwork.HookScan
import Patchwork.PatchFile
import Patchwork.PatchedGame

/-!
# The game in the emulator

The generator reads the assembled blocks from the module's ELF file, `GetHook` without being
told a hook's length. Applied by the emulator, its entries leave a game in which the
processor finds the same blocks as on the console, the hook in the block that `calloc`
allocates.
-/

namespace Patchwork.JoinPolicy.Game
open MakePatches

def defined : Game → MakePatches.Game
  | .lbp1 => Lbpdefs.lbp1
  | .lbp2 => Lbpdefs.lbp2
  | .lbp3 => Lbpdefs.lbp3
  | .lbp3JP => Lbpdefs.lbp3JP

end Patchwork.JoinPolicy.Game

namespace Patchwork.EmulatedGame
open Agreement Assignments BoundedLoop ByteMemory Collect Elf Emulator HookScan JoinPolicy
open MakePatches hiding Game
open PatchBlocks PatchedGame Patches PowerPC TableFrame Yaml
open Generator (Directory findServers readGames merged_assign main_ok_iff collect_games)
open PatchFile (marshalYAML readEntry readEntry_be32 readEntry_calloc readEntry_marshalYAML
  mapM_marshalYAML)

structure CodeAt (text : List UInt8) (a : ℕ) (blk : Block) : Prop where
  code : (text.drop a).take blk.bytes.length = blk.bytes
  low : a + blk.bytes.length < 2 ^ 63

section Code
variable {text : List UInt8} {a j : ℕ} {blk : Block} {i : Instr}

theorem words_getElem {code : List Instr} (hi : code[j]? = some i) :
    ((code.flatMap fun i => be32 i.encode).drop (4 * j)).take 4 = be32 i.encode := by
  induction code generalizing j with
  | nil => simp at hi
  | cons x code ih =>
    rw [List.flatMap_cons]
    cases j with
    | zero =>
      obtain rfl : x = i := by simpa using hi
      exact List.take_left' (be32_length _)
    | succ j =>
      rw [show 4 * (j + 1) = (be32 x.encode).length + 4 * j by rw [be32_length]; omega,
        List.drop_length_add_append]
      exact ih (by simpa using hi)

theorem CodeAt.inText (h : CodeAt text a blk) (hpos : 0 < blk.bytes.length) :
    InText text blk.bytes.length a := by
  have hlen := congrArg List.length h.code
  rw [List.length_take, List.length_drop] at hlen
  have hlow := h.low
  exact ⟨by omega, by omega, by omega⟩

theorem CodeAt.word (h : CodeAt text a blk) (hi : blk.code[j]? = some i) :
    InText text 4 (a + 4 * j) ∧ (text.drop (a + 4 * j)).take 4 = be32 i.encode := by
  have hj : j < blk.code.length := (List.getElem?_eq_some_iff.mp hi).1
  have hbytes : blk.bytes.length = 4 * blk.code.length := bytes_length _
  have hin := h.inText (by omega)
  have hlow := h.low
  have hend := hin.2.2
  refine ⟨⟨by omega, by omega, by omega⟩, ?_⟩
  have hword := words_getElem hi
  rw [← Block.bytes, ← h.code, List.drop_take, List.drop_drop, List.take_take] at hword
  rwa [show min 4 (blk.bytes.length - 4 * j) = 4 by omega] at hword

theorem CodeAt.passes (h : CodeAt text a blk) (hi : blk.code[j]? = some i) :
    Passes text a j ↔ isBranch (be32 i.encode) = true := by
  obtain ⟨hin, hword⟩ := h.word hi
  rw [Passes, BranchAt, hword]
  exact and_iff_right hin

theorem hook_branches (g : Game) : ∀ x ∈ (g.hook 0).code.zipIdx,
    isBranch (be32 x.1.encode) = decide ((g.hook 0).code.length ≤ x.2 + 2) := by
  cases g <;> decide

theorem hook_length (g : Game) : 2 ≤ (g.hook 0).code.length := by
  cases g <;> decide

theorem getHook_block {text : List UInt8} {hookOffset : UInt64} {blk : Block}
    (hlen : 2 ≤ blk.code.length) (hbranches : ∀ x ∈ blk.code.zipIdx,
      isBranch (be32 x.1.encode) = decide (blk.code.length ≤ x.2 + 2))
    (h : CodeAt text hookOffset.toNat blk) : getHook text hookOffset = .ok blk.bytes := by
  have hbytes : blk.bytes.length = 4 * blk.code.length := bytes_length _
  have hpasses : ∀ j < blk.code.length,
      Passes text hookOffset.toNat j ↔ blk.code.length ≤ j + 2 := by
    intro j hj
    have hi : blk.code[j]? = some blk.code[j] := List.getElem?_eq_getElem hj
    have hbranch := hbranches (blk.code[j], j) (List.mem_zipIdx_iff_getElem?.mpr hi)
    rw [h.passes hi, hbranch, decide_eq_true_eq]
  obtain ⟨n, hn⟩ : ∃ n, blk.code.length = n + 2 := Nat.exists_eq_add_of_le' hlen
  have hfirst : Passes text hookOffset.toNat n := (hpasses n (by omega)).mpr (by omega)
  have hnone : Nat.count (Passes text hookOffset.toNat) n = 0 :=
    Nat.count_of_forall_not fun j hj hp => by
      have := (hpasses j (by omega)).mp hp
      omega
  refine getHook_eq_ok_iff.mpr ⟨n + 1, ⟨(hpasses _ (by omega)).mpr (by omega), ?_⟩, ?_⟩
  · rw [Nat.count_succ, hnone, if_pos hfirst]
  · rw [← h.code, hbytes, hn]

/-- `GetHook` finds a hook whole, whatever stands around it. -/
theorem getHook_hook (g : Game) (text : List UInt8) (hookOffset : UInt64)
    (h : CodeAt text hookOffset.toNat (g.hook 0)) :
    getHook text hookOffset = .ok (g.hook 0).bytes :=
  getHook_block (hook_length g) (hook_branches g) h

end Code

section Entries
variable {alloc : Allocation} {es ws : List PatchEntry} {slot : ℕ → ℕ} {o : UInt32}
  {p : List UInt8}

theorem entryStores_code (h : ∀ e ∈ ws, IsCode e) : entryStores alloc (ws ++ es) slot =
    ws.map (fun e => ⟨e.address.toNat, entryWord e⟩) ++ entryStores alloc es slot := by
  induction ws with
  | nil => rfl
  | cons e ws ih =>
    obtain ⟨he, hws⟩ := List.forall_mem_cons.mp h
    have hne : e.type ≠ "calloc" := by
      rw [he.1]
      decide
    rw [List.cons_append, entryStores, if_neg hne, if_pos he.1, if_pos he, ih hws]
    rfl

theorem stores_overwrite (m : Mem) (hmod : p.length % 4 = 0) (ho : 0 < o.toNat)
    (hroom : o.toNat + p.length ≤ 2 ^ 32) :
    stores m (entryStores alloc (overwriteEntries o p ++ es) slot) =
      stores (store m o.toNat p) (entryStores alloc es slot) := by
  have hcode : ∀ e ∈ overwriteEntries o p, IsCode e := by
    intro e he
    obtain ⟨i, hi, rfl⟩ := List.mem_map.mp he
    have hlt := List.mem_range.mp hi
    refine ⟨rfl, fun h0 => ?_⟩
    have haddress := congrArg UInt32.toNat h0
    simp only [UInt32.toNat_add, UInt32.toNat_ofNat', UInt32.toNat_zero] at haddress
    omega
  rw [entryStores_code hcode, stores_append]
  exact congrArg (stores · _) (PatchFile.overwrite_stores m hmod hroom)

theorem entryStores_words (slot : ℕ → ℕ) (f : ℕ → List UInt8) {n : ℕ}
    (h : ∀ i < n, (f i).length = 4) :
    entryStores alloc ((List.range n).map (fun i => ⟨"be32", 0, hexValue (f i)⟩) ++ es) slot =
      (List.range n).map (fun i => ⟨slot i, f i⟩) ++
        entryStores alloc es fun i => slot (i + n) := by
  induction n generalizing f slot with
  | zero => rfl
  | succ n ih =>
    have hcode : ¬ IsCode ⟨"be32", 0, hexValue (f 0)⟩ := fun hc => hc.2 rfl
    have hne : "be32" ≠ "calloc" := by decide
    have hrest := ih (fun i => slot (i + 1)) (fun i => f (i + 1)) fun i hi =>
      h (i + 1) (Nat.succ_lt_succ hi)
    simp only [List.range_succ_eq_map, List.map_cons, List.map_map, List.cons_append]
    rw [entryStores, if_neg hne, if_pos rfl, if_neg hcode, entryWord_hexValue (h 0 (by omega))]
    exact congrArg (List.cons _) hrest

theorem stores_calloc (m : Mem) :
    stores m (entryStores alloc (codeEntries o p ++ es) slot) =
      stores (stores (store m o.toNat (alloc.branch o (toString (p.length / 4))))
        ((List.range (p.length / 4)).map fun i =>
          ⟨alloc.slot o (toString (p.length / 4)) i, word p i⟩))
        (entryStores alloc es fun i =>
          alloc.slot o (toString (p.length / 4)) (i + p.length / 4)) := by
  rw [codeEntries, List.cons_append, entryStores, if_pos rfl, stores_cons,
    entryStores_words _ (word p) fun i hi => word_length hi, stores_append]

end Entries

/-- The module's file has the two symbols that the definition names, each once, and at them
the code of the game's blocks. -/
structure Assembled (f : ElfFile) (g : Game) (join script : Symbol) : Prop where
  symbols : ∃ syms, f.symbols = some syms ∧ g.defined.patches.map (named syms) = [[join], [script]]
  text : ∃ text, f.text = some text ∧ CodeAt text join.value.toNat g.block ∧
    CodeAt text script.value.toNat (g.hook 0)

def overwriteOffset (g : Game) : UInt32 := (g.defined.patches.map Patch.offset).headD 0

def codeOf (g : Game) : List PatchEntry :=
  overwriteEntries (overwriteOffset g) g.block.bytes ++
    codeEntries (UInt32.ofNat g.checkOffset) (g.hook 0).bytes

theorem defined_patches (g : Game) : ∃ ow call, g.defined.patches = [ow, call] ∧
    ow.type = overwrite ∧ ow.length ≠ 0 ∧ (ow.length * 4).toNat = 4 * g.block.code.length ∧
    call.type = hook ∧ call.length = 0 ∧ ow.offset = overwriteOffset g ∧
    call.offset = UInt32.ofNat g.checkOffset := by
  cases g <;> exact ⟨_, _, rfl, rfl, by decide, by decide, rfl, rfl, rfl, rfl⟩

theorem defined_injective : Function.Injective Game.defined := by
  intro g g' h
  have hhash := congrArg MakePatches.Game.ppuHash h
  cases g <;> cases g' <;> first | rfl | exact absurd hhash (by decide)

section Definitions
variable {f : ElfFile} {g : Game} {join script : Symbol}

theorem block_bytes_length (g : Game) : g.block.bytes.length = 4 * g.block.code.length :=
  bytes_length _

theorem hook_bytes_length (g : Game) : (g.hook 0).bytes.length = 4 * (g.hook 0).code.length :=
  bytes_length _

theorem patchEntries_defined (h : Assembled f g join script) :
    patchEntries f g.defined = .ok (codeOf g) := by
  obtain ⟨syms, hsyms, hnamed⟩ := h.symbols
  obtain ⟨text, htext, hjoin, hscript⟩ := h.text
  obtain ⟨ow, call, hpatches, hover, hlen, hbytes, hcall, hzero, ho, hc⟩ := defined_patches g
  have hlength := block_bytes_length g
  have hpos : 0 < g.block.code.length := by cases g <;> decide
  rw [hpatches] at hnamed
  obtain ⟨hfirst, hsecond⟩ : named syms ow = [join] ∧ named syms call = [script] := by
    simpa using hnamed
  have hread : readHook text (ow.length * 4).toNat join.value.toNat = .ok g.block.bytes := by
    rw [readHook_eq, hbytes, ← hlength, readAt_pos text (hjoin.inText (by omega)), hjoin.code]
  have hblock : makeBlock f ow join = .ok (overwriteEntries (overwriteOffset g) g.block.bytes) := by
    have hmake : makeOverwritePatch (overwriteOffset g) g.block.bytes =
        .ok (overwriteEntries (overwriteOffset g) g.block.bytes) := if_neg (by omega)
    unfold makeBlock
    simp only [htext, if_pos hover, if_neg hlen, hread, bind, Except.bind, ho, hmake]
  have hhook : makeBlock f call script =
      .ok (codeEntries (UInt32.ofNat g.checkOffset) (g.hook 0).bytes) := by
    have hlength' := hook_bytes_length g
    have hne : call.type ≠ overwrite := fun h => hook_ne_overwrite (hcall.symm.trans h)
    have hmake : makeCodePatch (UInt32.ofNat g.checkOffset) (g.hook 0).bytes =
        .ok (codeEntries (UInt32.ofNat g.checkOffset) (g.hook 0).bytes) := if_neg (by omega)
    unfold makeBlock
    simp only [htext, if_neg hne, if_pos hcall, hzero, ne_eq, not_true, if_false,
      getHook_block (hook_length g) (hook_branches g) hscript, bind, Except.bind, hc, hmake]
  rw [patchEntries_eq hsyms, hpatches]
  simp [collect, hfirst, hsecond, hblock, hhook, bind, Except.bind, codeOf]

end Definitions

def stringEntries (g : Game) (server : Server) : List PatchEntry :=
  cUtf8Patch g.defined.offsets.userAgent g.defined.userAgent :: serverEntries g.defined server

theorem stringEntries_address {g : Game} {server : Server} {e : PatchEntry}
    (he : e ∈ stringEntries g server) : e.type = cUtf8PatchType ∧ e.address ≠ 0 := by
  obtain ⟨hagent, hhttp, hhttps, hdigest⟩ : g.defined.offsets.userAgent ≠ 0 ∧
      g.defined.offsets.httpURL ≠ 0 ∧ g.defined.offsets.httpsURL ≠ 0 ∧
      g.defined.offsets.digestKey ≠ 0 := by
    cases g <;> decide
  simp only [stringEntries, serverEntries, List.mem_cons, List.mem_append, List.mem_ite_nil_right,
    List.not_mem_nil, or_false] at he
  rcases he with rfl | ((((rfl | rfl) | ⟨hlive, rfl⟩) | ⟨hpresence, rfl⟩) | ⟨-, rfl⟩)
  · exact ⟨rfl, hagent⟩
  · exact ⟨rfl, hhttp⟩
  · exact ⟨rfl, hhttps⟩
  · exact ⟨rfl, hlive⟩
  · exact ⟨rfl, hpresence⟩
  · exact ⟨rfl, hdigest⟩

theorem lines_survive (printable : Char → Bool) (g : Game) (server : Server) :
    ((codeOf g ++ stringEntries g server).map (marshalYAML printable)).mapM readEntry =
      some (codeOf g ++ stringEntries g server) := by
  refine mapM_marshalYAML fun e he => ?_
  simp only [codeOf, List.mem_append] at he
  rcases he with (hword | hcode) | hstring
  · obtain ⟨i, -, rfl⟩ := List.mem_map.mp hword
    exact readEntry_be32 _ _
  · rcases List.mem_cons.mp hcode with rfl | hword
    · exact readEntry_calloc _
    · obtain ⟨i, -, rfl⟩ := List.mem_map.mp hword
      exact readEntry_be32 _ _
  · obtain ⟨htype, haddress⟩ := stringEntries_address hstring
    refine readEntry_marshalYAML ?_ fun h0 => absurd h0 haddress
    rw [htype]
    exact (by decide : IsPlain .flow [] cUtf8PatchType.toList)

/-- A directory with definitions of the repository's games, and a module's file with the code of
each. -/
structure Input (yaml : Generator.Yaml) (f : ElfFile) (d : Directory) (servers : List Server)
    (games : List MakePatches.Game) : Prop where
  found : findServers yaml d = .ok servers
  read : readGames yaml d = .ok games
  assembled : ∀ game ∈ games, ∃ g : Game, game = g.defined ∧
    ∃ join script, Assembled f g join script
  hashes : (games.map MakePatches.Game.ppuHash).Nodup
  names : (servers.map Server.name).Nodup

theorem main_defined {yaml : Generator.Yaml} {f : ElfFile} {d : Directory} {servers : List Server}
    {games : List MakePatches.Game} (input : Input yaml f d servers games) :
    ∃ patches, Generator.main yaml f d = .ok patches ∧ ∀ g : Game, g.defined ∈ games →
      ∀ server ∈ servers, appliedEntries patches g.defined server =
        some (codeOf g ++ stringEntries g server) := by
  obtain ⟨kvs, hkvs⟩ : ∃ kvs, collect (Generator.gameAssignment f servers) games = .ok kvs := by
    refine collect_total_iff.mpr fun game hgame => ?_
    obtain ⟨g, rfl, join, script, hassembled⟩ := input.assembled game hgame
    exact ⟨_, by rw [Generator.gameAssignment, patchEntries_defined hassembled]; rfl⟩
  have hmerged := merged_assign input.hashes input.names hkvs
  refine ⟨_, main_ok_iff.mpr ⟨servers, kvs, input.found,
    (collect_games input.read).trans hkvs, rfl⟩, fun g hg server hserver => ?_⟩
  obtain ⟨entries, ps, hentries, hps, hcombined⟩ := hmerged.combined _ hg
  obtain ⟨ps', hps', hservers⟩ := hmerged.server _ hg
  obtain rfl : ps = ps' := Option.some.inj (hps.symm.trans hps')
  obtain ⟨g', hsame, join, script, hassembled⟩ := input.assembled _ hg
  rw [hsame, patchEntries_defined hassembled] at hentries
  obtain rfl := Except.ok.inj hentries
  obtain rfl : g = g' := defined_injective hsame
  rw [appliedEntries, hps, Option.bind_eq_bind, Option.bind_some, hcombined,
    Option.bind_eq_bind, Option.bind_some, hservers server hserver]
  simp [combinedPatch, serverPatch, stringEntries]

structure Fits (server : Server) : Prop where
  primary : (utf8 server.primaryURL).length ≤ lbpPs3ProdUrlLength
  https : (utf8 server.httpsURL).length ≤ lbpPs3ProdUrlLength
  digest : (utf8 server.customDigest).length ≤ lbpDigestLength

def stringRanges (g : Game) : List (ℕ × ℕ) :=
  (g.defined.offsets.userAgent.toNat, 18) :: (g.defined.offsets.digestKey.toNat, 19) ::
    (urlAddresses g.defined).map fun a => (a, 71)

def hookSlot (alloc : Allocation) (g : Game) (i : ℕ) : ℕ :=
  alloc.slot (UInt32.ofNat g.checkOffset) (toString (g.hook 0).code.length) i

def blockAt (alloc : Allocation) (g : Game) : ℕ := hookSlot alloc g 0

/-- `calloc` branches from the resource check to a block behind the game and in reach, and the
words behind it come one after the other into this block. -/
structure Calls (alloc : Allocation) (g : Game) : Prop extends Linked g (blockAt alloc g) where
  inOrder : ∀ i < (g.hook 0).code.length, hookSlot alloc g i = blockAt alloc g + 4 * i
  branch : alloc.branch (UInt32.ofNat g.checkOffset) (toString (g.hook 0).code.length) =
    be32 (Instr.b (blockAt alloc g - g.checkOffset)).encode
  clear : targetsEnd g.number < blockAt alloc g

def emulated (alloc : Allocation) (g : Game) (server : Server) (m : Mem) : Mem :=
  stores m (entryStores alloc (codeOf g ++ stringEntries g server) fun _ => 0)

section Emulated
variable {alloc : Allocation} {g : Game} {server : Server} {m : Mem}

theorem url_range {o : UInt32} (h : o ∈ urlOffsets g.defined) : (o.toNat, 71) ∈ stringRanges g :=
  List.mem_cons_of_mem _ (List.mem_cons_of_mem _
    (List.mem_map.mpr ⟨o.toNat, List.mem_map_of_mem h, rfl⟩))

theorem stringEntries_range (fits : Fits server) {e : PatchEntry}
    (he : e ∈ stringEntries g server) : e.type = cUtf8PatchType ∧
      ∃ r ∈ stringRanges g, e.address.toNat = r.1 ∧ (utf8 e.value).length + 1 ≤ r.2 := by
  have hprimary := fits.primary
  have hdigest := fits.digest
  have hhttps : (utf8 (if server.httpsURL = "" then server.primaryURL
      else server.httpsURL)).length ≤ lbpPs3ProdUrlLength := by
    split_ifs
    · exact fits.primary
    · exact fits.https
  simp only [lbpPs3ProdUrlLength, lbpDigestLength] at hprimary hdigest hhttps
  have hagent : (utf8 g.defined.userAgent).length + 1 ≤ 18 := by cases g <;> decide +kernel
  simp only [stringEntries, serverEntries, List.mem_cons, List.mem_append, List.mem_ite_nil_right,
    List.not_mem_nil, or_false] at he
  rcases he with rfl | ((((rfl | rfl) | ⟨hlive, rfl⟩) | ⟨hpresence, rfl⟩) | ⟨-, rfl⟩)
  · exact ⟨rfl, _, List.mem_cons_self, rfl, hagent⟩
  · exact ⟨rfl, _, url_range (by simp [urlOffsets, cUtf8Patch]), rfl, Nat.succ_le_succ hprimary⟩
  · exact ⟨rfl, _, url_range (by simp [urlOffsets, cUtf8Patch]), rfl, Nat.succ_le_succ hhttps⟩
  · exact ⟨rfl, _, url_range (by simp [urlOffsets, cUtf8Patch, hlive]), rfl,
      Nat.succ_le_succ hprimary⟩
  · exact ⟨rfl, _, url_range (by simp [urlOffsets, cUtf8Patch, hpresence]), rfl,
      Nat.succ_le_succ hprimary⟩
  · exact ⟨rfl, _, List.mem_cons_of_mem _ List.mem_cons_self, rfl, Nat.succ_le_succ hdigest⟩

def coded (alloc : Allocation) (g : Game) (m : Mem) : Mem :=
  stores (store (store m (overwriteOffset g).toNat g.block.bytes) g.checkOffset
    (alloc.branch (UInt32.ofNat g.checkOffset) (toString (g.hook 0).code.length)))
    ((List.range (g.hook 0).code.length).map fun i => ⟨hookSlot alloc g i, word (g.hook 0).bytes i⟩)

theorem coded_eq (calls : Calls alloc g) : coded alloc g m =
    store (store (store m (overwriteOffset g).toNat g.block.bytes) g.checkOffset
      (be32 (Instr.b (blockAt alloc g - g.checkOffset)).encode))
      (blockAt alloc g) (g.hook 0).bytes := by
  have hhook := hook_bytes_length g
  have hslots : ∀ i ∈ List.range (g.hook 0).code.length,
      (⟨hookSlot alloc g i, word (g.hook 0).bytes i⟩ : Store) =
        ⟨blockAt alloc g + 4 * i, word (g.hook 0).bytes i⟩ := by
    intro i hi
    rw [calls.inOrder i (List.mem_range.mp hi)]
  rw [coded, calls.branch, List.map_congr_left hslots, PatchFile.stores_words _ _ (by omega),
    List.take_of_length_le (by omega)]

theorem emulated_eq (fits : Fits server) : emulated alloc g server m = stores (coded alloc g m)
    ((stringEntries g server).map fun e => ⟨e.address.toNat, utf8 e.value ++ [0]⟩) := by
  have hblock := block_bytes_length g
  have hhook := hook_bytes_length g
  obtain ⟨hpos, hroom⟩ : 0 < (overwriteOffset g).toNat ∧
      (overwriteOffset g).toNat + 4 * g.block.code.length ≤ 2 ^ 32 := by
    cases g <;> decide
  have hcheck : (UInt32.ofNat g.checkOffset).toNat = g.checkOffset := by cases g <;> rfl
  rw [emulated, codeOf, List.append_assoc, stores_overwrite m (by omega) hpos (by omega),
    stores_calloc, entryStores_strings fun e he => (stringEntries_range fits he).1,
    hcheck, show (g.hook 0).bytes.length / 4 = (g.hook 0).code.length by omega]
  rfl

theorem load_strings (fits : Fits server) {a n : ℕ} {m' : Mem}
    (h : ∀ r ∈ stringRanges g, Apart a n r.1 r.2) :
    load (stores m' ((stringEntries g server).map fun e =>
      ⟨e.address.toNat, utf8 e.value ++ [0]⟩)) a n = load m' a n := by
  refine load_congr _ _ fun i hi => stores_of_notMem m' fun st hst => ?_
  obtain ⟨e, he, rfl⟩ := List.mem_map.mp hst
  obtain ⟨-, r, hr, haddr, hlen⟩ := stringEntries_range fits he
  have hapart := h r hr
  simp only [Store.extent, extent, Set.mem_Ico, List.length_append, List.length_singleton]
  unfold Apart at hapart
  omega

theorem stringRanges_bounds (g : Game) : ∀ r ∈ stringRanges g,
    Apart g.joinOffset (4 * g.block.code.length) r.1 r.2 ∧ Apart g.checkOffset 4 r.1 r.2 ∧
      r.1 + r.2 ≤ targetsEnd g.number + 1 := by
  cases g <;> decide

theorem emulated_hooked (fits : Fits server) (calls : Calls alloc g) :
    Hooked g (blockAt alloc g) (emulated alloc g server m) := by
  have hbounds := stringRanges_bounds g
  have hclear := calls.clear
  obtain ⟨-, -, hend, -⟩ := checkOffset_bounds g
  rw [emulated_eq fits, coded_eq calls]
  constructor
  · rw [load_strings fits fun r hr => (hbounds r hr).2.1,
      load_store_apart _ _ (.inl (by omega))]
    exact load_store_same _ (be32 _)
  · rw [load_strings fits fun r hr => ?_, load_store_same]
    have := (hbounds r hr).2.2
    exact .inr (by omega)

theorem emulated_joined (fits : Fits server) (calls : Calls alloc g)
    (ho : (overwriteOffset g).toNat = g.joinOffset) :
    PatchedGame.Joined g (emulated alloc g server m) := by
  have hbounds := stringRanges_bounds g
  have hclear := calls.clear
  have hblock := block_bytes_length g
  have hgame : g.joinOffset + 4 * g.block.code.length ≤ targetsEnd g.number ∧
      Apart g.joinOffset (4 * g.block.code.length) g.checkOffset 4 := by cases g <;> decide
  rw [emulated_eq fits, coded_eq calls, PatchedGame.Joined, ho, hblock,
    load_strings fits fun r hr => (hbounds r hr).1, load_store_apart _ _ (.inl (by omega)),
    load_store_apart _ _ hgame.2, ← hblock, load_store_same]

theorem overwriteOffset_iff (g : Game) : (overwriteOffset g).toNat = g.joinOffset ↔ g ≠ .lbp3 := by
  cases g <;> decide

end Emulated

section Strings
variable {alloc : Allocation} {g : Game} {server : Server} {m : Mem}

theorem stringEntries_addresses : (stringEntries g server).map PatchEntry.address =
    g.defined.offsets.userAgent :: (urlOffsets g.defined ++
      if server.customDigest ≠ "" then [g.defined.offsets.digestKey] else []) := by
  unfold stringEntries serverEntries urlOffsets
  split_ifs <;> rfl

theorem addresses_nodup : ((stringEntries g server).map PatchEntry.address).Nodup := by
  have hall : (g.defined.offsets.userAgent ::
      (urlOffsets g.defined ++ [g.defined.offsets.digestKey])).Nodup := by
    cases g <;> decide
  rw [stringEntries_addresses]
  split_ifs
  · exact hall
  · refine hall.sublist (List.Sublist.cons_cons _ ?_)
    exact List.Sublist.append (List.Sublist.refl _) (List.nil_sublist _)

theorem stringRanges_apart (g : Game) : ∀ r ∈ stringRanges g, ∀ r' ∈ stringRanges g,
    r.1 ≠ r'.1 → Apart r.1 r.2 r'.1 r'.2 := by
  cases g <;> decide

theorem strings_miss (fits : Fits server) : ((stringEntries g server).map fun e =>
    (⟨e.address.toNat, utf8 e.value ++ [0]⟩ : Store)).Pairwise
      fun u v => v.Misses u.addr u.bytes.length := by
  refine List.pairwise_map.mpr ((List.pairwise_map.mp addresses_nodup).imp_of_mem ?_)
  intro e e' he he' hne
  obtain ⟨-, r, hr, haddr, hlen⟩ := stringEntries_range fits he
  obtain ⟨-, r', hr', haddr', hlen'⟩ := stringEntries_range fits he'
  have hdiffer : r.1 ≠ r'.1 := fun h =>
    hne (UInt32.toNat_inj.mp (haddr.trans (h.trans haddr'.symm)))
  have hapart := stringRanges_apart g r hr r' hr' hdiffer
  rw [← haddr, ← haddr'] at hapart
  simp only [Store.Misses, List.length_append, List.length_singleton]
  exact hapart.mono hlen hlen'

structure Whole (server : Server) : Prop where
  primary : 0 ∉ utf8 server.primaryURL
  https : 0 ∉ utf8 server.httpsURL
  digest : 0 ∉ utf8 server.customDigest

/-- The game reads the server's address wherever it looks for one, and its digest where the
server has one of its own. -/
structure Talks (g : Game) (server : Server) (m : Mem) : Prop where
  agent : IsCString m g.defined.offsets.userAgent.toNat (utf8 g.defined.userAgent)
  http : IsCString m g.defined.offsets.httpURL.toNat (utf8 server.primaryURL)
  https : IsCString m g.defined.offsets.httpsURL.toNat
    (utf8 (if server.httpsURL = "" then server.primaryURL else server.httpsURL))
  live : g.defined.offsets.liveURL ≠ 0 →
    IsCString m g.defined.offsets.liveURL.toNat (utf8 server.primaryURL)
  presence : g.defined.offsets.presenceURL ≠ 0 →
    IsCString m g.defined.offsets.presenceURL.toNat (utf8 server.primaryURL)
  digest : server.customDigest ≠ "" →
    IsCString m g.defined.offsets.digestKey.toNat (utf8 server.customDigest)

theorem emulated_string (fits : Fits server) {address : UInt32} {value : String}
    (he : cUtf8Patch address value ∈ stringEntries g server) (h0 : 0 ∉ utf8 value) :
    IsCString (emulated alloc g server m) address.toNat (utf8 value) := by
  rw [emulated_eq fits]
  have hload := load_stores_of_mem (coded alloc g m)
    (strings_miss (g := g) fits) (List.mem_map.mpr ⟨_, he, rfl⟩)
  rw [List.length_append, List.length_singleton] at hload
  exact .of_load hload h0

theorem emulated_speaks (fits : Fits server) (whole : Whole server) :
    Talks g server (emulated alloc g server m) := by
  have hagent : 0 ∉ utf8 g.defined.userAgent := by cases g <;> decide +kernel
  have hhttps : 0 ∉ utf8 (if server.httpsURL = "" then server.primaryURL else server.httpsURL) := by
    split_ifs
    · exact whole.primary
    · exact whole.https
  refine ⟨?_, ?_, ?_, fun hlive => ?_, fun hpresence => ?_, fun hdigest => ?_⟩
  · exact emulated_string fits List.mem_cons_self hagent
  · exact emulated_string fits (by simp [stringEntries, serverEntries]) whole.primary
  · exact emulated_string fits (by simp [stringEntries, serverEntries]) hhttps
  · exact emulated_string fits (by simp [stringEntries, serverEntries, hlive]) whole.primary
  · exact emulated_string fits (by simp [stringEntries, serverEntries, hpresence]) whole.primary
  · exact emulated_string fits (by simp [stringEntries, serverEntries, hdigest]) whole.digest

end Strings

section Results
variable {yaml : Generator.Yaml} {f : ElfFile} {d : Directory} {servers : List Server}
  {games : List MakePatches.Game} (g : Game) (server : Server)
  (alloc : Allocation) (m : Mem) (printable : Char → Bool)

/-- With the lines of the generator's file applied, what the emulated game loads goes through the
script hook in the allocated block, whatever server's strings are applied with it. -/
theorem emulated_filters_scripts (input : Input yaml f d servers games) (hg : g.defined ∈ games)
    (hserver : server ∈ servers) (fits : Fits server) (calls : Calls alloc g) :
    ∃ patches entries read, Generator.main yaml f d = .ok patches ∧
      appliedEntries patches g.defined server = some entries ∧
      (entries.map (marshalYAML printable)).mapM readEntry = some read ∧
      ∀ (callee : Callee) (machine : Machine),
      machine.mem = ofMem (stores m (entryStores alloc read fun _ => 0)) →
      callee.Keeps (BitVec.ofNat 64 (blockAt alloc g)) (g.hook 0).bytes.length →
      ∃ e, run (step (checked g (blockAt alloc g)) callee) ((g.hook 0).code.length + 3)
        ⟨BitVec.ofNat 64 g.checkOffset, machine, []⟩ = some (.left e) ∧ g.Filtered machine e := by
  obtain ⟨patches, hmain, hentries⟩ := main_defined input
  refine ⟨patches, _, _, hmain, hentries g hg server hserver, lines_survive printable g server,
    fun callee machine hm hk => ?_⟩
  exact (emulated_hooked fits calls).checks calls.toLinked hm hk

/-- And the join requests of the emulated game go through the join block, in all games but the
third, whose definition has the block put elsewhere. -/
theorem emulated_gates_joins (input : Input yaml f d servers games) (hg : g.defined ∈ games)
    (hserver : server ∈ servers) (fits : Fits server) (calls : Calls alloc g) (hne : g ≠ .lbp3) :
    ∃ patches entries read, Generator.main yaml f d = .ok patches ∧
      appliedEntries patches g.defined server = some entries ∧
      (entries.map (marshalYAML printable)).mapM readEntry = some read ∧
      ∀ (callee : Callee) (machine : Machine),
      machine.mem = ofMem (stores m (entryStores alloc read fun _ => 0)) → callee.Nonvolatile →
      callee.Keeps g.block.start g.block.bytes.length →
      ∃ e, run (step (within g.block.start g.block.code.length) callee) (g.block.code.length + 2)
        ⟨BitVec.ofNat 64 g.joinOffset, machine, []⟩ = some (.left e) ∧ g.Gate machine e := by
  obtain ⟨patches, hmain, hentries⟩ := main_defined input
  refine ⟨patches, _, _, hmain, hentries g hg server hserver, lines_survive printable g server,
    fun callee machine hm hv hk => ?_⟩
  rw [← start_joinOffset]
  exact (emulated_joined fits calls ((overwriteOffset_iff g).mpr hne)).joins hm hv hk

/-- And it speaks to the server that was chosen. -/
theorem emulated_talks (input : Input yaml f d servers games) (hg : g.defined ∈ games)
    (hserver : server ∈ servers) (fits : Fits server) (whole : Whole server) :
    ∃ patches entries read, Generator.main yaml f d = .ok patches ∧
      appliedEntries patches g.defined server = some entries ∧
      (entries.map (marshalYAML printable)).mapM readEntry = some read ∧
      Talks g server (stores m (entryStores alloc read fun _ => 0)) := by
  obtain ⟨patches, hmain, hentries⟩ := main_defined input
  exact ⟨patches, _, _, hmain, hentries g hg server hserver, lines_survive printable g server,
    emulated_speaks fits whole⟩

end Results

-- The second game with a module that holds nothing but its two blocks.
def blocksText : List UInt8 := Game.lbp2.block.bytes ++ (Game.lbp2.hook 0).bytes

def blocksJoin : Symbol := ⟨"LBP2ForceJoinPatch", 0⟩
def blocksScript : Symbol := ⟨"LBP2ScriptHook", 120⟩
def blocksElf : ElfFile := ⟨some [blocksJoin, blocksScript], some blocksText⟩

def nearAllocation : Allocation where
  slot _ _ n := 0x01001500 + 4 * n
  branch o _ := be32 (Instr.b (0x01001500 - o.toNat)).encode

theorem blocks_assembled : Assembled blocksElf .lbp2 blocksJoin blocksScript :=
  ⟨⟨_, rfl, by decide⟩, _, rfl, ⟨by decide +kernel, by decide⟩, ⟨by decide +kernel, by decide⟩⟩

def blocksYaml : Generator.Yaml where
  game _ := .ok Game.lbp2.defined
  servers _ := .ok Lbpdefs.servers

def blocksDirectory : Directory where
  entries := [⟨"lbp2.yaml", false, some []⟩, ⟨"servers.yaml", false, some []⟩]
  distinct := by decide

theorem blocks_input :
    Input blocksYaml blocksElf blocksDirectory Lbpdefs.servers [Game.lbp2.defined] where
  found := rfl
  read := rfl
  assembled := by
    simp only [List.forall_mem_singleton]
    exact ⟨.lbp2, rfl, _, _, blocks_assembled⟩
  hashes := by decide
  names := by decide

theorem nearAllocation_calls : Calls nearAllocation .lbp2 :=
  { aligned := by decide, behind := by decide, near := by decide, inOrder := fun _ _ => rfl,
    branch := by decide, clear := by decide }

theorem bonsai_fits : Fits Lbpdefs.bonsai :=
  ⟨by decide +kernel, by decide +kernel, by decide +kernel⟩

theorem getHook_hook_lbp2 : getHook blocksText 120 = .ok (Game.lbp2.hook 0).bytes :=
  getHook_hook .lbp2 blocksText 120 ⟨by decide +kernel, by decide⟩

theorem emulated_filters_scripts_lbp2 :
    ∃ patches entries read, Generator.main blocksYaml blocksElf blocksDirectory = .ok patches ∧
      appliedEntries patches Game.lbp2.defined Lbpdefs.bonsai = some entries ∧
      (entries.map (marshalYAML fun _ => true)).mapM readEntry = some read ∧
      ∃ e, run (step (checked .lbp2 0x01001500) ForceJoinPatch.strangers) 9
        ⟨BitVec.ofNat 64 lbp2ResourceCheckOffset, { ForceJoinPatch.blankMachine with
          mem := ofMem (stores (fun _ => 0) (entryStores nearAllocation read fun _ => 0)) }, []⟩ =
            some (.left e) ∧ Game.lbp2.Filtered { ForceJoinPatch.blankMachine with
          mem := ofMem (stores (fun _ => 0) (entryStores nearAllocation read fun _ => 0)) } e := by
  obtain ⟨patches, entries, read, hmain, hentries, hread, hfilter⟩ := emulated_filters_scripts
    .lbp2 Lbpdefs.bonsai nearAllocation (fun _ => 0) (fun _ => true) blocks_input (by simp)
    (by simp [Lbpdefs.servers]) bonsai_fits nearAllocation_calls
  exact ⟨patches, entries, read, hmain, hentries, hread, hfilter _ _ rfl (strangers_keeps _ _)⟩

theorem emulated_gates_joins_lbp2 :
    ∃ patches entries read, Generator.main blocksYaml blocksElf blocksDirectory = .ok patches ∧
      appliedEntries patches Game.lbp2.defined Lbpdefs.bonsai = some entries ∧
      (entries.map (marshalYAML fun _ => true)).mapM readEntry = some read ∧
      ∃ e, run (step (within Game.lbp2.block.start 30) ForceJoinPatch.strangers) 32
        ⟨BitVec.ofNat 64 lbp2ForceJoinPatchOffset, { ForceJoinPatch.blankMachine with
          mem := ofMem (stores (fun _ => 0) (entryStores nearAllocation read fun _ => 0)) }, []⟩ =
            some (.left e) ∧ Game.lbp2.Gate { ForceJoinPatch.blankMachine with
          mem := ofMem (stores (fun _ => 0) (entryStores nearAllocation read fun _ => 0)) } e := by
  obtain ⟨patches, entries, read, hmain, hentries, hread, hgate⟩ := emulated_gates_joins .lbp2
    Lbpdefs.bonsai nearAllocation (fun _ => 0) (fun _ => true) blocks_input (by simp)
    (by simp [Lbpdefs.servers]) bonsai_fits nearAllocation_calls (by decide)
  exact ⟨patches, entries, read, hmain, hentries, hread,
    hgate _ _ rfl strangers_nonvolatile (strangers_keeps _ _)⟩

theorem bonsai_whole : Whole Lbpdefs.bonsai :=
  ⟨by decide +kernel, by decide +kernel, by decide +kernel⟩

theorem emulated_talks_lbp2 :
    ∃ patches entries read, Generator.main blocksYaml blocksElf blocksDirectory = .ok patches ∧
      appliedEntries patches Game.lbp2.defined Lbpdefs.bonsai = some entries ∧
      (entries.map (marshalYAML fun _ => true)).mapM readEntry = some read ∧
      Talks .lbp2 Lbpdefs.bonsai
        (stores (fun _ => 0) (entryStores nearAllocation read fun _ => 0)) :=
  emulated_talks .lbp2 Lbpdefs.bonsai nearAllocation (fun _ => 0) (fun _ => true) blocks_input
    (by simp) (by simp [Lbpdefs.servers]) bonsai_fits bonsai_whole

end Patchwork.EmulatedGame
