import Patchwork.Emulator
import Patchwork.HookScan
import Patchwork.PatchBlocks

/-!
# The code of a symbol

A patch names the symbol at which its code starts. The bytes of an overwrite are
read there, and so are those of a hook of unknown length; a hook with a length is
read at the patch's own offset, which is an address of the game.
-/

namespace Patchwork.SymbolCode
open Collect Elf Emulator HookScan MakePatches PatchBlocks

def instructionWords (es : List PatchEntry) : List (List UInt8) :=
  (es.filter fun e => e.type = "be32").map entryWord

def wordsFrom (text : List UInt8) (a n : ℕ) : List (List UInt8) :=
  (List.range n).map fun i => (text.drop (a + 4 * i)).take 4

/-- The words of a block are those of the section from the symbol on: as many as the patch's
length says, or without a length what `GetHook` finds. -/
structure IsSymbolCode (text : List UInt8) (patch : Patch) (sym : Symbol)
    (block : List PatchEntry) : Prop where
  counted : patch.type = hook ∨ patch.type = overwrite → patch.length ≠ 0 →
    instructionWords block = wordsFrom text sym.value.toNat patch.length.toNat
  scanned : patch.type = hook → patch.length = 0 → ∃ r, getHook text sym.value = .ok r ∧
    instructionWords block = wordsFrom text sym.value.toNat (r.length / 4)

/-- The length of an overwrite in bytes is a 64-bit number, and a hook has no length. -/
structure LengthServes (patch : Patch) : Prop where
  overwrite : patch.type = overwrite → patch.length.toNat < 2 ^ 62
  hook : patch.type = hook → patch.length = 0

def EmitsSymbolCode (f : ElfFile) (game : Game) (patches : PatchMap) : Prop :=
  ∃ syms ps combined blocks, f.symbols = some syms ∧ patches.lookup game.ppuHash = some ps ∧
    ps.lookup combinedName = some combined ∧
    combined.patch = blocks.flatten ++ [cUtf8Patch game.offsets.userAgent game.userAgent] ∧
    List.Forall₂ (fun piece block => makeBlock f piece.1 piece.2 = .ok block ∧
      ∃ text, f.text = some text ∧ IsSymbolCode text piece.1 piece.2 block)
      (pieces syms game) blocks

section Words
variable {text code : List UInt8} {o : UInt32} {a n m : ℕ}

@[simp] theorem wordsFrom_length : (wordsFrom text a n).length = n := by simp [wordsFrom]

theorem wordsFrom_inj (text : List UInt8) (a : ℕ) :
    wordsFrom text a n = wordsFrom text a m ↔ n = m :=
  ⟨fun h => by simpa using congrArg List.length h, fun h => by rw [h]⟩

theorem wordsFrom_eq :
    wordsFrom text a n = (List.range n).map (word ((text.drop a).take (4 * n))) := by
  refine List.map_congr_left fun i hi => ?_
  have hlt := List.mem_range.mp hi
  rw [word, List.drop_take, List.take_take, List.drop_drop, Nat.min_eq_left (by omega)]

theorem instructionWords_words (address : ℕ → UInt32) (h : 4 * n ≤ code.length) :
    instructionWords ((List.range n).map fun i => ⟨"be32", address i, hexValue (word code i)⟩) =
      (List.range n).map (word code) := by
  rw [instructionWords, List.filter_eq_self.mpr (by simp), List.map_map]
  refine List.map_congr_left fun i hi => ?_
  have hlt := List.mem_range.mp hi
  exact entryWord_hexValue (word_length (by omega))

theorem instructionWords_overwrite :
    instructionWords (overwriteEntries o code) = (List.range (code.length / 4)).map (word code) :=
  instructionWords_words _ (by omega)

theorem instructionWords_code :
    instructionWords (codeEntries o code) = (List.range (code.length / 4)).map (word code) := by
  rw [codeEntries, instructionWords, List.filter_cons_of_neg (by simp)]
  exact instructionWords_words _ (by omega)

end Words

section Block
variable {f : ElfFile} {text : List UInt8} {patch : Patch} {sym : Symbol}
  {block : List PatchEntry}

theorem makeBlock_hook (ht : f.text = some text) (htype : patch.type = hook)
    (h : makeBlock f patch sym = .ok block) : ∃ code, block = codeEntries patch.offset code ∧
      (patch.length ≠ 0 → readHook text patch.length.toNat patch.offset.toNat = .ok code) ∧
      (patch.length = 0 → getHook text sym.value = .ok code) := by
  have hcode {x : Except String (List UInt8)} (h : (x >>= makeCodePatch patch.offset) = .ok block) :
      ∃ code, block = codeEntries patch.offset code ∧ x = .ok code := by
    obtain ⟨code, hx, hcode⟩ := bind_ok_iff.mp h
    unfold makeCodePatch at hcode
    split_ifs at hcode
    exact ⟨code, (Except.ok.inj hcode).symm, hx⟩
  have hne : patch.type ≠ overwrite := fun ho => hook_ne_overwrite (htype.symm.trans ho)
  unfold makeBlock at h
  simp only [ht, if_neg hne, if_pos htype] at h
  split_ifs at h with hlen
  · obtain ⟨code, hblock, hx⟩ := hcode h
    exact ⟨code, hblock, fun _ => hx, fun h0 => absurd h0 hlen⟩
  · obtain ⟨code, hblock, hx⟩ := hcode h
    exact ⟨code, hblock, fun hne => absurd hne hlen, fun _ => hx⟩

theorem isSymbolCode_hook (ht : f.text = some text) (htype : patch.type = hook)
    (h : makeBlock f patch sym = .ok block) :
    IsSymbolCode text patch sym block ↔ patch.length = 0 := by
  obtain ⟨code, rfl, hread, hscan⟩ := makeBlock_hook ht htype h
  by_cases hlen : patch.length = 0
  · refine iff_of_true ⟨fun _ hne => absurd hlen hne, fun _ _ => ⟨code, hscan hlen, ?_⟩⟩ hlen
    obtain ⟨k, hk, hcode⟩ := getHook_eq_ok_iff.mp (hscan hlen)
    have hlength : code.length = 4 * (k + 1) := by
      have hin := (hk.passes.inText (Nat.le_refl k)).2.2
      rw [hcode, List.length_take, List.length_drop]
      omega
    rw [instructionWords_code, wordsFrom_eq, show 4 * (code.length / 4) = 4 * (k + 1) by omega,
      ← hcode]
  · -- a quarter of the length is not the length
    refine iff_of_false (fun hcode => hlen ?_) hlen
    have hwords := congrArg List.length (hcode.counted (.inl htype) hlen)
    rw [instructionWords_code, List.length_map, List.length_range, wordsFrom_length,
      readHook_ok (hread hlen)] at hwords
    exact UInt64.toNat_inj.mp (show patch.length.toNat = 0 by omega)

theorem isSymbolCode_overwrite (ht : f.text = some text) (htype : patch.type = overwrite)
    (h : makeBlock f patch sym = .ok block) :
    IsSymbolCode text patch sym block ↔ patch.length.toNat < 2 ^ 62 := by
  have hne : patch.type ≠ hook := fun hh => hook_ne_overwrite (hh.symm.trans htype)
  have hlen : patch.length ≠ 0 := by
    obtain ⟨text', ht', hover, -, -⟩ := makeBlock_ok_iff.mp ⟨block, h⟩
    exact (hover htype).1
  obtain ⟨hh, -⟩ | ⟨-, text', ht', hin, rfl⟩ | ⟨-, ho, -⟩ := makeBlock_cases h
  · exact absurd hh hne
  · obtain rfl := Option.some.inj (ht.symm.trans ht')
    have hbytes : (patch.length * 4).toNat = patch.length.toNat * 4 % 2 ^ 64 := UInt64.toNat_mul ..
    have hquarter : 4 * ((patch.length * 4).toNat / 4) = (patch.length * 4).toNat := by
      have := bytes_mod_four patch.length
      omega
    have hwords : instructionWords (overwriteEntries patch.offset
        ((text.drop sym.value.toNat).take (patch.length * 4).toNat)) =
        wordsFrom text sym.value.toNat ((patch.length * 4).toNat / 4) := by
      rw [instructionWords_overwrite, wordsFrom_eq, hin.length text, hquarter]
    have hcode : IsSymbolCode text patch sym (overwriteEntries patch.offset
        ((text.drop sym.value.toNat).take (patch.length * 4).toNat)) ↔
        (patch.length * 4).toNat / 4 = patch.length.toNat := by
      rw [← wordsFrom_inj text sym.value.toNat, ← hwords]
      exact ⟨fun hc => hc.counted (.inr htype) hlen,
        fun hc => ⟨fun _ _ => hc, fun hh => absurd hh hne⟩⟩
    have := patch.length.toNat_lt
    rw [hcode, hbytes]
    omega
  · exact absurd htype ho

theorem isSymbolCode_iff (ht : f.text = some text) (h : makeBlock f patch sym = .ok block) :
    IsSymbolCode text patch sym block ↔ LengthServes patch := by
  by_cases hh : patch.type = hook
  · rw [isSymbolCode_hook ht hh h]
    exact ⟨fun h0 => ⟨fun ho => absurd (hh.symm.trans ho) hook_ne_overwrite, fun _ => h0⟩,
      fun hs => hs.hook hh⟩
  · by_cases ho : patch.type = overwrite
    · rw [isSymbolCode_overwrite ht ho h]
      exact ⟨fun hlt => ⟨fun _ => hlt, fun h => absurd h hh⟩, fun hs => hs.overwrite ho⟩
    · exact iff_of_true ⟨fun hor => absurd hor (not_or.mpr ⟨hh, ho⟩), fun h => absurd h hh⟩
        ⟨fun h => absurd h ho, fun h => absurd h hh⟩

end Block

/-- Where `MakePatches` returns, what it emits for every patch is the symbol's code exactly if
no hook has a length and no overwrite's length is too large to be counted in bytes. -/
theorem makePatches_symbolCode_iff {f : ElfFile} {game : Game} {servers : List Server}
    {patches : PatchMap} (h : makePatches f game servers = .ok patches) :
    EmitsSymbolCode f game patches ↔ ∀ syms, f.symbols = some syms → ∀ patch ∈ game.patches,
      ∀ sym ∈ named syms patch, LengthServes patch := by
  obtain ⟨entries, hentries, rfl⟩ := makePatches_ok_iff.mp h
  obtain ⟨syms, blocks, hsyms, hblocks, hflat⟩ := patchEntries_blocks hentries
  have hpieces : (∀ piece ∈ pieces syms game, LengthServes piece.1) ↔
      ∀ patch ∈ game.patches, ∀ sym ∈ named syms patch, LengthServes patch := by
    simp only [pieces, List.forall_mem_flatMap, List.forall_mem_map]
  simp only [hsyms, Option.some.injEq, forall_eq']
  rw [← hpieces]
  constructor
  · intro hemits piece hpiece
    obtain ⟨syms', ps, combined, blocks', hsyms', -, -, -, hmade⟩ := hemits
    obtain rfl := Option.some.inj (hsyms.symm.trans hsyms')
    obtain ⟨block, -, hblock, text, ht, hcode⟩ := exists_of_mem_left hmade hpiece
    exact (isSymbolCode_iff ht hblock).mp hcode
  · intro hserves
    refine ⟨syms, _, _, blocks, hsyms, lookup_game, lookup_gamePatches_combined, ?_, ?_⟩
    · rw [hflat]
      rfl
    · refine ((List.forall₂_and_left ..).mpr ⟨hserves, hblocks⟩).imp fun piece block hpiece => ?_
      obtain ⟨hserve, hblock⟩ := hpiece
      obtain ⟨text, ht, -⟩ := makeBlock_ok_iff.mp ⟨block, hblock⟩
      exact ⟨hblock, text, ht, (isSymbolCode_iff ht hblock).mpr hserve⟩

-- One symbol at the second word of a section, and a patch that names it.
def symbolElf : ElfFile := ⟨some [⟨"LBP1ScriptHook", 4⟩],
  some [0x60, 0, 0, 0, 0x38, 0x60, 0, 1, 0x48, 0, 0x10, 2, 0x48, 0, 0x20, 2]⟩

def symbolGame (length : UInt64) (type : PatchType) : Game :=
  { joinGame with patches := [⟨"LBP1ScriptHook", length, type, 8⟩] }

theorem makePatches_symbolCode_iff_overwrite : ∃ patches,
    makePatches symbolElf (symbolGame 2 overwrite) [] = .ok patches ∧
    (EmitsSymbolCode symbolElf (symbolGame 2 overwrite) patches ↔ ∀ syms,
      symbolElf.symbols = some syms → ∀ patch ∈ (symbolGame 2 overwrite).patches,
        ∀ sym ∈ named syms patch, LengthServes patch) :=
  ⟨_, rfl, makePatches_symbolCode_iff rfl⟩

theorem makePatches_not_symbolCode : ¬ ∀ (f : ElfFile) (game : Game) (servers : List Server)
    (patches : PatchMap), makePatches f game servers = .ok patches →
    EmitsSymbolCode f game patches := by
  intro h
  obtain ⟨syms, ps, combined, blocks, hsyms, -, -, -, hmade⟩ :=
    h symbolElf (symbolGame 4 hook) [] _ rfl
  obtain rfl : [⟨"LBP1ScriptHook", 4⟩] = syms := Option.some.inj hsyms
  obtain ⟨block, -, hblock, text, ht, hcode⟩ := exists_of_mem_left hmade
    (x := (⟨"LBP1ScriptHook", 4, hook, 8⟩, ⟨"LBP1ScriptHook", 4⟩)) (by decide)
  exact absurd ((isSymbolCode_hook ht rfl hblock).mp hcode) (by decide)

end Patchwork.SymbolCode
