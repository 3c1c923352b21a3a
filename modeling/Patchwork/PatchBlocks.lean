import Patchwork.MakePatches

/-!
# One block for each patch

The loop over the symbols takes every symbol of a patch's name and passes over a
name without a symbol; a type that is none of the two passes as well.
-/

namespace Patchwork.PatchBlocks
open Assignments Collect Elf MakePatches

def named (syms : List Symbol) (patch : Patch) : List Symbol :=
  syms.filter fun sym => sym.name = patch.symbol

structure IsBlock (f : ElfFile) (syms : List Symbol) (patch : Patch) (block : List PatchEntry) :
    Prop where
  made : ∃ sym ∈ named syms patch, makeBlock f patch sym = .ok block
  shape : (patch.type = hook ∧ ∃ code, block = codeEntries patch.offset code) ∨
    (patch.type = overwrite ∧ ∃ code, block = overwriteEntries patch.offset code)
  nonempty : block ≠ []

/-- The combined patch holds one block for each patch, in order, and then the user agent. -/
def Complete (f : ElfFile) (game : Game) (patches : PatchMap) : Prop :=
  ∃ syms, f.symbols = some syms ∧ ∃ ps combined, patches.lookup game.ppuHash = some ps ∧
    ps.lookup combinedName = some combined ∧
    ∃ blocks, List.Forall₂ (IsBlock f syms) game.patches blocks ∧
      combined.patch = blocks.flatten ++ [cUtf8Patch game.offsets.userAgent game.userAgent]

/-- There is no symbol table, or the section lacks what a patch and a symbol of its name need. -/
def Panics (f : ElfFile) (game : Game) : Prop :=
  ∀ syms, f.symbols = some syms →
    ∃ patch ∈ game.patches, ∃ sym ∈ named syms patch, ¬ Readable f patch sym

/-- One symbol has the patch's name, and the patch is a hook or overwrites something. -/
structure Delivered (syms : List Symbol) (patch : Patch) : Prop where
  symbol : ∃ sym, named syms patch = [sym]
  type : patch.type = hook ∨ patch.type = overwrite ∧ patch.length * 4 ≠ 0

section Loops
variable {f : ElfFile} {game : Game} {servers : List Server} {syms : List Symbol}
  {patch : Patch} {entries : List PatchEntry} {patches : PatchMap}

theorem symbolLoop_eq (entries : List PatchEntry) :
    syms.foldlM (fun entries sym =>
      if sym.name = patch.symbol then do
        let block ← makeBlock f patch sym
        .ok (entries ++ block)
      else .ok entries) entries =
    appendRound (fun patch => collect (makeBlock f patch) (named syms patch)) entries patch := by
  have hround : (fun (entries : List PatchEntry) (sym : Symbol) =>
      if sym.name = patch.symbol then do
        let block ← makeBlock f patch sym
        .ok (entries ++ block)
      else .ok entries) = appendRound fun sym =>
        if decide (sym.name = patch.symbol) then makeBlock f patch sym else .ok [] := by
    funext entries sym
    by_cases h : sym.name = patch.symbol
    · simp only [h, appendRound, if_true, decide_true]
    · simp [h, appendRound, bind, Except.bind]
  rw [hround, foldlM_appendRound, collect_filter, appendRound, named]
  cases collect (makeBlock f patch) (syms.filter fun sym => decide (sym.name = patch.symbol)) with
  | error e => rfl
  | ok block => rfl

theorem patchEntries_eq (h : f.symbols = some syms) : patchEntries f game =
    collect (fun patch => collect (makeBlock f patch) (named syms patch)) game.patches := by
  have hsyms : symbols f = .ok syms := by rw [symbols, h]
  rw [patchEntries, hsyms]
  change game.patches.foldlM _ [] = _
  simp only [symbolLoop_eq]
  change game.patches.foldlM (appendRound _) [] = _
  rw [foldlM_appendRound]
  cases collect (fun patch => collect (makeBlock f patch) (named syms patch)) game.patches with
  | error e => rfl
  | ok entries => rfl

def pieces (syms : List Symbol) (game : Game) : List (Patch × Symbol) :=
  game.patches.flatMap fun patch => (named syms patch).map (Prod.mk patch)

theorem patchEntries_blocks (h : patchEntries f game = .ok entries) :
    ∃ syms blocks, f.symbols = some syms ∧
      List.Forall₂ (fun piece block => makeBlock f piece.1 piece.2 = .ok block)
        (pieces syms game) blocks ∧ entries = blocks.flatten := by
  cases hsyms : f.symbols with
  | none => simp [patchEntries, symbols, hsyms, bind, Except.bind] at h
  | some syms =>
    rw [patchEntries_eq hsyms, collect_nested] at h
    obtain ⟨blocks, hblocks, hflat⟩ := collect_ok_iff.mp h
    exact ⟨syms, blocks, rfl, hblocks, hflat⟩

theorem panics_iff (servers : List Server) :
    (¬ ∃ patches, makePatches f game servers = .ok patches) ↔ Panics f game := by
  have hentries : (∃ patches, makePatches f game servers = .ok patches) ↔
      ∃ entries, patchEntries f game = .ok entries := by
    simp only [makePatches_ok_iff]
    exact ⟨fun ⟨_, entries, h, _⟩ => ⟨entries, h⟩, fun ⟨entries, h⟩ => ⟨_, entries, h, rfl⟩⟩
  rw [hentries]
  cases hsyms : f.symbols with
  | none =>
    refine iff_of_true ?_ fun syms h => by cases hsyms.symm.trans h
    intro hmade
    obtain ⟨entries, h⟩ := hmade
    simp [patchEntries, symbols, hsyms, bind, Except.bind] at h
  | some syms =>
    rw [patchEntries_eq hsyms, collect_total_iff, Panics]
    simp only [collect_total_iff, makeBlock_ok_iff, hsyms, Option.some.injEq]
    simp only [not_forall, exists_prop, forall_eq']

theorem complete_iff_entries (servers : List Server) (hsyms : f.symbols = some syms)
    (hentries : patchEntries f game = .ok entries)
    (hpatches : makePatches f game servers = .ok patches) : Complete f game patches ↔
    ∃ blocks, List.Forall₂ (IsBlock f syms) game.patches blocks ∧ entries = blocks.flatten := by
  obtain ⟨entries', hentries', rfl⟩ := makePatches_ok_iff.mp hpatches
  obtain rfl := Except.ok.inj (hentries.symm.trans hentries')
  constructor
  · intro hcomplete
    obtain ⟨syms', hsyms', ps, combined, hps, hcombined, blocks, hblocks, hpatch⟩ := hcomplete
    obtain rfl := Option.some.inj (hsyms.symm.trans hsyms')
    obtain rfl := Option.some.inj (lookup_game.symm.trans hps)
    obtain rfl := Option.some.inj (lookup_gamePatches_combined.symm.trans hcombined)
    exact ⟨blocks, hblocks, List.append_cancel_right hpatch⟩
  · intro hblocks
    obtain ⟨blocks, hblocks, rfl⟩ := hblocks
    exact ⟨syms, hsyms, _, _, lookup_game, lookup_gamePatches_combined, blocks, hblocks, rfl⟩

end Loops

section One
variable {f : ElfFile} {syms : List Symbol} {patch : Patch} {sym : Symbol}
  {block ys : List PatchEntry}

theorem overwriteEntries_eq_nil {o : UInt32} {code : List UInt8}
    (h : overwriteEntries o code = []) :
    code.length < 4 := by
  simp only [overwriteEntries, List.map_eq_nil_iff, List.range_eq_nil] at h
  omega

theorem makeBlock_ne_nil (h : makeBlock f patch sym = .ok block) : block ≠ [] ↔
    patch.type = hook ∨ patch.type = overwrite ∧ patch.length * 4 ≠ 0 := by
  obtain ⟨ht, code, rfl⟩ | ⟨ht, text, -, hin, rfl⟩ | ⟨hh, ho, rfl⟩ := makeBlock_cases h
  · exact iff_of_true codeEntries_ne_nil (.inl ht)
  · have hmod := bytes_mod_four patch.length
    have hcode := hin.length text
    have hne : patch.type ≠ hook := fun hh => hook_ne_overwrite (hh.symm.trans ht)
    rw [or_iff_right (fun h => hne h), and_iff_right ht, not_iff_not]
    constructor
    · intro hnil
      have := overwriteEntries_eq_nil hnil
      exact UInt64.toNat_inj.mp (show (patch.length * 4).toNat = 0 by omega)
    · intro h0
      simp [overwriteEntries, h0]
  · exact iff_of_false (not_not_intro rfl) (by simp [hh, ho])

theorem isBlock_of_delivered (h : Delivered syms patch)
    (hys : collect (makeBlock f patch) (named syms patch) = .ok ys) : IsBlock f syms patch ys := by
  obtain ⟨sym, hsym⟩ := h.symbol
  obtain ⟨yss, hyss, rfl⟩ := collect_ok_iff.mp hys
  rw [hsym] at hyss
  obtain ⟨block, rest, hblock, hrest, rfl⟩ := List.forall₂_cons_left_iff.mp hyss
  cases hrest
  have hne := (makeBlock_ne_nil hblock).mpr h.type
  simp only [List.flatten_cons, List.flatten_nil, List.append_nil]
  refine ⟨⟨sym, by simp [hsym], hblock⟩, ?_, hne⟩
  obtain ⟨ht, code, hcode⟩ | ⟨ht, text, -, -, hcode⟩ | ⟨-, -, hnil⟩ := makeBlock_cases hblock
  · exact .inl ⟨ht, code, hcode⟩
  · exact .inr ⟨ht, _, hcode⟩
  · exact absurd hnil hne

theorem IsBlock.length_le (h : IsBlock f syms patch block)
    (hys : collect (makeBlock f patch) (named syms patch) = .ok ys) : block.length ≤ ys.length := by
  obtain ⟨sym, hsym, hblock⟩ := h.made
  obtain ⟨yss, hyss, rfl⟩ := collect_ok_iff.mp hys
  obtain ⟨ys, hmem, hys⟩ := exists_of_mem_left hyss hsym
  obtain rfl := Except.ok.inj (hblock.symm.trans hys)
  exact length_le_flatten hmem

theorem IsBlock.delivered (h : IsBlock f syms patch block)
    (hys : collect (makeBlock f patch) (named syms patch) = .ok ys)
    (hlen : block.length = ys.length) : Delivered syms patch := by
  obtain ⟨sym, hsym, hblock⟩ := h.made
  have htype := (makeBlock_ne_nil hblock).mp h.nonempty
  obtain ⟨yss, hyss, rfl⟩ := collect_ok_iff.mp hys
  obtain ⟨ys, hmem, hys⟩ := exists_of_mem_left hyss hsym
  obtain rfl := Except.ok.inj (hblock.symm.trans hys)
  have hall : ∀ zs ∈ yss, zs ≠ [] := by
    intro zs hzs
    obtain ⟨sym', -, hzs⟩ := exists_of_mem_right hyss hzs
    exact (makeBlock_ne_nil hzs).mpr htype
  rw [eq_singleton_of_flatten hmem hall hlen.symm] at hyss
  exact ⟨List.length_eq_one_iff.mp hyss.length_eq, htype⟩

end One

/-- No patch is dropped or doubled exactly where `MakePatches` panics or each patch is
delivered. -/
theorem makePatches_complete_iff (f : ElfFile) (game : Game) (servers : List Server) :
    (∀ patches, makePatches f game servers = .ok patches → Complete f game patches) ↔
      (Panics f game ∨
        ∀ syms, f.symbols = some syms → ∀ patch ∈ game.patches, Delivered syms patch) := by
  by_cases hpanics : Panics f game
  · refine iff_of_true (fun patches h => ?_) (.inl hpanics)
    exact absurd ⟨patches, h⟩ ((panics_iff servers).mpr hpanics)
  rw [or_iff_right hpanics]
  obtain ⟨patches, hpatches⟩ := not_not.mp ((panics_iff servers).not.mpr hpanics)
  obtain ⟨entries, hentries, -⟩ := makePatches_ok_iff.mp hpatches
  obtain ⟨syms, hsyms⟩ : ∃ syms, f.symbols = some syms := by
    by_contra hnone
    exact hpanics fun syms h => absurd ⟨syms, h⟩ hnone
  obtain ⟨yss, hyss, hflat⟩ := collect_ok_iff.mp ((patchEntries_eq hsyms).symm.trans hentries)
  simp only [hpatches, Except.ok.injEq, forall_eq', hsyms, Option.some.injEq,
    complete_iff_entries servers hsyms hentries hpatches]
  constructor
  · intro hcomplete patch hpatch
    obtain ⟨blocks, hblocks, hflat'⟩ := hcomplete
    -- each patch contributes at least its block, and in all there is no more than the blocks
    have htotal : blocks.flatten.length = yss.flatten.length := by rw [← hflat', hflat]
    obtain ⟨block, ys, hblock, hys, hlen⟩ :=
      forall_length_eq hblocks hyss (fun _ _ _ hR hS => hR.length_le hS) htotal patch hpatch
    exact hblock.delivered hys hlen
  · intro h
    have hboth := (List.forall₂_and_left ..).mpr ⟨h, hyss⟩
    exact ⟨yss, hboth.imp fun _ _ ⟨hdelivered, hys⟩ => isBlock_of_delivered hdelivered hys, hflat⟩

-- A game with one patch, and a module without symbols.
def strippedElf : ElfFile := ⟨some [], some []⟩

def joinGame : Game where
  offsets := ⟨0x0079FDA0, 0x00767CF8, 0x00767C40, 0, 0, 0x0079FBC0, 0⟩
  userAgent := "PatchworkLBP1 2.0"
  name := "LittleBigPlanet"
  gameVersions := ["01.30"]
  titleIDs := ["BCES00141"]
  ppuHash := "PPU-545c1abbf1c562d60fca7435401f020beab76b53"
  patches := [⟨"LBP1ForceJoinPatch", 16, overwrite, 0x03ab70c⟩]

theorem makePatches_drops : ¬ ∀ (f : ElfFile) (game : Game) (servers : List Server)
    (patches : PatchMap), makePatches f game servers = .ok patches → Complete f game patches := by
  intro h
  have hcomplete := h strippedElf joinGame [] _ rfl
  obtain ⟨blocks, hblocks, -⟩ := (complete_iff_entries [] rfl rfl rfl).mp hcomplete
  obtain ⟨block, -, hblock, -, -⟩ := List.forall₂_cons_left_iff.mp hblocks
  obtain ⟨sym, hsym, -⟩ := hblock.made
  cases hsym

end Patchwork.PatchBlocks
