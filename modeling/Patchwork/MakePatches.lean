import Patchwork.Assignments
import Patchwork.Collect
import Patchwork.Elf
import Patchwork.Hex

/-!
# The patch generator

`MakePatches` turns a game's definition into patches for the emulator: one of the
game's code patches and its user agent, and one of the URLs for each server.
A panic is an error.
-/

namespace Patchwork.MakePatches
open Assignments Collect Elf Hex

abbrev PatchType := String

def hook : PatchType := "hook"
def overwrite : PatchType := "overwrite"

structure Patch where
  symbol : String
  length : UInt64
  type : PatchType
  offset : UInt32
deriving DecidableEq

structure GameAddressOffsets where
  userAgent : UInt32
  httpURL : UInt32
  httpsURL : UInt32
  presenceURL : UInt32
  liveURL : UInt32
  digestKey : UInt32
  networkKey : UInt32

structure Game where
  offsets : GameAddressOffsets
  userAgent : String
  name : String
  gameVersions : List String
  titleIDs : List String
  ppuHash : String
  patches : List Patch

structure Server where
  primaryURL : String
  httpsURL : String
  customDigest : String
  name : String
  owner : String
  description : String

structure PatchEntry where
  type : String
  address : UInt32
  value : String
deriving DecidableEq

abbrev PatchGames := Map String (Map String (List String))

structure RPCS3Patch where
  games : PatchGames
  author : String
  notes : String
  patchVersion : ℚ
  patch : List PatchEntry

abbrev PatchMap := Map String (Map String RPCS3Patch)

def cUtf8PatchType : String := "cutf8"

def cUtf8Patch (address : UInt32) (value : String) : PatchEntry := ⟨cUtf8PatchType, address, value⟩

def word (patch : List UInt8) (i : ℕ) : List UInt8 := (patch.drop (4 * i)).take 4

def hexValue (bs : List UInt8) : String := String.ofList ('0' :: 'x' :: toHex bs)

def codeEntries (hookOffset : UInt32) (patch : List UInt8) : List PatchEntry :=
  ⟨"calloc", hookOffset, toString (patch.length / 4)⟩ ::
    (List.range (patch.length / 4)).map fun i => ⟨"be32", 0, hexValue (word patch i)⟩

def overwriteEntries (hookOffset : UInt32) (patch : List UInt8) : List PatchEntry :=
  (List.range (patch.length / 4)).map fun i =>
    ⟨"be32", hookOffset + UInt32.ofNat (4 * i), hexValue (word patch i)⟩

def makeCodePatch (hookOffset : UInt32) (patch : List UInt8) : Except String (List PatchEntry) :=
  if patch.length % 4 ≠ 0 then .error "invalid patch size" else .ok (codeEntries hookOffset patch)

def makeOverwritePatch (hookOffset : UInt32) (patch : List UInt8) :
    Except String (List PatchEntry) :=
  if patch.length % 4 ≠ 0 then .error "invalid patch size"
  else .ok (overwriteEntries hookOffset patch)

/-- `make` and `ReadAt`. A buffer too large for `make` is larger than any section. -/
def readHook (text : List UInt8) (n off : ℕ) : Except String (List UInt8) := do
  let gameHook ← readAt text n off
  if gameHook.length ≠ n then .error "invalid patch length" else .ok gameHook

/-- What the loops over patches and symbols do when the names agree. Other types of patches
than the two fall through. -/
def makeBlock (f : ElfFile) (patch : Patch) (sym : Symbol) : Except String (List PatchEntry) :=
  match f.text with
  | none => .error "section not found"
  | some text =>
    if patch.type = overwrite then
      if patch.length = 0 then .error "patch length cannot be zero for an overwrite"
      else do
        let gameHook ← readHook text (patch.length * 4).toNat sym.value.toNat
        makeOverwritePatch patch.offset gameHook
    else if patch.type = hook then
      if patch.length ≠ 0 then do
        let gameHook ← readHook text patch.length.toNat patch.offset.toNat
        makeCodePatch patch.offset gameHook
      else do
        let gameHook ← getHook text sym.value
        makeCodePatch patch.offset gameHook
    else .ok []

def symbols (f : ElfFile) : Except String (List Symbol) :=
  match f.symbols with
  | some syms => .ok syms
  | none => .error "no symbol section"

def patchEntries (f : ElfFile) (game : Game) : Except String (List PatchEntry) := do
  let syms ← symbols f
  game.patches.foldlM (fun entries patch => syms.foldlM (fun entries sym =>
    if sym.name = patch.symbol then do
      let block ← makeBlock f patch sym
      .ok (entries ++ block)
    else .ok entries) entries) []

section Patches
variable (game : Game) (servers : List Server)

def titleIDVersionMap : Map String (List String) :=
  assign ∅ (game.titleIDs.map fun d => (d, game.gameVersions))

def patchGames : PatchGames := assign ∅ [(game.name, titleIDVersionMap game)]

def combinedPatch (entries : List PatchEntry) : RPCS3Patch where
  games := patchGames game
  author := "HugeSpaceship contributors"
  notes := "Combined patch from patchwork sources"
  patchVersion := 1
  patch := entries ++ [cUtf8Patch game.offsets.userAgent game.userAgent]

def serverEntries (server : Server) : List PatchEntry :=
  let httpsURL := if server.httpsURL = "" then server.primaryURL else server.httpsURL
  [cUtf8Patch game.offsets.httpURL server.primaryURL,
    cUtf8Patch game.offsets.httpsURL httpsURL] ++
  (if game.offsets.liveURL ≠ 0 then
    [cUtf8Patch game.offsets.liveURL server.primaryURL] else []) ++
  (if game.offsets.presenceURL ≠ 0 then
    [cUtf8Patch game.offsets.presenceURL server.primaryURL] else []) ++
  if server.customDigest ≠ "" then
    [cUtf8Patch game.offsets.digestKey server.customDigest] else []

def serverPatch (server : Server) : RPCS3Patch where
  games := patchGames game
  author := server.owner ++ " (Autogenerated by Patchwork)"
  notes := server.description ++ "\n" ++ "(Autogenerated by patchwork)"
  patchVersion := 1
  patch := serverEntries game server

def combinedName : String := "Patchwork Combined Patch"

def serverName (server : Server) : String := server.name ++ " Custom Server"

def gamePatches (entries : List PatchEntry) : Map String RPCS3Patch :=
  assign ∅ ((combinedName, combinedPatch game entries) ::
    servers.map fun server => (serverName server, serverPatch game server))

end Patches

def makePatches (f : ElfFile) (game : Game) (servers : List Server) : Except String PatchMap := do
  let entries ← patchEntries f game
  .ok (assign ∅ [(game.ppuHash, gamePatches game servers entries)])

section Block
variable {f : ElfFile} {text r : List UInt8} {patch : Patch} {sym : Symbol} {n off : ℕ}
  {block : List PatchEntry}

theorem readHook_eq : readHook text n off = readAt text n off := by
  unfold readHook
  by_cases h : InText text n off
  · rw [readAt_pos text h]
    exact if_neg (not_not_intro (InText.length text h))
  · rw [readAt_neg text h]
    rfl

theorem readHook_ok (h : readHook text n off = .ok r) : r.length = n := by
  rw [readHook_eq, readAt] at h
  split_ifs at h with hin
  cases h
  exact hin.length text

theorem readHook_ok_iff : (∃ r, readHook text n off = .ok r) ↔ InText text n off := by
  rw [readHook_eq, readAt]
  split_ifs with h
  · exact iff_of_true ⟨_, rfl⟩ h
  · exact iff_of_false (by simp) h

theorem makeCodePatch_ok_iff {o : UInt32} : (∃ r, makeCodePatch o text = .ok r) ↔
    text.length % 4 = 0 := by
  unfold makeCodePatch
  split_ifs with h
  · exact iff_of_false (by simp) h
  · exact iff_of_true ⟨_, rfl⟩ (not_not.mp h)

theorem makeOverwritePatch_ok_iff {o : UInt32} : (∃ r, makeOverwritePatch o text = .ok r) ↔
    text.length % 4 = 0 := by
  unfold makeOverwritePatch
  split_ifs with h
  · exact iff_of_false (by simp) h
  · exact iff_of_true ⟨_, rfl⟩ (not_not.mp h)

theorem bytes_mod_four (length : UInt64) : (length * 4).toNat % 4 = 0 := by
  rw [UInt64.toNat_mul, show (4 : UInt64).toNat = 4 from rfl]
  omega

def Readable (f : ElfFile) (patch : Patch) (sym : Symbol) : Prop :=
  ∃ text, f.text = some text ∧
    (patch.type = overwrite →
      patch.length ≠ 0 ∧ InText text (patch.length * 4).toNat sym.value.toNat) ∧
    (patch.type = hook → patch.length ≠ 0 →
      InText text patch.length.toNat patch.offset.toNat ∧ patch.length.toNat % 4 = 0) ∧
    (patch.type = hook → patch.length = 0 → Branches text 2 sym.value.toNat)

theorem hook_ne_overwrite : hook ≠ overwrite := by decide

theorem readable_overwrite (ht : f.text = some text) (htype : patch.type = overwrite) :
    Readable f patch sym ↔
      patch.length ≠ 0 ∧ InText text (patch.length * 4).toNat sym.value.toNat := by
  refine ⟨?_, fun h => ⟨text, ht, fun _ => h,
    fun hh => absurd (hh.symm.trans htype) hook_ne_overwrite,
    fun hh => absurd (hh.symm.trans htype) hook_ne_overwrite⟩⟩
  intro readable
  obtain ⟨text', ht', h, -, -⟩ := readable
  cases ht.symm.trans ht'
  exact h htype

theorem readable_length (ht : f.text = some text) (htype : patch.type = hook)
    (hlen : patch.length ≠ 0) : Readable f patch sym ↔
      InText text patch.length.toNat patch.offset.toNat ∧ patch.length.toNat % 4 = 0 := by
  refine ⟨?_, fun h => ⟨text, ht, fun ho => absurd (htype.symm.trans ho) hook_ne_overwrite,
    fun _ _ => h, fun _ h0 => absurd h0 hlen⟩⟩
  intro readable
  obtain ⟨text', ht', -, h, -⟩ := readable
  cases ht.symm.trans ht'
  exact h htype hlen

theorem readable_branches (ht : f.text = some text) (htype : patch.type = hook)
    (hlen : patch.length = 0) : Readable f patch sym ↔ Branches text 2 sym.value.toNat := by
  refine ⟨?_, fun h => ⟨text, ht, fun ho => absurd (htype.symm.trans ho) hook_ne_overwrite,
    fun _ hl => absurd hlen hl, fun _ _ => h⟩⟩
  intro readable
  obtain ⟨text', ht', -, -, h⟩ := readable
  cases ht.symm.trans ht'
  exact h htype hlen

theorem makeBlock_ok_iff : (∃ block, makeBlock f patch sym = .ok block) ↔ Readable f patch sym := by
  unfold makeBlock
  cases ht : f.text with
  | none => exact iff_of_false (by simp) fun ⟨text, htext, _⟩ => by cases ht.symm.trans htext
  | some text =>
    dsimp only
    by_cases ho : patch.type = overwrite
    · rw [if_pos ho, readable_overwrite ht ho]
      by_cases hl : patch.length = 0
      · simp [hl]
      · rw [if_neg hl, bind_total_iff, and_iff_right hl, ← readHook_ok_iff]
        refine exists_congr fun r => and_iff_left_of_imp fun hr => ?_
        rw [makeOverwritePatch_ok_iff, readHook_ok hr, bytes_mod_four]
    · rw [if_neg ho]
      by_cases hh : patch.type = hook
      · rw [if_pos hh]
        by_cases hl : patch.length = 0
        · rw [if_neg (not_not_intro hl), readable_branches ht hh hl, bind_total_iff,
            ← getHook_ok_iff]
          refine exists_congr fun r => and_iff_left_of_imp fun hr => ?_
          obtain ⟨k, hk⟩ := getHook_words hr
          rw [makeCodePatch_ok_iff, hk]
          omega
        · rw [if_pos hl, readable_length ht hh hl, bind_total_iff, ← readHook_ok_iff,
            ← exists_and_right]
          refine exists_congr fun r => and_congr_right fun hr => ?_
          rw [makeCodePatch_ok_iff, readHook_ok hr]
      · rw [if_neg hh]
        exact iff_of_true ⟨_, rfl⟩ ⟨text, ht, fun h => absurd h ho, fun h => absurd h hh,
          fun h => absurd h hh⟩

theorem codeEntries_ne_nil {o : UInt32} : codeEntries o text ≠ [] := List.cons_ne_nil _ _

theorem makeBlock_cases (h : makeBlock f patch sym = .ok block) :
    (patch.type = hook ∧ ∃ code, block = codeEntries patch.offset code) ∨
    (patch.type = overwrite ∧ ∃ text, f.text = some text ∧
      InText text (patch.length * 4).toNat sym.value.toNat ∧ block = overwriteEntries patch.offset
        ((text.drop sym.value.toNat).take (patch.length * 4).toNat)) ∨
    (patch.type ≠ hook ∧ patch.type ≠ overwrite ∧ block = []) := by
  have hcode {o : UInt32} {x : Except String (List UInt8)}
      (h : (x >>= makeCodePatch o) = .ok block) :
      ∃ code, block = codeEntries o code := by
    obtain ⟨code, -, hcode⟩ := bind_ok_iff.mp h
    unfold makeCodePatch at hcode
    split_ifs at hcode
    exact ⟨code, (Except.ok.inj hcode).symm⟩
  unfold makeBlock at h
  cases ht : f.text with
  | none => simp [ht] at h
  | some text =>
    simp only [ht] at h
    split_ifs at h with ho hl hh hl
    · obtain ⟨code, hread, hblock⟩ := bind_ok_iff.mp h
      unfold makeOverwritePatch at hblock
      split_ifs at hblock
      rw [readHook_eq, readAt] at hread
      split_ifs at hread with hin
      cases hread
      exact .inr (.inl ⟨ho, text, rfl, hin, (Except.ok.inj hblock).symm⟩)
    · exact .inl ⟨hh, hcode h⟩
    · exact .inl ⟨hh, hcode h⟩
    · exact .inr (.inr ⟨hh, ho, (Except.ok.inj h).symm⟩)

end Block

section Game
variable {f : ElfFile} {game : Game} {servers : List Server} {entries : List PatchEntry}
  {patches : PatchMap}

theorem combinedName_ne_serverName (server : Server) : combinedName ≠ serverName server := by
  intro h
  have hlast := congrArg (fun s : String => s.toList.getLast?) h
  simp [combinedName, serverName] at hlast

theorem makePatches_ok_iff : makePatches f game servers = .ok patches ↔
    ∃ entries, patchEntries f game = .ok entries ∧
      patches = assign ∅ [(game.ppuHash, gamePatches game servers entries)] := by
  rw [makePatches, bind_ok_iff]
  exact exists_congr fun entries => and_congr_right fun _ => by simp [eq_comm]

theorem lookup_game :
    (assign ∅ [(game.ppuHash, gamePatches game servers entries)] : PatchMap).lookup game.ppuHash =
      some (gamePatches game servers entries) := Finmap.lookup_insert _

theorem lookup_gamePatches_combined :
    (gamePatches game servers entries).lookup combinedName = some (combinedPatch game entries) := by
  rw [gamePatches, assign_cons, lookup_assign_of_notMem, Finmap.lookup_insert]
  simp only [List.map_map, List.mem_map, not_exists, not_and]
  exact fun server _ h => combinedName_ne_serverName server h.symm

theorem serverName_injective {server server' : Server}
    (h : serverName server = serverName server') :
    server.name = server'.name := by
  have hchars := congrArg String.toList h
  simp only [serverName, String.toList_append, List.append_left_inj] at hchars
  exact String.toList_inj.mp hchars

theorem serverNames_nodup (h : (servers.map Server.name).Nodup) :
    (servers.map serverName).Nodup :=
  List.pairwise_map.mpr ((List.pairwise_map.mp h).imp fun hne he => hne (serverName_injective he))

theorem gamePatches_keys (h : (servers.map Server.name).Nodup) :
    (((combinedName, combinedPatch game entries) ::
      servers.map fun server =>
        (serverName server, serverPatch game server)).map Prod.fst).Nodup := by
  rw [List.map_cons, List.map_map]
  refine List.nodup_cons.mpr ⟨?_, serverNames_nodup h⟩
  intro hmem
  obtain ⟨server, -, hname⟩ := List.mem_map.mp hmem
  exact combinedName_ne_serverName server hname.symm

theorem lookup_gamePatches_server (h : (servers.map Server.name).Nodup) {server : Server}
    (hserver : server ∈ servers) : (gamePatches game servers entries).lookup (serverName server) =
      some (serverPatch game server) :=
  lookup_assign_of_mem (gamePatches_keys h)
    (List.mem_cons_of_mem _ (List.mem_map_of_mem hserver))

theorem card_gamePatches (h : (servers.map Server.name).Nodup) :
    (gamePatches game servers entries).keys.card = servers.length + 1 := by
  rw [gamePatches, card_keys_assign (gamePatches_keys h) fun _ _ => Finmap.notMem_empty]
  simp

end Game

end Patchwork.MakePatches
