import Mathlib.Data.List.Find
import Patchwork.PatchBlocks

/-!
# The generator's main

`main` merges the patches of all definitions of the configuration directory into one
map. The map has one place for each PPU hash, and under it one for each name.
-/

namespace Patchwork.Generator
open Assignments Collect Elf MakePatches PatchBlocks

structure DirEntry where
  name : String
  isDir : Bool
  content : Option (List UInt8)

/-- What `ReadDir` returns; a directory has no two entries of one name. -/
structure Directory where
  entries : List DirEntry
  distinct : (entries.map DirEntry.name).Nodup

/-- `Unmarshal` of the yaml package into a game and into the servers. -/
structure Yaml where
  game : List UInt8 → Except String Game
  servers : List UInt8 → Except String (List Server)

def readFile (file : DirEntry) : Except String (List UInt8) :=
  match file.content with
  | some bytes => .ok bytes
  | none => .error "open"

section Main
variable (yaml : Yaml) (f : ElfFile)

def findServers (d : Directory) : Except String (List Server) :=
  match d.entries.find? fun file => file.name = "servers.yaml" with
  | some file => do
    let serverBytes ← readFile file
    yaml.servers serverBytes
  | none => .ok []

def readGame (file : DirEntry) : Except String Game := do
  let configBytes ← readFile file
  yaml.game configBytes

/-- The body of the loop. What `MakePatches` returns replaces what is there already. -/
def mergeFile (servers : List Server) (patches : PatchMap) (file : DirEntry) :
    Except String PatchMap :=
  if file.isDir then .ok patches
  else if file.name = "servers.yaml" then .ok patches
  else do
    let game ← readGame yaml file
    let m ← makePatches f game servers
    .ok (m ∪ patches)

def main (d : Directory) : Except String PatchMap := do
  let servers ← findServers yaml d
  d.entries.foldlM (mergeFile yaml f servers) ∅

def isGameFile (file : DirEntry) : Bool := !file.isDir && file.name != "servers.yaml"

def readGames (d : Directory) : Except String (List Game) :=
  (d.entries.filter isGameFile).mapM (readGame yaml)

end Main

structure Merged (f : ElfFile) (servers : List Server) (games : List Game) (patches : PatchMap) :
    Prop where
  combined : ∀ game ∈ games, ∃ entries ps, patchEntries f game = .ok entries ∧
    patches.lookup game.ppuHash = some ps ∧
    ps.lookup combinedName = some (combinedPatch game entries)
  server : ∀ game ∈ games, ∃ ps, patches.lookup game.ppuHash = some ps ∧
    ∀ server ∈ servers, ps.lookup (serverName server) = some (serverPatch game server)
  gameCount : patches.keys.card = games.length
  patchCount : ∀ game ∈ games, ∃ ps, patches.lookup game.ppuHash = some ps ∧
    ps.keys.card = servers.length + 1

section Loop
variable {yaml : Yaml} {f : ElfFile} {servers : List Server} {games : List Game}
  {d : Directory} {patches : PatchMap} {kvs : List (String × Map String RPCS3Patch)}

def gameAssignment (f : ElfFile) (servers : List Server) (game : Game) :
    Except String (List (String × Map String RPCS3Patch)) := do
  let entries ← patchEntries f game
  .ok [(game.ppuHash, gamePatches game servers entries)]

def fileAssignment (yaml : Yaml) (f : ElfFile) (servers : List Server) (file : DirEntry) :
    Except String (List (String × Map String RPCS3Patch)) :=
  if isGameFile file then readGame yaml file >>= gameAssignment f servers else .ok []

theorem mergeFile_eq (patches : PatchMap) (file : DirEntry) :
    mergeFile yaml f servers patches file =
      (fileAssignment yaml f servers file).map (assign patches) := by
  unfold mergeFile fileAssignment isGameFile
  cases hdir : file.isDir with
  | true => rfl
  | false =>
    by_cases hname : file.name = "servers.yaml"
    · simp [hname, Except.map, assign]
    · simp only [Bool.false_eq_true, if_false, hname, Bool.not_false, Bool.true_and,
        bne_iff_ne, ne_eq, not_false_eq_true, if_true]
      cases readGame yaml file with
      | error e => rfl
      | ok game =>
        change (makePatches f game servers >>= fun m => .ok (m ∪ patches)) =
          (gameAssignment f servers game).map (assign patches)
        rw [makePatches, gameAssignment]
        cases patchEntries f game with
        | error e => rfl
        | ok entries =>
          have hunion : (assign ∅ [(game.ppuHash, gamePatches game servers entries)] : PatchMap) ∪
              patches = assign patches [(game.ppuHash, gamePatches game servers entries)] := by
            change Finmap.insert _ _ ∅ ∪ patches = Finmap.insert _ _ patches
            rw [← Finmap.insert_union, Finmap.empty_union]
          exact congrArg Except.ok hunion

theorem mergeFiles_eq (files : List DirEntry) (patches : PatchMap) :
    files.foldlM (mergeFile yaml f servers) patches =
      (collect (fileAssignment yaml f servers) files).map (assign patches) := by
  induction files generalizing patches with
  | nil => rfl
  | cons file files ih =>
    rw [List.foldlM_cons, mergeFile_eq, collect]
    cases fileAssignment yaml f servers file with
    | error e => rfl
    | ok kvs =>
      change files.foldlM (mergeFile yaml f servers) (assign patches kvs) = _
      rw [ih]
      cases collect (fileAssignment yaml f servers) files with
      | error e => simp [Except.map, bind, Except.bind]
      | ok rest => simp [Except.map, bind, Except.bind, assign, List.foldl_append]

theorem main_ok_iff : main yaml f d = .ok patches ↔
    ∃ servers kvs, findServers yaml d = .ok servers ∧
    collect (fileAssignment yaml f servers) d.entries = .ok kvs ∧ patches = assign ∅ kvs := by
  rw [main, bind_ok_iff]
  refine exists_congr fun servers => ?_
  rw [mergeFiles_eq]
  cases collect (fileAssignment yaml f servers) d.entries with
  | error e => simp [Except.map]
  | ok kvs => simp [Except.map, eq_comm]

theorem findServers_perm {d' : Directory} (h : d.entries.Perm d'.entries) :
    findServers yaml d' = findServers yaml d := by
  have hfind : d.entries.find? (fun file => file.name = "servers.yaml") =
      d'.entries.find? fun file => file.name = "servers.yaml" := by
    refine List.find?_eq_find?_of_perm h ?_
    intro file hfound file' hfound'
    obtain ⟨hfile, hname⟩ := hfound
    obtain ⟨hfile', hname'⟩ := hfound'
    refine List.inj_on_of_nodup_map d.distinct hfile hfile' ?_
    simp only [decide_eq_true_eq] at hname hname'
    rw [hname, hname']
  rw [findServers, findServers, hfind]

theorem main_perm {d' : Directory} (h : d.entries.Perm d'.entries)
    (hmain : main yaml f d = .ok patches) : ∃ servers kvs kvs', findServers yaml d = .ok servers ∧
      collect (fileAssignment yaml f servers) d.entries = .ok kvs ∧ kvs.Perm kvs' ∧
      patches = assign ∅ kvs ∧ main yaml f d' = .ok (assign ∅ kvs') := by
  obtain ⟨servers, kvs, hservers, hkvs, rfl⟩ := main_ok_iff.mp hmain
  obtain ⟨kvs', hkvs', hperm⟩ := collect_perm h hkvs
  exact ⟨servers, kvs, kvs', hservers, hkvs, hperm, rfl,
    main_ok_iff.mpr ⟨servers, kvs', (findServers_perm h).trans hservers, hkvs', rfl⟩⟩

theorem collect_games (hgames : readGames yaml d = .ok games) :
    collect (fileAssignment yaml f servers) d.entries =
      collect (gameAssignment f servers) games := by
  unfold fileAssignment
  rw [collect_filter, collect_mapM hgames]

theorem gameAssignments (h : collect (gameAssignment f servers) games = .ok kvs) :
    kvs.map Prod.fst = games.map Game.ppuHash ∧ ∀ game ∈ games, ∃ entries,
      patchEntries f game = .ok entries ∧
        (game.ppuHash, gamePatches game servers entries) ∈ kvs := by
  induction games generalizing kvs with
  | nil =>
    cases h
    exact ⟨rfl, by simp⟩
  | cons game games ih =>
    obtain ⟨kv, hkv, h⟩ := bind_ok_iff.mp h
    obtain ⟨rest, hrest, h⟩ := bind_ok_iff.mp h
    obtain ⟨entries, hentries, hkv⟩ := bind_ok_iff.mp hkv
    cases h
    cases hkv
    obtain ⟨hkeys, hmem⟩ := ih hrest
    refine ⟨by simp [hkeys], List.forall_mem_cons.mpr ⟨⟨entries, hentries, by simp⟩, ?_⟩⟩
    intro game' hgame'
    obtain ⟨entries', hentries', hin⟩ := hmem game' hgame'
    exact ⟨entries', hentries', List.mem_append_right _ hin⟩

theorem merged_assign (hhash : (games.map Game.ppuHash).Nodup)
    (hnames : (servers.map Server.name).Nodup)
    (h : collect (gameAssignment f servers) games = .ok kvs) :
    Merged f servers games (assign ∅ kvs) := by
  obtain ⟨hkeys, hmem⟩ := gameAssignments h
  have hnodup : (kvs.map Prod.fst).Nodup := hkeys ▸ hhash
  have hlookup : ∀ game ∈ games, ∃ entries, patchEntries f game = .ok entries ∧
      (assign ∅ kvs : PatchMap).lookup game.ppuHash = some (gamePatches game servers entries) := by
    intro game hgame
    obtain ⟨entries, hentries, hin⟩ := hmem game hgame
    exact ⟨entries, hentries, lookup_assign_of_mem hnodup hin⟩
  refine ⟨fun game hgame => ?_, fun game hgame => ?_, ?_, fun game hgame => ?_⟩
  · obtain ⟨entries, hentries, hps⟩ := hlookup game hgame
    exact ⟨entries, _, hentries, hps, lookup_gamePatches_combined⟩
  · obtain ⟨entries, -, hps⟩ := hlookup game hgame
    exact ⟨_, hps, fun server hserver => lookup_gamePatches_server hnames hserver⟩
  · have hlength := congrArg List.length hkeys
    rw [card_keys_assign hnodup fun _ _ => Finmap.notMem_empty]
    simpa using hlength
  · obtain ⟨entries, -, hps⟩ := hlookup game hgame
    exact ⟨_, hps, card_gamePatches hnames⟩

end Loop

/-- With distinct PPU hashes and server names nothing is lost, in whatever order the files are
read. -/
theorem main_merged (yaml : Yaml) (f : ElfFile) (d : Directory) (servers : List Server)
    (games : List Game) (hservers : findServers yaml d = .ok servers)
    (hgames : readGames yaml d = .ok games) (hhash : (games.map Game.ppuHash).Nodup)
    (hnames : (servers.map Server.name).Nodup) :
    (∀ patches, main yaml f d = .ok patches → Merged f servers games patches) ∧
      ∀ d' : Directory, d.entries.Perm d'.entries →
        (main yaml f d').toOption = (main yaml f d).toOption := by
  constructor
  · intro patches hmain
    obtain ⟨servers', kvs, hservers', hkvs, rfl⟩ := main_ok_iff.mp hmain
    obtain rfl := Except.ok.inj (hservers.symm.trans hservers')
    exact merged_assign hhash hnames ((collect_games hgames).symm.trans hkvs)
  -- distinct hashes make the assignments commute
  · intro d' hperm
    cases hmain : main yaml f d with
    | ok patches =>
      obtain ⟨servers', kvs, kvs', -, hkvs, hkvs', rfl, hmain'⟩ := main_perm hperm hmain
      rw [hmain', ← assign_perm ?_ hkvs']
      rw [(gameAssignments ((collect_games hgames).symm.trans hkvs)).1]
      exact hhash
    | error e =>
      -- a map from one order gives one from the other, so both orders fail
      cases hmain' : main yaml f d' with
      | error e' => rfl
      | ok patches =>
        obtain ⟨_, _, _, _, _, _, _, hok⟩ := main_perm hperm.symm hmain'
        cases hmain.symm.trans hok

-- Two versions of a definition with one hash, and then with two.
def versionGame (hash version : String) : Game where
  offsets := ⟨0x00D8BF50, 0x00D9E4C4, 0x00D9E5D8, 0, 0, 0x00D8BD08, 0⟩
  userAgent := "PatchworkLBP3 2.0"
  name := "LittleBigPlanet 3"
  gameVersions := [version]
  titleIDs := ["BCES02068"]
  ppuHash := hash
  patches := []

def versionYaml (hash : String) : Yaml where
  game bytes := .ok (if bytes = [1] then versionGame "PPU-1" "01.26" else versionGame hash "01.21")
  servers _ := .ok []

def versionDirectory : Directory where
  entries := [⟨"lbp3.yaml", false, some [1]⟩, ⟨"lbp3jp.yaml", false, some [2]⟩]
  distinct := by decide

theorem main_overwrites : ¬ ∀ (yaml : Yaml) (f : ElfFile) (d : Directory) (servers : List Server)
    (games : List Game), findServers yaml d = .ok servers → readGames yaml d = .ok games →
    ∀ patches, main yaml f d = .ok patches → Merged f servers games patches := by
  intro h
  have hmerged := h (versionYaml "PPU-1") strippedElf versionDirectory [] _ rfl rfl _ rfl
  exact absurd hmerged.gameCount (by decide)

theorem main_merged_versions :
    (∀ patches, main (versionYaml "PPU-2") strippedElf versionDirectory = .ok patches →
      Merged strippedElf [] [versionGame "PPU-1" "01.26", versionGame "PPU-2" "01.21"] patches) ∧
    ∀ d' : Directory, versionDirectory.entries.Perm d'.entries →
      (main (versionYaml "PPU-2") strippedElf d').toOption =
        (main (versionYaml "PPU-2") strippedElf versionDirectory).toOption :=
  main_merged _ _ _ _ _ rfl rfl (by decide) (by decide)

end Patchwork.Generator
