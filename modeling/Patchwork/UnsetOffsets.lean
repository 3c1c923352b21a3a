import Patchwork.PatchBlocks

/-!
# Offsets that are not set

An offset that a game's definition leaves out is 0. Of the strings only the live and the
presence URL are left out with their offset; the others are written at address 0.
-/

namespace Patchwork.UnsetOffsets
open Assignments Collect Elf MakePatches PatchBlocks

def Kept (servers : List Server) (server : Server) : Prop :=
  ∃ before after, servers = before ++ server :: after ∧ server.name ∉ after.map Server.name

def urlOffsets (game : Game) : List UInt32 :=
  [game.offsets.httpURL, game.offsets.httpsURL, game.offsets.presenceURL, game.offsets.liveURL]

def NoStringAtZero (p : RPCS3Patch) : Prop :=
  ∀ e ∈ p.patch, e.type = cUtf8PatchType → e.address ≠ 0

/-- No string is written at address 0, and each URL that has an offset is written by each
server's patch. -/
structure Guarded (game : Game) (servers : List Server) (patches : PatchMap) : Prop where
  strings : ∀ hash ps name p, patches.lookup hash = some ps → ps.lookup name = some p →
    NoStringAtZero p
  urls : ∀ server ∈ servers, ∃ ps p, patches.lookup game.ppuHash = some ps ∧
    ps.lookup (serverName server) = some p ∧
    ∀ offset ∈ urlOffsets game, offset ≠ 0 → ∃ url, cUtf8Patch offset url ∈ p.patch

/-- The offsets that are written without a check are set where they are written at all. -/
structure OffsetsSet (game : Game) (servers : List Server) : Prop where
  userAgent : game.offsets.userAgent ≠ 0
  urls : servers ≠ [] → game.offsets.httpURL ≠ 0 ∧ game.offsets.httpsURL ≠ 0
  digest : ∀ server, Kept servers server → server.customDigest ≠ "" → game.offsets.digestKey ≠ 0

section Kept
variable {servers : List Server} {server : Server}

theorem Kept.mem (h : Kept servers server) : server ∈ servers := by
  obtain ⟨before, after, rfl, -⟩ := h
  simp

theorem Kept.concat (h : Kept servers server) {last : Server} (hne : server.name ≠ last.name) :
    Kept (servers ++ [last]) server := by
  obtain ⟨before, after, rfl, hafter⟩ := h
  exact ⟨before, after ++ [last], by simp, by simp [hafter, hne]⟩

theorem exists_kept (h : server ∈ servers) :
    ∃ kept, Kept servers kept ∧ kept.name = server.name := by
  induction servers using List.reverseRecOn with
  | nil => cases h
  | append_singleton servers last ih =>
    by_cases hname : server.name = last.name
    · exact ⟨last, ⟨servers, [], rfl, by simp⟩, hname.symm⟩
    · rcases List.mem_append.mp h with hmem | hmem
      · obtain ⟨kept, hkept, heq⟩ := ih hmem
        exact ⟨kept, hkept.concat (heq ▸ hname), heq⟩
      · exact absurd (congrArg Server.name (List.mem_singleton.mp hmem)) hname

end Kept

section Patches
variable {f : ElfFile} {game : Game} {servers : List Server} {entries : List PatchEntry}
  {patches : PatchMap} {name : String} {p : RPCS3Patch}

theorem serverName_mem_iff {server : Server} {after : List Server} :
    serverName server ∈ (after.map fun s => (serverName s, serverPatch game s)).map Prod.fst ↔
      server.name ∈ after.map Server.name := by
  rw [List.map_map, List.mem_map, List.mem_map]
  refine exists_congr fun s => and_congr_right fun _ => ⟨serverName_injective, fun h => ?_⟩
  exact congrArg (· ++ " Custom Server") h

theorem lookup_gamePatches_iff : (gamePatches game servers entries).lookup name = some p ↔
    (name = combinedName ∧ p = combinedPatch game entries) ∨
      ∃ server, Kept servers server ∧ name = serverName server ∧ p = serverPatch game server := by
  rw [gamePatches, lookup_assign_iff, or_iff_left fun h => by simpa using h.2]
  constructor
  · intro h
    obtain ⟨before, after, hsplit, hafter⟩ := h
    cases before with
    | nil =>
      obtain ⟨hfirst, -⟩ := List.cons.inj hsplit
      cases hfirst
      exact .inl ⟨rfl, rfl⟩
    | cons first before =>
      obtain ⟨-, hsplit⟩ := List.cons.inj hsplit
      obtain ⟨head, tail, rfl, -, htail⟩ := List.map_eq_append_iff.mp hsplit
      obtain ⟨server, rest, rfl, hserver, rfl⟩ := List.map_eq_cons_iff.mp htail
      cases hserver
      exact .inr ⟨server, ⟨head, rest, rfl, fun h => hafter (serverName_mem_iff.mpr h)⟩, rfl, rfl⟩
  · intro h
    obtain ⟨rfl, rfl⟩ | ⟨server, ⟨before, after, rfl, hafter⟩, rfl, rfl⟩ := h
    · refine ⟨[], _, rfl, fun h => ?_⟩
      rw [List.map_map] at h
      obtain ⟨server, -, hname⟩ := List.mem_map.mp h
      exact combinedName_ne_serverName server hname.symm
    · exact ⟨(combinedName, combinedPatch game entries) ::
        before.map fun s => (serverName s, serverPatch game s),
        after.map fun s => (serverName s, serverPatch game s), by simp,
        fun h => hafter (serverName_mem_iff.mp h)⟩

theorem patchEntries_type (h : patchEntries f game = .ok entries) :
    ∀ e ∈ entries, e.type ≠ cUtf8PatchType := by
  obtain ⟨syms, blocks, -, hblocks, rfl⟩ := patchEntries_blocks h
  intro e he
  obtain ⟨block, hblock, he⟩ := List.mem_flatten.mp he
  obtain ⟨piece, -, hmade⟩ := exists_of_mem_right hblocks hblock
  obtain ⟨-, code, rfl⟩ | ⟨-, text, -, -, rfl⟩ | ⟨-, -, rfl⟩ := makeBlock_cases hmade
  · rcases List.mem_cons.mp he with rfl | hmem
    · exact show "calloc" ≠ cUtf8PatchType by decide
    · obtain ⟨i, -, rfl⟩ := List.mem_map.mp hmem
      exact show "be32" ≠ cUtf8PatchType by decide
  · obtain ⟨i, -, rfl⟩ := List.mem_map.mp he
    exact show "be32" ≠ cUtf8PatchType by decide
  · cases he

theorem combinedPatch_noStringAtZero (h : patchEntries f game = .ok entries) :
    NoStringAtZero (combinedPatch game entries) ↔ game.offsets.userAgent ≠ 0 := by
  constructor
  · intro hp
    exact hp (cUtf8Patch game.offsets.userAgent game.userAgent) (by simp [combinedPatch]) rfl
  · intro hset e he htype
    rcases List.mem_append.mp he with hmem | hmem
    · exact absurd htype (patchEntries_type h e hmem)
    · rwa [List.mem_singleton.mp hmem]

theorem serverPatch_noStringAtZero (server : Server) :
    NoStringAtZero (serverPatch game server) ↔ game.offsets.httpURL ≠ 0 ∧
      game.offsets.httpsURL ≠ 0 ∧ (server.customDigest ≠ "" → game.offsets.digestKey ≠ 0) := by
  have hstring (address : UInt32) (value : String) :
      (cUtf8Patch address value).type = cUtf8PatchType := rfl
  have hentries : NoStringAtZero (serverPatch game server) ↔
      ∀ e ∈ serverEntries game server, e.type = cUtf8PatchType → e.address ≠ 0 := Iff.rfl
  rw [hentries, serverEntries]
  simp only [List.forall_mem_append, List.forall_mem_cons, hstring, true_imp_iff]
  -- the two guarded entries never stand at 0
  split_ifs <;> simp_all [cUtf8Patch, and_assoc]

theorem url_mem_serverPatch (server : Server) {offset : UInt32} (h : offset ∈ urlOffsets game)
    (hne : offset ≠ 0) : ∃ url, cUtf8Patch offset url ∈ (serverPatch game server).patch := by
  have hentries : (serverPatch game server).patch = serverEntries game server := rfl
  rw [hentries]
  simp only [urlOffsets, List.mem_cons, List.not_mem_nil, or_false] at h
  rcases h with rfl | rfl | rfl | rfl
  · exact ⟨server.primaryURL, by simp [serverEntries]⟩
  · exact ⟨if server.httpsURL = "" then server.primaryURL else server.httpsURL,
      by simp [serverEntries]⟩
  · exact ⟨server.primaryURL, by simp [serverEntries, hne]⟩
  · exact ⟨server.primaryURL, by simp [serverEntries, hne]⟩

theorem strings_iff (h : patchEntries f game = .ok entries)
    (hpatches : patches = assign ∅ [(game.ppuHash, gamePatches game servers entries)]) :
    (∀ hash ps name p, patches.lookup hash = some ps → ps.lookup name = some p →
      NoStringAtZero p) ↔ OffsetsSet game servers := by
  subst hpatches
  have hall : (∀ hash ps name p, (assign ∅ [(game.ppuHash, gamePatches game servers entries)] :
      PatchMap).lookup hash = some ps → ps.lookup name = some p → NoStringAtZero p) ↔
      NoStringAtZero (combinedPatch game entries) ∧
        ∀ server, Kept servers server → NoStringAtZero (serverPatch game server) := by
    constructor
    · intro hp
      exact ⟨hp _ _ _ _ lookup_game lookup_gamePatches_combined, fun server hkept =>
        hp _ _ _ _ lookup_game (lookup_gamePatches_iff.mpr (.inr ⟨server, hkept, rfl, rfl⟩))⟩
    · intro hp hash ps name p hps hname
      have hin := mem_of_lookup_assign hps (by simp)
      cases List.mem_singleton.mp hin
      obtain ⟨-, rfl⟩ | ⟨server, hkept, -, rfl⟩ := lookup_gamePatches_iff.mp hname
      · exact hp.1
      · exact hp.2 server hkept
  rw [hall, combinedPatch_noStringAtZero h]
  simp only [serverPatch_noStringAtZero]
  constructor
  · intro hp
    obtain ⟨hagent, hservers⟩ := hp
    refine ⟨hagent, fun hne => ?_, fun server hkept => (hservers server hkept).2.2⟩
    obtain ⟨server, hserver⟩ := List.exists_mem_of_ne_nil _ hne
    obtain ⟨kept, hkept, -⟩ := exists_kept hserver
    exact ⟨(hservers kept hkept).1, (hservers kept hkept).2.1⟩
  · intro hset
    refine ⟨hset.userAgent, fun server hkept => ?_⟩
    have hurls := hset.urls (List.ne_nil_of_mem hkept.mem)
    exact ⟨hurls.1, hurls.2, hset.digest server hkept⟩

end Patches

/-- No string is written at address 0 exactly where the offsets of the strings that are written
unchecked are set; the URLs that have an offset are always written. -/
theorem makePatches_guarded_iff {f : ElfFile} {game : Game} {servers : List Server}
    {patches : PatchMap} (h : makePatches f game servers = .ok patches) :
    Guarded game servers patches ↔ OffsetsSet game servers := by
  obtain ⟨entries, hentries, hpatches⟩ := makePatches_ok_iff.mp h
  rw [← strings_iff hentries hpatches]
  refine ⟨fun hguarded => hguarded.strings, fun hstrings => ⟨hstrings, fun server hserver => ?_⟩⟩
  obtain ⟨kept, hkept, hname⟩ := exists_kept hserver
  refine ⟨_, serverPatch game kept, hpatches ▸ lookup_game, lookup_gamePatches_iff.mpr
    (.inr ⟨kept, hkept, ?_, rfl⟩), fun offset => url_mem_serverPatch kept⟩
  exact congrArg (· ++ " Custom Server") hname.symm

-- A definition without a digest offset, and a server with a digest of its own.
def undigestedGame : Game :=
  { joinGame with offsets := { joinGame.offsets with digestKey := 0 }, patches := [] }

def digestServer : Server :=
  ⟨"http://lighthouse:10061", "", "CustomServerDigest", "Lighthouse", "owner", "description"⟩

theorem makePatches_guarded_iff_undigested : ∃ patches,
    makePatches strippedElf undigestedGame [digestServer] = .ok patches ∧
    (Guarded undigestedGame [digestServer] patches ↔
      OffsetsSet undigestedGame [digestServer]) :=
  ⟨_, rfl, makePatches_guarded_iff (f := strippedElf) rfl⟩

theorem makePatches_not_guarded : ¬ ∀ (f : ElfFile) (game : Game) (servers : List Server)
    (patches : PatchMap), makePatches f game servers = .ok patches →
    Guarded game servers patches := by
  intro h
  have hguarded := h strippedElf undigestedGame [digestServer] _ rfl
  have hset := (strings_iff (f := strippedElf) rfl rfl).mp hguarded.strings
  exact hset.digest digestServer ⟨[], [], rfl, by simp⟩ (by decide) rfl

end Patchwork.UnsetOffsets
