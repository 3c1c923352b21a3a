import Patchwork.Emulator
import Patchwork.Lbpdefs
import Patchwork.PatchBlocks

/-!
# The two patchers

The table that the plugin applies and the entries that the generator makes are kept by
hand in two places. They agree on every game but the third, whose definition has
offsets of other games; a string that fills its field needs the zero byte that only
the generator writes.
-/

namespace Patchwork.Agreement
open Assignments ByteMemory Collect Console Elf Emulator Lbpdefs MakePatches PatchBlocks Patches

def urlFields : GameNumber → List ℕ
  | .unknown => []
  | .lbp1 => [lbp1HttpsUrlOffset, lbp1HttpUrlOffset]
  | .lbp2 => [lbp2HttpsUrlOffset, lbp2HttpUrlOffset]
  | .lbp3 => [lbp3HttpsUrlOffset, lbp3HttpUrlOffset, lbp3PresenceUrlOffset, lbp3LiveUrlOffset]
  | .lbp3JP => [lbp3JPHttpsUrlOffset, lbp3JPHttpUrlOffset, lbp3JPPresenceUrlOffset,
    lbp3JPLiveUrlOffset]

def digestFields : GameNumber → List ℕ
  | .unknown => []
  | .lbp1 => [lbp1DigestOffset]
  | .lbp2 => [lbp2DigestOffset]
  | .lbp3 => [lbp3DigestOffset]
  | .lbp3JP => [lbp3JPDigestOffset]

def forceJoinRows (G : Globals) : GameNumber → List GamePatch
  | .unknown => []
  | .lbp1 => [⟨lbp1ForceJoinPatchOffset, G.lbp1ForceJoinPatch, lbp1ForceJoinPatchLength, .direct⟩]
  | .lbp2 => [⟨lbp2ForceJoinPatchOffset, G.lbp2ForceJoinPatch, lbp2ForceJoinPatchLength, .direct⟩]
  | .lbp3 => [⟨lbp3ForceJoinPatchOffset, G.lbp3ForceJoinPatch, lbp3ForceJoinPatchLength, .direct⟩]
  | .lbp3JP =>
    [⟨lbp3JPForceJoinPatchOffset, G.lbp3JPForceJoinPatch, lbp3JPForceJoinPatchLength, .direct⟩]

def runtimeCode (G : Globals) (g : GameNumber) (m : Mem) : List (UInt8 × ℕ) :=
  (forceJoinRows G g).flatMap fun q => (delivered m q).zipIdx q.offset

def appliedEntries (patches : PatchMap) (game : Game) (server : Server) :
    Option (List PatchEntry) := do
  let ps ← patches.lookup game.ppuHash
  let combined ← ps.lookup combinedName
  let forServer ← ps.lookup (serverName server)
  some (combined.patch ++ forServer.patch)

/-- The same force-join code at the same addresses, and the same string in each field. -/
structure Agree (G : Globals) (g : GameNumber) (alloc : Allocation) (entries : List PatchEntry)
    (w : World) : Prop where
  code : codeBytes entries = runtimeCode G g w.mem
  strings : ∀ a ∈ urlFields g ++ digestFields g, ∀ s,
    IsCString (stores w.mem (entryStores alloc entries fun _ => 0)) a s ↔
      IsCString (applyGamePatches (patches G g) w).mem a s

/-- What both start from: the module is loaded at `base`, `sym` is the symbol of its
force-join code, `ServerURL` and `ServerDigest` point to the server's URL and digest, which
fit their fields, and the table covers none of this. -/
structure Setup (G : Globals) (g : GameNumber) (f : ElfFile) (game : Game) (server : Server)
    (base : ℕ) (sym : Symbol) (m : Mem) : Prop where
  defined : definition g = some game
  symbol : ∃ syms, f.symbols = some syms ∧
    ∀ patch ∈ game.patches, patch.type = overwrite → named syms patch = [sym]
  placed : base ≠ 0
  loaded : ∃ text, f.text = some text ∧ load m base text.length = text
  source : ∀ q ∈ forceJoinRows G g, q.source = base + sym.value.toNat
  url : load32 m G.serverURL ≠ 0 ∧ IsCString m (load32 m G.serverURL) (utf8 server.primaryURL)
  digest : load32 m G.serverDigest ≠ 0 ∧
    IsCString m (load32 m G.serverDigest) (utf8 server.customDigest)
  httpsURL : server.httpsURL = ""
  customDigest : server.customDigest ≠ ""
  urlFits : (utf8 server.primaryURL).length ≤ lbpPs3ProdUrlLength
  digestFits : (utf8 server.customDigest).length ≤ lbpDigestLength
  clear : ∀ q ∈ patches G g, q.source = G.serverURL ∨ q.source = G.serverDigest ∨
    q ∈ forceJoinRows G g → Undisturbed m (patches G g) q

section Code
variable {f : ElfFile} {game : Game} {syms : List Symbol} {sym : Symbol} {join script : Patch}
  {entries : List PatchEntry} {text : List UInt8}

theorem hookEntries_not_isCode {patch : Patch} (ht : patch.type = hook)
    (h : collect (makeBlock f patch) syms = .ok entries) : ∀ e ∈ entries, ¬ IsCode e := by
  obtain ⟨yss, hyss, rfl⟩ := collect_ok_iff.mp h
  intro e he
  obtain ⟨block, hblock, he⟩ := List.mem_flatten.mp he
  obtain ⟨sym, -, hmake⟩ := exists_of_mem_right hyss hblock
  obtain ⟨-, code, rfl⟩ | ⟨ho, -⟩ | ⟨hh, -⟩ := makeBlock_cases hmake
  · exact codeEntries_not_isCode e he
  · exact absurd (ht.symm.trans ho) hook_ne_overwrite
  · exact absurd ht hh

theorem codeBytes_patchEntries (hpatches : game.patches = [join, script])
    (hjoin : join.type = overwrite) (hscript : script.type = hook)
    (hsyms : f.symbols = some syms) (hnamed : named syms join = [sym]) (htext : f.text = some text)
    (hentries : patchEntries f game = .ok entries) (ho : 0 < join.offset.toNat)
    (hroom : join.offset.toNat + (join.length * 4).toNat ≤ 2 ^ 32) :
    InText text (join.length * 4).toNat sym.value.toNat ∧ codeBytes entries =
      ((text.drop sym.value.toNat).take (join.length * 4).toNat).zipIdx join.offset.toNat := by
  rw [patchEntries_eq hsyms, hpatches] at hentries
  obtain ⟨first, hfirst, hentries⟩ := bind_ok_iff.mp hentries
  obtain ⟨second, hsecond, hentries⟩ := bind_ok_iff.mp hentries
  cases hentries
  obtain ⟨third, hthird, hsecond⟩ := bind_ok_iff.mp hsecond
  cases hsecond
  dsimp only at hfirst hthird
  rw [hnamed] at hfirst
  obtain ⟨block, hblock, hfirst⟩ := bind_ok_iff.mp hfirst
  cases hfirst
  obtain ⟨hh, -⟩ | ⟨-, text', htext', hin, rfl⟩ | ⟨-, hne, -⟩ := makeBlock_cases hblock
  · exact absurd (hh.symm.trans hjoin) hook_ne_overwrite
  · obtain rfl := Option.some.inj (htext.symm.trans htext')
    have hlength := hin.length text
    refine ⟨hin, ?_⟩
    rw [List.append_nil, List.append_nil, codeBytes_append,
      codeBytes_eq_nil (hookEntries_not_isCode hscript hthird), List.append_nil,
      codeBytes_overwriteEntries (by rw [hlength, bytes_mod_four]) ho
        (by rw [hlength]; exact hroom)]
  · exact absurd hjoin hne

theorem delivered_code {m : Mem} {base n offset source : ℕ} (hbase : base ≠ 0)
    (hsource : source = base + sym.value.toNat) (hloaded : load m base text.length = text)
    (hin : InText text n sym.value.toNat) :
    delivered m ⟨offset, source, n, .direct⟩ = (text.drop sym.value.toNat).take n := by
  have horigin : origin m ⟨offset, source, n, .direct⟩ = source := rfl
  have hle := hin.2.2
  rw [delivered, horigin, if_neg (by omega), hsource]
  conv_rhs => rw [← hloaded, load_drop _ (by omega), load_take _ (by omega)]

end Code

section Strings
variable {game : Game} {server : Server} {alloc : Allocation} {es es' : List PatchEntry}
  {slot : ℕ → ℕ} {m m₁ m₂ : Mem} {a source n : ℕ} {s : List UInt8}

def urlOffsets (game : Game) : List UInt32 :=
  [game.offsets.httpURL, game.offsets.httpsURL] ++
    (if game.offsets.liveURL ≠ 0 then [game.offsets.liveURL] else []) ++
    if game.offsets.presenceURL ≠ 0 then [game.offsets.presenceURL] else []

def urlAddresses (game : Game) : List ℕ := (urlOffsets game).map UInt32.toNat

theorem serverEntries_eq (hurl : server.httpsURL = "") (hdigest : server.customDigest ≠ "") :
    serverEntries game server =
      (urlOffsets game).map (fun o => cUtf8Patch o server.primaryURL) ++
        [cUtf8Patch game.offsets.digestKey server.customDigest] := by
  simp only [serverEntries, urlOffsets, hurl, hdigest, if_pos, ne_eq, not_false_eq_true]
  split_ifs <;> rfl

theorem entryStores_append (h : ∀ e ∈ es', e.type = cUtf8PatchType) :
    entryStores alloc (es ++ es') slot = entryStores alloc es slot ++
      es'.map fun e => ⟨e.address.toNat, utf8 e.value ++ [0]⟩ := by
  induction es generalizing slot with
  | nil => exact entryStores_strings h
  | cons e es ih =>
    simp only [List.cons_append, entryStores]
    split_ifs <;> simp [ih]

theorem same_string_iff (h₁ : IsCString m₁ a s) (h : IsCString m source s)
    (hcopy : load m₂ a n = load m source n) (hlen : s.length ≤ n) :
    (∀ t, IsCString m₁ a t ↔ IsCString m₂ a t) ↔ (s.length = n → m₂ (a + n) = 0) := by
  rw [← isCString_copied_iff h hcopy hlen]
  refine ⟨fun hsame => (hsame s).mp h₁, fun h₂ t => ?_⟩
  exact ⟨fun ht => h₁.unique ht ▸ h₂, fun ht => h₂.unique ht ▸ h₁⟩

def serverStores (game : Game) (url digest : List UInt8) : List Store :=
  (urlAddresses game).map (fun a => ⟨a, url ++ [0]⟩) ++
    [⟨game.offsets.digestKey.toNat, digest ++ [0]⟩]

def FieldsApart (game : Game) : Prop :=
  ((urlAddresses game).Pairwise fun a b =>
    Apart a (lbpPs3ProdUrlLength + 1) b (lbpPs3ProdUrlLength + 1)) ∧
  ∀ a ∈ urlAddresses game,
    Apart a (lbpPs3ProdUrlLength + 1) game.offsets.digestKey.toNat (lbpDigestLength + 1)

instance (game : Game) : Decidable (FieldsApart game) := inferInstanceAs (Decidable (_ ∧ _))

theorem serverStores_pairwise {url digest : List UInt8} (h : FieldsApart game)
    (hurl : url.length ≤ lbpPs3ProdUrlLength) (hdigest : digest.length ≤ lbpDigestLength) :
    (serverStores game url digest).Pairwise fun u v => v.Misses u.addr u.bytes.length := by
  have hu : (url ++ [0]).length ≤ lbpPs3ProdUrlLength + 1 := by simpa using hurl
  have hd : (digest ++ [0]).length ≤ lbpDigestLength + 1 := by simpa using hdigest
  refine List.pairwise_append.mpr
    ⟨List.pairwise_map.mpr (h.1.imp fun happart => happart.mono hu hu),
    List.pairwise_singleton _ _, ?_⟩
  intro u hmem v hv
  obtain ⟨a, ha, rfl⟩ := List.mem_map.mp hmem
  obtain rfl := List.mem_singleton.mp hv
  exact (h.2 a ha).mono hu hd

end Strings

section Games
variable {G : Globals} {g : GameNumber} {f : ElfFile} {game : Game} {server : Server} {base : ℕ}
  {sym : Symbol} {alloc : Allocation} {entries : List PatchEntry} {w : World} {a : ℕ}

theorem definition_patches (G : Globals) (h : definition g = some game) :
    ∃ join script offset source, game.patches = [join, script] ∧ join.type = overwrite ∧
      script.type = hook ∧ 0 < join.offset.toNat ∧ 0 < (join.length * 4).toNat ∧
      join.offset.toNat + (join.length * 4).toNat ≤ 2 ^ 32 ∧
      forceJoinRows G g = [⟨offset, source, (join.length * 4).toNat, .direct⟩] ∧
      (join.offset.toNat = offset ↔ g ≠ .lbp3) := by
  cases g with
  | unknown => cases h
  | lbp1 =>
    cases h
    exact ⟨_, _, _, _, rfl, rfl, rfl, by decide, by decide, by decide, rfl, by decide⟩
  | lbp2 =>
    cases h
    exact ⟨_, _, _, _, rfl, rfl, rfl, by decide, by decide, by decide, rfl, by decide⟩
  | lbp3 =>
    cases h
    exact ⟨_, _, _, _, rfl, rfl, rfl, by decide, by decide, by decide, rfl, by decide⟩
  | lbp3JP =>
    cases h
    exact ⟨_, _, _, _, rfl, rfl, rfl, by decide, by decide, by decide, rfl, by decide⟩

theorem definition_fieldsApart (h : definition g = some game) : FieldsApart game := by
  cases g with
  | unknown => cases h
  | lbp1 => cases h; decide
  | lbp2 => cases h; decide
  | lbp3 => cases h; decide
  | lbp3JP => cases h; decide

theorem definition_fields (h : definition g = some game) (hg : g ≠ .lbp3) :
    (∀ a ∈ urlFields g, a ∈ urlAddresses game) ∧
      ∀ a ∈ digestFields g, game.offsets.digestKey.toNat = a := by
  cases g with
  | unknown => cases h
  | lbp1 => cases h; decide
  | lbp2 => cases h; decide
  | lbp3 => exact absurd rfl hg
  | lbp3JP => cases h; decide

theorem url_row (G : Globals) (h : a ∈ urlFields g) :
    ⟨a, G.serverURL, lbpPs3ProdUrlLength, .indirect⟩ ∈ patches G g := by
  cases g <;> simp only [urlFields, List.mem_cons, List.not_mem_nil, or_false] at h <;>
    rcases h with rfl | rfl | rfl | rfl <;>
    simp [patches, lbp1Patches, lbp2Patches, lbp3Patches, lbp3JPPatches]

theorem digest_row (G : Globals) (h : a ∈ digestFields g) :
    ⟨a, G.serverDigest, lbpDigestLength, .indirect⟩ ∈ patches G g := by
  cases g <;> simp only [digestFields, List.mem_cons, List.not_mem_nil, or_false] at h <;>
    subst h <;> simp [patches, lbp1Patches, lbp2Patches, lbp3Patches, lbp3JPPatches]

theorem zipIdx_eq_iff {α : Type} {xs : List α} {i j : ℕ} (h : xs ≠ []) :
    xs.zipIdx i = xs.zipIdx j ↔ i = j := by
  refine ⟨fun he => ?_, fun he => he ▸ rfl⟩
  cases xs with
  | nil => exact absurd rfl h
  | cons x xs =>
    simp only [List.zipIdx_cons, List.cons.injEq, Prod.mk.injEq, true_and] at he
    exact he.1

theorem code_iff (setup : Setup G g f game server base sym w.mem)
    (hentries : patchEntries f game = .ok entries) :
    codeBytes entries = runtimeCode G g w.mem ↔ g ≠ .lbp3 := by
  obtain ⟨join, script, offset, source, hpatches, hjoin, hscript, ho, hpos, hroom, hrow, hiff⟩ :=
    definition_patches G setup.defined
  obtain ⟨syms, hsyms, hnamed⟩ := setup.symbol
  obtain ⟨text, htext, hloaded⟩ := setup.loaded
  have hsource : source = base + sym.value.toNat :=
    setup.source ⟨offset, source, (join.length * 4).toNat, .direct⟩ (by simp [hrow])
  obtain ⟨hin, hcode⟩ := codeBytes_patchEntries hpatches hjoin hscript hsyms
    (hnamed join (by simp [hpatches]) hjoin) htext hentries ho hroom
  -- empty code would agree at any offset
  have hne : (text.drop sym.value.toNat).take (join.length * 4).toNat ≠ [] := fun hnil => by
    have := hin.length text
    rw [hnil] at this
    simp only [List.length_nil] at this
    omega
  rw [hcode, runtimeCode, hrow, List.flatMap_singleton,
    delivered_code setup.placed hsource hloaded hin, zipIdx_eq_iff hne, hiff]

theorem load_field {q : GamePatch} (hq : q ∈ patches G g) (ht : q.type = .indirect)
    (hsource : load32 w.mem q.source ≠ 0) (hclear : Undisturbed w.mem (patches G g) q) :
    load (applyGamePatches (patches G g) w).mem q.offset q.size =
      load w.mem (load32 w.mem q.source) q.size := by
  have horigin : origin w.mem q = load32 w.mem q.source := by rw [origin, ht]
  rw [load_target (patches_spaced G g) (patches_offset_ne_zero G g) hq hclear, delivered, horigin,
    if_neg hsource]

theorem serverEntries_strings (hurl : server.httpsURL = "") (hdigest : server.customDigest ≠ "") :
    ∀ e ∈ serverEntries game server, e.type = cUtf8PatchType := by
  rw [serverEntries_eq hurl hdigest]
  intro e he
  rcases List.mem_append.mp he with hurl | hdigest
  · obtain ⟨o, -, rfl⟩ := List.mem_map.mp hurl
    rfl
  · rw [List.mem_singleton.mp hdigest]
    rfl

theorem not_isCode_of_string {e : PatchEntry} (h : e.type = cUtf8PatchType) : ¬ IsCode e :=
  fun hcode => absurd (hcode.1.symm.trans h) (by decide)

theorem appliedEntries_eq (game : Game) (entries : List PatchEntry) {servers : List Server}
    (hserver : server ∈ servers)
    (hnames : (servers.map Server.name).Nodup) (hurl : server.httpsURL = "")
    (hdigest : server.customDigest ≠ "") :
    appliedEntries (assign ∅ [(game.ppuHash, gamePatches game servers entries)]) game server =
      some (entries ++ [cUtf8Patch game.offsets.userAgent game.userAgent] ++
        serverEntries game server) ∧
    codeBytes (entries ++ [cUtf8Patch game.offsets.userAgent game.userAgent] ++
      serverEntries game server) = codeBytes entries := by
  constructor
  · rw [appliedEntries, lookup_game, Option.bind_eq_bind, Option.bind_some,
      lookup_gamePatches_combined, Option.bind_eq_bind, Option.bind_some,
      lookup_gamePatches_server hnames hserver]
    rfl
  · have hagent : ∀ e ∈ [cUtf8Patch game.offsets.userAgent game.userAgent], ¬ IsCode e := by
      intro e he
      rw [List.mem_singleton.mp he]
      exact not_isCode_of_string rfl
    rw [codeBytes_append, codeBytes_append, codeBytes_eq_nil hagent, codeBytes_eq_nil fun e he =>
      not_isCode_of_string (serverEntries_strings hurl hdigest e he), List.append_nil,
      List.append_nil]

theorem isCString_stored (alloc : Allocation) (entries : List PatchEntry) (st : Store)
    {s : List UInt8} (setup : Setup G g f game server base sym w.mem)
    (hst : st ∈ serverStores game (utf8 server.primaryURL) (utf8 server.customDigest))
    (hbytes : st.bytes = s ++ [0]) (hs : 0 ∉ s) :
    IsCString (stores w.mem (entryStores alloc (entries ++ serverEntries game server) fun _ => 0))
      st.addr s := by
  have hstrings : ∀ e ∈ serverEntries game server, e.type = cUtf8PatchType :=
    serverEntries_strings setup.httpsURL setup.customDigest
  have hstores : (serverEntries game server).map (fun e => ⟨e.address.toNat, utf8 e.value ++ [0]⟩) =
      serverStores game (utf8 server.primaryURL) (utf8 server.customDigest) := by
    rw [serverEntries_eq setup.httpsURL setup.customDigest]
    simp [serverStores, urlAddresses, cUtf8Patch]
  have hpairwise := serverStores_pairwise (definition_fieldsApart setup.defined) setup.urlFits
    setup.digestFits
  rw [entryStores_append hstrings, hstores, stores_append]
  refine .of_load ?_ hs
  have hload := load_stores_of_mem (m := stores w.mem (entryStores alloc entries fun _ => 0))
    hpairwise hst
  rw [hbytes] at hload
  simpa using hload

theorem url_iff (setup : Setup G g f game server base sym w.mem) (hg : g ≠ .lbp3)
    (ha : a ∈ urlFields g) : (∀ s,
      IsCString (stores w.mem
        (entryStores alloc (entries ++ serverEntries game server) fun _ => 0)) a s ↔
        IsCString (applyGamePatches (patches G g) w).mem a s) ↔
      ((utf8 server.primaryURL).length = lbpPs3ProdUrlLength →
        w.mem (a + lbpPs3ProdUrlLength) = 0) := by
  have haddress := (definition_fields setup.defined hg).1 a ha
  have hrow := url_row G ha
  have hstored := isCString_stored alloc entries ⟨a, utf8 server.primaryURL ++ [0]⟩ setup
    (List.mem_append_left _ (List.mem_map_of_mem haddress)) rfl setup.url.2.nonzero
  have hload := load_field hrow rfl setup.url.1 (setup.clear _ hrow (.inl rfl))
  rw [same_string_iff hstored setup.url.2 hload setup.urlFits,
    after_target (patches_spaced G g) hrow]

theorem digest_iff (setup : Setup G g f game server base sym w.mem) (hg : g ≠ .lbp3)
    (ha : a ∈ digestFields g) : (∀ s,
      IsCString (stores w.mem
        (entryStores alloc (entries ++ serverEntries game server) fun _ => 0)) a s ↔
        IsCString (applyGamePatches (patches G g) w).mem a s) ↔
      ((utf8 server.customDigest).length = lbpDigestLength → w.mem (a + lbpDigestLength) = 0) := by
  have hdigest := (definition_fields setup.defined hg).2 a ha
  have hrow := digest_row G ha
  have hstored := isCString_stored alloc entries ⟨a, utf8 server.customDigest ++ [0]⟩ setup
    (List.mem_append_right _ (by simp [hdigest])) rfl setup.digest.2.nonzero
  have hload := load_field hrow rfl setup.digest.1 (setup.clear _ hrow (.inr (.inl rfl)))
  rw [same_string_iff hstored setup.digest.2 hload setup.digestFits,
    after_target (patches_spaced G g) hrow]

end Games

/-- The patchers agree on all games but the third, where each string either leaves room in
its fields or a zero byte follows them. -/
theorem patchers_agree_iff (G : Globals) (g : GameNumber) (f : ElfFile) (game : Game)
    (server : Server) (base : ℕ) (sym : Symbol) (alloc : Allocation) (w : World)
    (setup : Setup G g f game server base sym w.mem) (servers : List Server)
    (hserver : server ∈ servers) (hnames : (servers.map Server.name).Nodup) (ps : PatchMap)
    (hmake : makePatches f game servers = .ok ps) :
    ∃ entries, appliedEntries ps game server = some entries ∧
      (Agree G g alloc entries w ↔ g ≠ .lbp3 ∧
        (∀ a ∈ urlFields g, (utf8 server.primaryURL).length = lbpPs3ProdUrlLength →
          w.mem (a + lbpPs3ProdUrlLength) = 0) ∧
        ∀ a ∈ digestFields g, (utf8 server.customDigest).length = lbpDigestLength →
          w.mem (a + lbpDigestLength) = 0) := by
  obtain ⟨entries, hentries, rfl⟩ := makePatches_ok_iff.mp hmake
  obtain ⟨happlied, hcode⟩ := appliedEntries_eq game entries hserver hnames
    setup.httpsURL setup.customDigest
  refine ⟨_, happlied, ?_⟩
  constructor
  · intro hagree
    have hg := (code_iff setup hentries).mp (hcode.symm.trans hagree.code)
    exact ⟨hg, fun a ha => (url_iff setup hg ha).mp (hagree.strings a (List.mem_append_left _ ha)),
      fun a ha => (digest_iff setup hg ha).mp (hagree.strings a (List.mem_append_right _ ha))⟩
  · intro conditions
    obtain ⟨hg, hurls, hdigests⟩ := conditions
    refine ⟨hcode.trans ((code_iff setup hentries).mpr hg), fun a ha => ?_⟩
    rcases List.mem_append.mp ha with ha | ha
    · exact (url_iff setup hg ha).mpr (hurls a ha)
    · exact (digest_iff setup hg ha).mpr (hdigests a ha)

-- A module whose force-join code is empty instructions.
def hookText (n : ℕ) : List UInt8 := List.replicate n 0 ++ [0x48, 0, 0, 2, 0x48, 0, 0, 2]

def hookElf (join script : String) (n : ℕ) : ElfFile :=
  ⟨some [⟨join, 0⟩, ⟨script, UInt64.ofNat n⟩], some (hookText n)⟩

def pluginGlobals : Globals := ⟨0x20000000, 0x20000004, 0x20000008, 0x2000000c, 0x20000010,
  0x20000014, 0x20000018, 0x20001000, 0x20001000, 0x20001000, 0x20001000, 0x20002000, 0x20002000,
  0x20002000, 0x20002000⟩

def pluginWorld (n : ℕ) : World where
  file _ := none
  logged _ := []
  handle _ := none
  incoming := []
  mem := stores (fun _ => 0) [⟨0x20001000, hookText n⟩, ⟨0x30000000, utf8 bonsai.primaryURL⟩,
    ⟨0x30000100, utf8 bonsai.customDigest⟩, ⟨0x20000008, be32 0x30000000⟩,
    ⟨0x2000000c, be32 0x30000100⟩]
  logFP := 0
  trace := []

def lbp1Elf : ElfFile := hookElf "LBP1ForceJoinPatch" "LBP1ScriptHook" 64
def lbp3Elf : ElfFile := hookElf "LBP3ForceJoinPatch" "LBP3ScriptHook" 112

def pluginAllocation : Allocation :=
  ⟨fun _ _ n => 0x40000000 + 4 * n, fun _ _ => [0x4c, 0, 0, 2]⟩

theorem pluginSetup {g : GameNumber} {f : ElfFile} {game : Game} {join : String} {n : ℕ}
    (h : g = .lbp1 ∧ f = lbp1Elf ∧ game = lbp1 ∧ join = "LBP1ForceJoinPatch" ∧ n = 64 ∨
      g = .lbp3 ∧ f = lbp3Elf ∧ game = lbp3 ∧ join = "LBP3ForceJoinPatch" ∧ n = 112) :
    Setup pluginGlobals g f game bonsai 0x20001000 ⟨join, 0⟩ (pluginWorld n).mem := by
  have hclear : ∀ q ∈ patches pluginGlobals g, ∀ p ∈ patches pluginGlobals g,
      Apart q.source 4 p.offset p.size ∧
        Apart (origin (pluginWorld n).mem q) q.size p.offset p.size := by
    obtain ⟨rfl, -, -, -, rfl⟩ | ⟨rfl, -, -, -, rfl⟩ := h <;> decide +kernel
  have hurl : load32 (pluginWorld n).mem 0x20000008 ≠ 0 ∧
      IsCString (pluginWorld n).mem (load32 (pluginWorld n).mem 0x20000008)
        (utf8 bonsai.primaryURL) := by
    obtain ⟨-, -, -, -, rfl⟩ | ⟨-, -, -, -, rfl⟩ := h <;>
      exact ⟨by decide +kernel, by decide +kernel, by decide +kernel, by decide +kernel⟩
  have hdigest : load32 (pluginWorld n).mem 0x2000000c ≠ 0 ∧
      IsCString (pluginWorld n).mem (load32 (pluginWorld n).mem 0x2000000c)
        (utf8 bonsai.customDigest) := by
    obtain ⟨-, -, -, -, rfl⟩ | ⟨-, -, -, -, rfl⟩ := h <;>
      exact ⟨by decide +kernel, by decide +kernel, by decide +kernel, by decide +kernel⟩
  refine ⟨?_, ?_, by decide, ?_, ?_, hurl, hdigest, rfl, by decide, by decide +kernel,
    by decide +kernel,
    fun q hq _ => ⟨fun _ p hp => (hclear q hq p hp).1, fun _ p hp => (hclear q hq p hp).2⟩⟩
  · obtain ⟨rfl, -, rfl, -⟩ | ⟨rfl, -, rfl, -⟩ := h <;> rfl
  · obtain ⟨-, rfl, rfl, rfl, -⟩ | ⟨-, rfl, rfl, rfl, -⟩ := h <;> exact ⟨_, rfl, by decide⟩
  · obtain ⟨-, rfl, -, -, rfl⟩ | ⟨-, rfl, -, -, rfl⟩ := h <;> exact ⟨_, rfl, by decide +kernel⟩
  · obtain ⟨rfl, -⟩ | ⟨rfl, -⟩ := h <;> simp [forceJoinRows, pluginGlobals]

theorem makePatches_ok (f : ElfFile) (game : Game)
    (h : (patchEntries f game).toOption.isSome) (servers : List Server) :
    ∃ ps, makePatches f game servers = .ok ps := by
  cases hentries : patchEntries f game with
  | error e => simp [hentries, Except.toOption] at h
  | ok entries => exact ⟨_, makePatches_ok_iff.mpr ⟨entries, hentries, rfl⟩⟩

theorem patchers_agree_lbp1 : ∃ ps, makePatches lbp1Elf lbp1 [bonsai] = .ok ps ∧
    ∃ entries, appliedEntries ps lbp1 bonsai = some entries ∧
      (Agree pluginGlobals .lbp1 pluginAllocation entries (pluginWorld 64) ↔
        .lbp1 ≠ GameNumber.lbp3 ∧
        (∀ a ∈ urlFields .lbp1, (utf8 bonsai.primaryURL).length = lbpPs3ProdUrlLength →
          (pluginWorld 64).mem (a + lbpPs3ProdUrlLength) = 0) ∧
        ∀ a ∈ digestFields .lbp1, (utf8 bonsai.customDigest).length = lbpDigestLength →
          (pluginWorld 64).mem (a + lbpDigestLength) = 0) := by
  obtain ⟨ps, hps⟩ := makePatches_ok lbp1Elf lbp1 (by decide +kernel) [bonsai]
  exact ⟨ps, hps, patchers_agree_iff _ _ _ _ _ _ _ _ _
    (pluginSetup (.inl ⟨rfl, rfl, rfl, rfl, rfl⟩)) [bonsai] (by simp) (by decide) ps hps⟩

/-- The definition of the third game puts the code at the second game's offset. -/
theorem patchers_disagree : ¬ ∀ (G : Globals) (g : GameNumber) (f : ElfFile) (game : Game)
    (server : Server) (base : ℕ) (sym : Symbol) (alloc : Allocation) (w : World),
    Setup G g f game server base sym w.mem → ∀ servers : List Server, server ∈ servers →
    (servers.map Server.name).Nodup → ∀ ps, makePatches f game servers = .ok ps →
    ∃ entries, appliedEntries ps game server = some entries ∧ Agree G g alloc entries w := by
  intro h
  have setup := pluginSetup (.inr ⟨rfl, rfl, rfl, rfl, rfl⟩)
  have hbonsai : bonsai ∈ servers := by simp [servers]
  obtain ⟨ps, hps⟩ := makePatches_ok lbp3Elf lbp3 (by decide +kernel) servers
  obtain ⟨entries, happlied, hagree⟩ := h _ _ _ _ _ _ _ pluginAllocation _ setup
    servers hbonsai (by decide) ps hps
  obtain ⟨code, hcode, rfl⟩ := makePatches_ok_iff.mp hps
  obtain ⟨happlied', heq⟩ := appliedEntries_eq lbp3 code hbonsai
    (by decide) rfl (by decide)
  obtain rfl := Option.some.inj (happlied.symm.trans happlied')
  exact (code_iff setup hcode).mp (heq.symm.trans hagree.code) rfl

end Patchwork.Agreement
