import Patchwork.MakePatches
import Patchwork.YamlMappings

/-!
# The games of the patch file

The maps are written by hand, one line for each key, with the names between quotation
marks and nothing escaped.
-/

namespace Patchwork.GamesFile
open Assignments MakePatches Yaml YamlWeights YamlMappings

abbrev Listing := List (String × List (String × List String))

def gamesOf (l : Listing) : PatchGames := assign ∅ (l.map fun g => (g.1, assign ∅ g.2))

def Listed (l : Listing) : Prop := (l.map Prod.fst).Nodup ∧ ∀ g ∈ l, (g.2.map Prod.fst).Nodup

/-- An order in which the loops may run over the maps: every key comes once. -/
def Iterates (l : Listing) (e : PatchGames) : Prop := Listed l ∧ gamesOf l = e

def writeTitle (sb : String) (t : String × List String) : String :=
  sb ++ ("  " ++ t.1 ++ ": [" ++ ", ".intercalate t.2 ++ "]\n")

def writeGame (sb : String) (g : String × List (String × List String)) : String :=
  g.2.foldl writeTitle (sb ++ ("\"" ++ g.1 ++ "\":\n"))

def marshalYAML (l : Listing) : String := l.foldl writeGame ""

def listing (ms : Nested) : Listing :=
  ms.map fun m => (String.ofList m.1.text,
    m.2.map fun t => (String.ofList t.1.text, t.2.map fun item => String.ofList item.text))

def readGames (text : String) : Option PatchGames :=
  (mapping text.toList).map fun ms => gamesOf (listing ms)

/-- Every name can stand between quotation marks as it is, and every other text in the file as
it is; no map is empty. -/
def Safe (e : PatchGames) : Prop :=
  e ≠ ∅ ∧ ∀ game titles, e.lookup game = some titles →
    IsQuotedKey game.toList ∧ titles ≠ ∅ ∧
      ∀ title versions, titles.lookup title = some versions →
        IsKey title.toList ∧ ∀ v ∈ versions, IsPlain .flow [] v.toList

section Text
variable {l : Listing} {e : PatchGames}

def source (l : Listing) : List Node :=
  l.map fun g => (g.1.toList, g.2.map fun t => (t.1.toList, t.2.map String.toList))

theorem titles_toList (ts : List (String × List String)) (sb : String) :
    (ts.foldl writeTitle sb).toList =
      sb.toList ++ sheet (ts.map fun t => sequenceLine t.1.toList (t.2.map String.toList)) := by
  induction ts generalizing sb with
  | nil => simp [sheet]
  | cons t ts ih =>
    rw [List.foldl_cons, ih, writeTitle]
    simp [sheet, sequenceLine, String.toList_intercalate]

theorem marshalYAML_toList (l : Listing) :
    (marshalYAML l).toList = sheet (written (source l)) := by
  have hfold (sb : String) :
      (l.foldl writeGame sb).toList = sb.toList ++ sheet (written (source l)) := by
    induction l generalizing sb with
    | nil => simp [source, written, sheet]
    | cons g l ih =>
      rw [List.foldl_cons, ih, writeGame, titles_toList]
      simp [source, written, sheet, nodeLines, keyLine, quoteMark, Function.comp_def]
  exact hfold ""

end Text

section Orders
variable {l : Listing} {e : PatchGames} {game : String} {ts : List (String × List String)}

theorem fst_games (l : Listing) :
    (l.map fun g => (g.1, (assign ∅ g.2 : Map String (List String)))).map Prod.fst =
      l.map Prod.fst := by
  rw [List.map_map]
  rfl

theorem Iterates.lookup (h : Iterates l e) (hg : (game, ts) ∈ l) :
    e.lookup game = some (assign ∅ ts) := by
  obtain ⟨hlisted, rfl⟩ := h
  refine lookup_assign_of_mem ?_ (List.mem_map_of_mem hg)
  rw [fst_games]
  exact hlisted.1

theorem Iterates.mem {titles : Map String (List String)} (h : Iterates l e)
    (he : e.lookup game = some titles) : ∃ ts, (game, ts) ∈ l ∧ assign ∅ ts = titles := by
  obtain ⟨hlisted, rfl⟩ := h
  have hmem := mem_of_lookup_assign he (by rw [fst_games]; exact hlisted.1)
  obtain ⟨⟨game', ts⟩, hg, heq⟩ := List.mem_map.mp hmem
  cases heq
  exact ⟨ts, hg, rfl⟩

theorem exists_iterates (e : PatchGames) : ∃ l, Iterates l e := by
  obtain ⟨kvs, hnodup, rfl⟩ := exists_assign e
  choose pairs hpairs hassign using fun titles : Map String (List String) => exists_assign titles
  refine ⟨kvs.map fun kv => (kv.1, pairs kv.2), ⟨?_, ?_⟩, ?_⟩
  · rw [List.map_map]
    exact hnodup
  · intro g hg
    obtain ⟨kv, -, rfl⟩ := List.mem_map.mp hg
    exact hpairs kv.2
  · simp [gamesOf, Function.comp_def, hassign]

def titlesWeight (titles : Map String (List String)) : ℕ :=
  (titles.entries.map fun t => weigh t.1.toList + (t.2.map fun v => weigh v.toList).sum).sum

def gamesWeight (e : PatchGames) : ℕ :=
  (e.entries.map fun g => weigh g.1.toList + titlesWeight g.2).sum

theorem Iterates.weight (h : Iterates l e) :
    ((source l).map nodeWeight).sum = gamesWeight e := by
  obtain ⟨hlisted, rfl⟩ := h
  have hkeys : ((l.map fun g => (g.1, (assign ∅ g.2 : Map String (List String)))).map
      Prod.fst).Nodup := by
    rw [fst_games]
    exact hlisted.1
  have hgames := sum_assign hkeys fun game titles => weigh game.toList + titlesWeight titles
  rw [gamesWeight, gamesOf, hgames, source, List.map_map, List.map_map]
  refine congrArg List.sum (List.map_congr_left fun g hg => ?_)
  have htitles := sum_assign (hlisted.2 g hg) fun title versions =>
    weigh title.toList + (versions.map fun v => weigh v.toList).sum
  simp only [nodeWeight, titlesWeight, htitles, List.map_map, Function.comp_def]

theorem Iterates.length (h : Iterates l e) : l.length = e.keys.card := by
  obtain ⟨hlisted, rfl⟩ := h
  rw [gamesOf, card_keys_assign]
  · simp
  · rw [fst_games]
    exact hlisted.1
  · exact fun _ _ => Finmap.notMem_empty

theorem iterates_listing {ms : Nested} (h : Unique ms) :
    Iterates (listing ms) (gamesOf (listing ms)) := by
  refine ⟨⟨?_, fun g hg => ?_⟩, rfl⟩
  · have hfst : (listing ms).map Prod.fst = (ms.map fun m => m.1.text).map String.ofList := by
      simp [listing, Function.comp_def]
    rw [hfst]
    exact h.1.map fun _ _ => String.ofList_injective
  · obtain ⟨m, hm, rfl⟩ := List.mem_map.mp hg
    have hfst : (m.2.map fun t => (String.ofList t.1.text,
        t.2.map fun item => String.ofList item.text)).map Prod.fst =
        (m.2.map fun t => t.1.text).map String.ofList := by
      simp [Function.comp_def]
    rw [hfst]
    exact (h.2 m hm).map fun _ _ => String.ofList_injective

end Orders

section Read
variable {l : Listing} {e : PatchGames}

theorem Safe.writable (h : Safe e) (hl : Iterates l e) : ∀ m ∈ source l, Writable m := by
  intro m hm
  obtain ⟨g, hg, rfl⟩ := List.mem_map.mp hm
  obtain ⟨hkey, hne, htitles⟩ := h.2 _ _ (hl.lookup hg)
  refine ⟨hkey, fun hnil => hne ?_, fun t ht => ?_⟩
  · rw [List.map_eq_nil_iff.mp hnil]
    rfl
  · obtain ⟨t', ht', rfl⟩ := List.mem_map.mp ht
    obtain ⟨htitle, hvs⟩ := htitles _ _ (lookup_assign_of_mem (hl.1.2 g hg) ht')
    exact ⟨htitle, List.forall_mem_map.mpr hvs⟩

theorem listing_source (l : Listing) : listing ((source l).map nodeOf) = l := by
  simp [listing, source, nodeOf, pairOf, Function.comp_def]

theorem Safe.readGames (h : Safe e) (hl : Iterates l e) : readGames (marshalYAML l) = some e := by
  have hne : source l ≠ [] := by
    intro hnil
    have hempty := List.map_eq_nil_iff.mp hnil
    subst hempty
    exact h.1 hl.2.symm
  have hkeys : ((source l).map Prod.fst).Nodup := by
    have hfst : (source l).map Prod.fst = (l.map Prod.fst).map String.toList := by
      simp [source, Function.comp_def]
    rw [hfst]
    exact hl.1.1.map fun _ _ => String.toList_injective
  have hpairs : ∀ m ∈ source l, (m.2.map Prod.fst).Nodup := by
    intro m hm
    obtain ⟨g, hg, rfl⟩ := List.mem_map.mp hm
    have hfst : (g.2.map fun t => (t.1.toList, t.2.map String.toList)).map Prod.fst =
        (g.2.map Prod.fst).map String.toList := by
      simp [Function.comp_def]
    rw [hfst]
    exact (hl.1.2 g hg).map fun _ _ => String.toList_injective
  rw [GamesFile.readGames, marshalYAML_toList,
    mapping_written hne (h.writable hl) hkeys hpairs, Option.map_some, listing_source, hl.2]

theorem listing_weight (ms : Nested) :
    ((source (listing ms)).map nodeWeight).sum = nestedWeight ms := by
  simp only [source, listing, nestedWeight, nodeWeight, List.map_map, Function.comp_def,
    String.toList_ofList]
  rfl

theorem node_of_lookup {ms : Nested} {game : String} {titles : Map String (List String)}
    (hread : Iterates (listing ms) e) (hclean : ∀ m ∈ ms, CleanNode m ∧ m.2 ≠ [])
    (h : e.lookup game = some titles) :
    (∃ m ∈ ms, m.1.text = game.toList) ∧ titles ≠ ∅ ∧
      ∀ title versions, titles.lookup title = some versions →
        IsKey title.toList ∧ ∀ v ∈ versions, IsPlain .flow [] v.toList := by
  obtain ⟨ts, hg, rfl⟩ := hread.mem h
  have hnodup := hread.1.2 _ hg
  obtain ⟨m, hm, heq⟩ := List.mem_map.mp hg
  cases heq
  obtain ⟨hnode, hne⟩ := hclean m hm
  refine ⟨⟨m, hm, by simp⟩, ?_, fun title versions htitle => ?_⟩
  · obtain ⟨t, ts, hts⟩ := List.exists_cons_of_ne_nil hne
    intro hempty
    have hlookup := lookup_assign_of_mem (m := ∅) hnodup
      (List.mem_map_of_mem (hts ▸ List.mem_cons_self : t ∈ m.2))
    rw [hempty, Finmap.lookup_empty] at hlookup
    cases hlookup
  · obtain ⟨t, ht, heq⟩ := List.mem_map.mp (mem_of_lookup_assign htitle hnodup)
    cases heq
    obtain ⟨hkey, hitems⟩ := hnode.pairs t ht
    rw [String.toList_ofList]
    refine ⟨hkey, List.forall_mem_map.mpr fun item hitem => ?_⟩
    rw [String.toList_ofList]
    exact (hitems item hitem).2

theorem safe_of_readGames (hl : Iterates l e) (h : readGames (marshalYAML l) = some e) :
    Safe e := by
  obtain ⟨ms, hms, he⟩ := Option.map_eq_some_iff.mp h
  rw [marshalYAML_toList] at hms
  have hread : Iterates (listing ms) e := he ▸ iterates_listing (unique_of_mapping hms)
  have hweight : nestedWeight ms = ((source l).map nodeWeight).sum := by
    rw [← listing_weight, hread.weight, hl.weight]
  have hlength : ms.length = (source l).length := by
    have hms' : (listing ms).length = ms.length := List.length_map _
    rw [← hms', hread.length, ← hl.length, source, List.length_map]
  -- nothing is lost on the way, so every scalar stands in the text as it is
  obtain ⟨hne, hclean, hquoted⟩ := clean_of_mapping hms hweight hlength
  have hbreak : ∀ m ∈ source l, Unbroken m := by
    intro m hm
    obtain ⟨g, hg, rfl⟩ := List.mem_map.mp hm
    obtain ⟨⟨m', hm', htext⟩, -, htitles⟩ := node_of_lookup hread hclean (hl.lookup hg)
    constructor
    · rw [← htext]
      cases hq : m'.1.quoted with
      | false => exact break_notMem_of_isKey ((hclean m' hm').1.plain hq)
      | true => exact break_notMem_of_isQuotedKey ((hclean m' hm').1.quoted hq)
    · intro t ht
      obtain ⟨t', ht', rfl⟩ := List.mem_map.mp ht
      obtain ⟨hkey, hvs⟩ := htitles _ _ (lookup_assign_of_mem (hl.1.2 g hg) ht')
      exact ⟨break_notMem_of_isKey hkey,
        List.forall_mem_map.mpr fun v hv => break_notMem_of_isPlain (hvs v hv)⟩
  constructor
  · rintro rfl
    obtain ⟨m, ms, rfl⟩ := List.exists_cons_of_ne_nil hne
    have hlookup := hread.lookup List.mem_cons_self
    rw [Finmap.lookup_empty] at hlookup
    cases hlookup
  · intro game titles hlookup
    obtain ⟨⟨m, hm, htext⟩, htitles⟩ := node_of_lookup hread hclean hlookup
    refine ⟨?_, htitles⟩
    rw [← htext]
    exact (hclean m hm).1.quoted (hquoted hbreak m hm)

/-- The games are read back in every order of the loops if and only if they are safe. -/
theorem games_survive_iff (e : PatchGames) :
    (∀ l, Iterates l e → readGames (marshalYAML l) = some e) ↔ Safe e := by
  refine ⟨fun h => ?_, fun h l hl => h.readGames hl⟩
  obtain ⟨l, hl⟩ := exists_iterates e
  exact safe_of_readGames hl (h l hl)

end Read

def markedGames : Listing := [("LittleBigPlanet \"GOTY\"", [("BCES00141", ["01.00"])])]

theorem games_not_survive :
    Iterates markedGames (gamesOf markedGames) ∧
      readGames (marshalYAML markedGames) ≠ some (gamesOf markedGames) := by
  have hlisted : Listed markedGames := by
    refine ⟨List.nodup_singleton _, fun g hg => ?_⟩
    rw [List.mem_singleton.mp hg]
    exact List.nodup_singleton _
  have hl : Iterates markedGames (gamesOf markedGames) := ⟨hlisted, rfl⟩
  refine ⟨hl, fun hread => ?_⟩
  have hkey := ((safe_of_readGames hl hread).2 _ _ (hl.lookup List.mem_cons_self)).1
  exact absurd hkey (by decide)

end Patchwork.GamesFile
