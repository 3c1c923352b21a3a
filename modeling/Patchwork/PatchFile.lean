import Patchwork.Emulator
import Patchwork.Strconv
import Patchwork.YamlWeights

/-!
# The lines of the patch file

An entry is written as a flow sequence of its type, its address and its value. A
value that is no number is quoted, except where the address is zero: there it is
written as it is.
-/

namespace Patchwork.PatchFile
open Assignments ByteMemory Elf Emulator Hex MakePatches Strconv Yaml YamlWeights

def hexAddress (address : UInt32) : String :=
  String.ofList ('0' :: 'x' :: toHex (be32 address.toNat))

def marshalYAML (printable : Char → Bool) (e : PatchEntry) : String :=
  if e.address = 0 then "[" ++ e.type ++ ", 0x0, " ++ e.value ++ "]"
  else if parseFloat e.value.toList = false then
    "[" ++ e.type ++ ", " ++ hexAddress e.address ++ ", " ++
      String.ofList (quote printable e.value.toList) ++ "]"
  else "[" ++ e.type ++ ", " ++ hexAddress e.address ++ ", " ++ e.value ++ "]"

/-- A line read back: three scalars, the second a hexadecimal `uint32`. -/
def readEntry (line : String) : Option PatchEntry := do
  let ts ← flowSequence line.toList
  match ts with
  | [type, address, value] => do
    let a ← ofHex address.text
    if a < 2 ^ 32 then
      some ⟨String.ofList type.text, UInt32.ofNat a, String.ofList value.text⟩
    else none
  | _ => none

section Read
variable {printable : Char → Bool} {e : PatchEntry}

def addressText (address : UInt32) : List Char :=
  if address = 0 then "0x0".toList else (hexAddress address).toList

theorem value_be32 {v : ℕ} (h : v < 2 ^ 32) : value (be32 v) 0 = v := by
  have hlt : value (be32 v) 0 < 2 ^ 32 := by
    simp only [value, be32, List.foldl_cons, List.foldl_nil, UInt8.toNat_ofNat']
    omega
  have hbytes := be32_value (be32_length v)
  rw [← ofBe32_be32 hlt, hbytes, ofBe32_be32 h]

theorem ofHex_addressText (address : UInt32) :
    ofHex (addressText address) = some address.toNat := by
  unfold addressText
  split_ifs with h0
  · rw [h0]
    decide
  · rw [hexAddress, String.toList_ofList, ofHex_toHex, value_be32 address.toNat_lt]

theorem isFloatChar_toHex (bs : List UInt8) : ∀ c ∈ toHex bs, isFloatChar c = true := by
  have hdigit : ∀ d < 16, isFloatChar (Nat.digitChar d) = true := by decide
  intro c hc
  obtain ⟨b, -, hcb⟩ := List.mem_flatMap.mp hc
  have hb := b.toNat_lt
  simp only [byteDigits, List.mem_cons, List.not_mem_nil, or_false] at hcb
  rcases hcb with rfl | rfl <;> exact hdigit _ (by omega)

theorem isPlain_hex (bs : List UInt8) : IsPlain .flow [] ('0' :: 'x' :: toHex bs) := by
  refine isPlain_of_floatChars (by simp) ?_ (by simp)
  exact List.forall_mem_cons.mpr
    ⟨by decide, List.forall_mem_cons.mpr ⟨by decide, isFloatChar_toHex bs⟩⟩

theorem isPlain_addressText (address : UInt32) : IsPlain .flow [] (addressText address) := by
  unfold addressText
  split_ifs
  · decide
  · rw [hexAddress, String.toList_ofList]
    exact isPlain_hex _

def valueText (printable : Char → Bool) (e : PatchEntry) : List Char :=
  if e.address = 0 ∨ parseFloat e.value.toList = true then e.value.toList
  else quote printable e.value.toList

theorem marshalYAML_toList : (marshalYAML printable e).toList =
    '[' :: [',', ' '].intercalate
      [e.type.toList, addressText e.address, valueText printable e] ++ [']'] := by
  unfold marshalYAML addressText valueText
  by_cases h0 : e.address = 0
  · simp [h0]
  · by_cases hf : parseFloat e.value.toList = true
    · simp [h0, hf]
    · simp [h0, hf]

theorem readEntry_of_spells {line : String} {address : UInt32} {type value : Scalar}
    {typeText valueText : List Char}
    (hline : line.toList = '[' :: [',', ' '].intercalate
      [typeText, addressText address, valueText] ++ [']'])
    (htype : Spells typeText type) (hvalue : Spells valueText value) :
    readEntry line = some ⟨String.ofList type.text, address, String.ofList value.text⟩ := by
  have hspells : List.Forall₂ Spells [typeText, addressText address, valueText]
      [type, ⟨false, addressText address⟩, value] :=
    .cons htype (.cons (spells_of_plain (isPlain_addressText address)) (.cons hvalue .nil))
  rw [readEntry, hline, flowSequence_of_spells hspells]
  simp only [Option.bind_eq_bind, Option.bind_some, ofHex_addressText, if_pos address.toNat_lt,
    UInt32.ofNat_toNat]

theorem readEntry_marshalYAML (htype : IsPlain .flow [] e.type.toList)
    (hvalue : e.address = 0 → IsPlain .flow [] e.value.toList) :
    readEntry (marshalYAML printable e) = some e := by
  have hspells : ∃ quoted, Spells (valueText printable e) ⟨quoted, e.value.toList⟩ := by
    unfold valueText
    split_ifs with h
    · refine ⟨false, spells_of_plain ?_⟩
      exact h.elim hvalue parseFloat_plain
    · exact ⟨true, spells_quote _⟩
  obtain ⟨quoted, hquoted⟩ := hspells
  rw [readEntry_of_spells marshalYAML_toList (spells_of_plain htype) hquoted]
  simp

theorem mapM_marshalYAML {es : List PatchEntry}
    (h : ∀ e ∈ es, readEntry (marshalYAML printable e) = some e) :
    (es.map (marshalYAML printable)).mapM readEntry = some es := by
  induction es with
  | nil => rfl
  | cons e es ih =>
    obtain ⟨he, hes⟩ := List.forall_mem_cons.mp h
    rw [List.map_cons, List.mapM_cons, he, ih hes]
    rfl

end Read

section Code
variable {printable : Char → Bool} {o : UInt32} {p : List UInt8}

def wordStore (e : PatchEntry) : Store := ⟨e.address.toNat, entryWord e⟩

theorem flatMap_words {n : ℕ} (h : 4 * n ≤ p.length) :
    (List.range n).flatMap (word p) = p.take (4 * n) := by
  induction n with
  | zero => rfl
  | succ n ih =>
    rw [List.range_succ, List.flatMap_append, ih (by omega), Nat.mul_succ, List.take_add]
    simp [word]

theorem stores_words (m : Mem) (a : ℕ) {n : ℕ} (h : 4 * n ≤ p.length) :
    stores m ((List.range n).map fun i => ⟨a + 4 * i, word p i⟩) = store m a (p.take (4 * n)) := by
  induction n with
  | zero => simp
  | succ n ih =>
    have hlen : (p.take (4 * n)).length = 4 * n := by
      rw [List.length_take]
      omega
    have happend := store_append m (a := a) (p.take (4 * n)) (word p n)
    rw [hlen] at happend
    rw [List.range_succ, List.map_append, stores_append, ih (by omega), Nat.mul_succ,
      List.take_add]
    exact happend

theorem readEntry_be32 (address : UInt32) (bs : List UInt8) :
    readEntry (marshalYAML printable ⟨"be32", address, hexValue bs⟩) =
      some ⟨"be32", address, hexValue bs⟩ := by
  refine readEntry_marshalYAML (show IsPlain .flow [] "be32".toList by decide) fun _ => ?_
  rw [hexValue, String.toList_ofList]
  exact isPlain_hex bs

theorem readEntry_calloc (n : ℕ) :
    readEntry (marshalYAML printable ⟨"calloc", o, toString n⟩) =
      some ⟨"calloc", o, toString n⟩ := by
  refine readEntry_marshalYAML (show IsPlain .flow [] "calloc".toList by decide) fun _ => ?_
  have hdigits : (toString n).toList = Nat.toDigits 10 n := Nat.toList_repr
  have hdigit {c : Char} (h : c ∈ Nat.toDigits 10 n) : c.isDigit = true :=
    Nat.isDigit_of_mem_toDigits (by decide) (by decide) h
  change IsPlain .flow [] (toString n).toList
  rw [hdigits]
  refine isPlain_of_floatChars Nat.toDigits_ne_nil (fun c hc => ?_) fun heq => ?_
  · exact isFloatChar_iff.mpr (.inr (.inr (.inl (hdigit hc))))
  · have hmem : '-' ∈ Nat.toDigits 10 n := heq ▸ List.mem_singleton_self _
    exact absurd (hdigit hmem) (by decide)

theorem overwrite_stores (m : Mem) (hmod : p.length % 4 = 0)
    (hroom : o.toNat + p.length ≤ 2 ^ 32) :
    stores m ((overwriteEntries o p).map wordStore) = store m o.toNat p := by
  have hentry : (overwriteEntries o p).map wordStore =
      (List.range (p.length / 4)).map fun i => ⟨o.toNat + 4 * i, word p i⟩ := by
    rw [overwriteEntries, List.map_map]
    refine List.map_congr_left fun i hi => ?_
    have hlt := List.mem_range.mp hi
    have haddress : (o + UInt32.ofNat (4 * i)).toNat = o.toNat + 4 * i := by
      rw [UInt32.toNat_add, UInt32.toNat_ofNat']
      omega
    simp only [Function.comp_apply, wordStore, haddress, entryWord_hexValue (word_length hlt)]
  rw [hentry, stores_words m _ (by omega), List.take_of_length_le (by omega)]

theorem code_words (hmod : p.length % 4 = 0) :
    ((List.range (p.length / 4)).map fun i =>
      (⟨"be32", 0, hexValue (word p i)⟩ : PatchEntry)).flatMap entryWord = p := by
  rw [List.flatMap_map]
  have hword : ∀ i ∈ List.range (p.length / 4),
      entryWord ⟨"be32", 0, hexValue (word p i)⟩ = word p i := fun i hi =>
    entryWord_hexValue (word_length (List.mem_range.mp hi))
  rw [List.flatMap_congr hword, flatMap_words (by omega), List.take_of_length_le (by omega)]

/-- The lines of an overwrite, read back, write the code and nothing else; those of a hook
are a `calloc` with the number of words behind it, and the words are the code. -/
theorem code_survives (printable : Char → Bool) (hmod : p.length % 4 = 0)
    (hroom : o.toNat + p.length ≤ 2 ^ 32) :
    (∃ es, makeOverwritePatch o p = .ok es ∧
      ∃ es', (es.map (marshalYAML printable)).mapM readEntry = some es' ∧
        (∀ e ∈ es', e.type = "be32") ∧
        ∀ m, stores m (es'.map wordStore) = store m o.toNat p) ∧
    ∃ es, makeCodePatch o p = .ok es ∧
      ∃ count words, (es.map (marshalYAML printable)).mapM readEntry =
          some (⟨"calloc", o, count⟩ :: words) ∧
        (∀ e ∈ words, e.type = "be32") ∧
        Nat.ofDigitChars 10 count.toList 0 = words.length ∧
        words.flatMap entryWord = p := by
  constructor
  · refine ⟨overwriteEntries o p, if_neg (not_not_intro hmod), overwriteEntries o p,
      mapM_marshalYAML fun e he => ?_, fun e he => ?_, fun m => overwrite_stores m hmod hroom⟩
    all_goals obtain ⟨i, -, rfl⟩ := List.mem_map.mp he
    · exact readEntry_be32 _ _
    · rfl
  · refine ⟨codeEntries o p, if_neg (not_not_intro hmod), toString (p.length / 4),
      (List.range (p.length / 4)).map fun i => ⟨"be32", 0, hexValue (word p i)⟩,
      mapM_marshalYAML fun e he => ?_, fun e he => ?_, ?_, code_words hmod⟩
    · rcases List.mem_cons.mp he with rfl | hmem
      · exact readEntry_calloc _
      · obtain ⟨i, -, rfl⟩ := List.mem_map.mp hmem
        exact readEntry_be32 _ _
    · obtain ⟨i, -, rfl⟩ := List.mem_map.mp he
      rfl
    · have hdigits : (toString (p.length / 4)).toList = Nat.toDigits 10 (p.length / 4) :=
        Nat.toList_repr
      rw [hdigits, Nat.ofDigitChars_toDigits (by decide) (by decide), List.length_map,
        List.length_range]

end Code

theorem code_survives_nops :
    ∃ es, makeOverwritePatch 0 [0x60, 0, 0, 0, 0x4e, 0x80, 0, 0x20] = .ok es ∧
      ∃ es', (es.map (marshalYAML fun _ => true)).mapM readEntry = some es' ∧
        (∀ e ∈ es', e.type = "be32") ∧
        ∀ m, stores m (es'.map wordStore) = store m 0 [0x60, 0, 0, 0, 0x4e, 0x80, 0, 0x20] :=
  (code_survives (o := 0) (p := [0x60, 0, 0, 0, 0x4e, 0x80, 0, 0x20]) (fun _ => true) (by decide)
    (by decide)).1

section Strings
variable {address : UInt32} {value : String}

theorem readEntry_eq_some {line : String} {e : PatchEntry} (h : readEntry line = some e) :
    ∃ type address value, flowSequence line.toList = some [type, address, value] ∧
      ofHex address.text = some e.address.toNat ∧ type.text = e.type.toList ∧
      value.text = e.value.toList := by
  obtain ⟨ts, hts, h⟩ := Option.bind_eq_some_iff.mp h
  split at h
  · rename_i type address value
    obtain ⟨a, ha, h⟩ := Option.bind_eq_some_iff.mp h
    split_ifs at h with hlt
    cases h
    refine ⟨type, address, value, hts, ?_, by simp, by simp⟩
    rw [ha, UInt32.toNat_ofNat', Nat.mod_eq_of_lt hlt]
  · cases h

theorem weigh_of_ofHex {s : List Char} {a : ℕ} (h : ofHex s = some a) : 1 ≤ weigh s := by
  unfold ofHex at h
  split at h
  · have hx : weight 'x' = 1 := by decide
    simp only [weigh_cons, hx]
    omega
  · cases h

theorem readEntry_raw_iff (printable : Char → Bool) :
    readEntry (marshalYAML printable (cUtf8Patch 0 value)) = some (cUtf8Patch 0 value) ↔
      IsPlain .flow [] value.toList := by
  refine ⟨fun h => ?_, fun h => readEntry_marshalYAML
    (show IsPlain .flow [] cUtf8PatchType.toList by decide) fun _ => h⟩
  obtain ⟨t₁, t₂, t₃, hseq, haddress, htype, hvalue⟩ := readEntry_eq_some h
  obtain ⟨-, hitems⟩ := flowSequence_cost hseq
  have hsource : weigh (marshalYAML printable (cUtf8Patch 0 value)).toList =
      weigh cUtf8PatchType.toList + (1 + weigh value.toList) := by
    rw [marshalYAML_toList]
    simp only [List.cons_append, weigh_cons, weigh_append, List.intercalate_cons_cons,
      List.intercalate_singleton, cUtf8Patch, addressText, valueText, if_true, true_or]
    have hmarks : weight '[' = 0 ∧ weight ',' = 0 ∧ weight ' ' = 0 ∧ weight ']' = 0 ∧
        weigh "0x0".toList = 1 := by decide
    obtain ⟨h1, h2, h3, h4, h5⟩ := hmarks
    simp only [h1, h2, h3, h4, h5, weigh_nil]
    omega
  -- nothing is lost on the way, so no scalar was quoted
  have hall : ∀ t ∈ [t₁, t₂, t₃], IsItem t := by
    refine hitems.resolve_right fun hlt => ?_
    have := weigh_of_ofHex haddress
    rw [hsource] at hlt
    simp only [weighScalars_cons, weighScalars_nil, htype, hvalue, cUtf8Patch] at hlt
    omega
  have hplain := (hall t₃ (by simp)).2
  rwa [hvalue] at hplain

/-- A `cutf8` entry is read back as it was if its address is not zero or its value is a plain
scalar. -/
theorem cutf8_survives_iff (printable : Char → Bool) (address : UInt32) (value : String) :
    readEntry (marshalYAML printable (cUtf8Patch address value)) =
      some (cUtf8Patch address value) ↔ address ≠ 0 ∨ IsPlain .flow [] value.toList := by
  by_cases h0 : address = 0
  · subst h0
    rw [readEntry_raw_iff]
    simp
  · refine iff_of_true ?_ (.inl h0)
    exact readEntry_marshalYAML (show IsPlain .flow [] cUtf8PatchType.toList by decide)
      fun h => absurd h h0

end Strings

def bareGame : Game where
  offsets := ⟨0, 0, 0, 0, 0, 0, 0⟩
  userAgent := "Patchwork, LBP1"
  name := "LBP1"
  gameVersions := []
  titleIDs := []
  ppuHash := "PPU"
  patches := []

theorem cutf8_not_survives :
    ∃ patches, makePatches ⟨some [], none⟩ bareGame [] = .ok patches ∧
      ∃ ps combined, patches.lookup bareGame.ppuHash = some ps ∧
        ps.lookup combinedName = some combined ∧
        ∃ e ∈ combined.patch, e.type = cUtf8PatchType ∧
          readEntry (marshalYAML (fun _ => true) e) ≠ some e := by
  refine ⟨_, makePatches_ok_iff.mpr ⟨[], rfl, rfl⟩, _, _, lookup_game,
    lookup_gamePatches_combined, _, List.mem_singleton_self _, rfl, fun h => ?_⟩
  exact absurd ((readEntry_raw_iff _).mp h) (by decide)

end Patchwork.PatchFile
