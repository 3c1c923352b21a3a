import Patchwork.MakePatches

/-!
# Applying entries

What the emulator writes for a list of entries: the words of a `be32` entry and the
string of a `cutf8` entry at their addresses. What it does with a `calloc` and with
the words that follow one is a parameter.
-/

namespace Patchwork.Emulator
open ByteMemory Elf Hex MakePatches

/-- What becomes of a `calloc` with an address and a count: where the `n`th word behind it is
put, and what is written at the address. -/
structure Allocation where
  slot : UInt32 → String → ℕ → ℕ
  branch : UInt32 → String → List UInt8

def utf8 (s : String) : List UInt8 := s.toUTF8.data.toList

def entryWord (e : PatchEntry) : List UInt8 := be32 ((ofHex e.value.toList).getD 0)

def IsCode (e : PatchEntry) : Prop := e.type = "be32" ∧ e.address ≠ 0

instance (e : PatchEntry) : Decidable (IsCode e) := inferInstanceAs (Decidable (_ ∧ _))

/-- The stores that the entries come to, with the places for words without an address. -/
def entryStores (alloc : Allocation) : List PatchEntry → (ℕ → ℕ) → List Store
  | [], _ => []
  | e :: es, slot =>
    if e.type = "calloc" then
      ⟨e.address.toNat, alloc.branch e.address e.value⟩ ::
        entryStores alloc es (alloc.slot e.address e.value)
    else if e.type = "be32" then
      if IsCode e then ⟨e.address.toNat, entryWord e⟩ :: entryStores alloc es slot
      else ⟨slot 0, entryWord e⟩ :: entryStores alloc es fun n => slot (n + 1)
    else if e.type = cUtf8PatchType then
      ⟨e.address.toNat, utf8 e.value ++ [0]⟩ :: entryStores alloc es slot
    else entryStores alloc es slot

def codeBytes (es : List PatchEntry) : List (UInt8 × ℕ) :=
  es.flatMap fun e => if IsCode e then (entryWord e).zipIdx e.address.toNat else []

section Entries
variable {alloc : Allocation} {es es' : List PatchEntry} {slot : ℕ → ℕ}

theorem codeBytes_append : codeBytes (es ++ es') = codeBytes es ++ codeBytes es' :=
  List.flatMap_append

theorem codeBytes_eq_nil (h : ∀ e ∈ es, ¬ IsCode e) : codeBytes es = [] :=
  List.flatMap_eq_nil_iff.mpr fun e he => if_neg (h e he)

theorem entryStores_strings (h : ∀ e ∈ es, e.type = cUtf8PatchType) :
    entryStores alloc es slot = es.map fun e => ⟨e.address.toNat, utf8 e.value ++ [0]⟩ := by
  induction es with
  | nil => rfl
  | cons e es ih =>
    obtain ⟨he, hes⟩ := List.forall_mem_cons.mp h
    have hcalloc : e.type ≠ "calloc" := by
      rw [he]
      decide
    have hbe32 : e.type ≠ "be32" := by
      rw [he]
      decide
    rw [entryStores, if_neg hcalloc, if_neg hbe32, if_pos he, ih hes, List.map_cons]

theorem entryWord_hexValue {address : UInt32} {bs : List UInt8} (h : bs.length = 4) :
    entryWord ⟨"be32", address, hexValue bs⟩ = bs := by
  have hchars : (hexValue bs).toList = '0' :: 'x' :: toHex bs := String.toList_ofList
  rw [entryWord, hchars, ofHex_toHex, Option.getD_some, be32_value h]

theorem codeEntries_not_isCode {o : UInt32} {code : List UInt8} :
    ∀ e ∈ codeEntries o code, ¬ IsCode e := by
  intro e he
  rcases List.mem_cons.mp he with rfl | hmem
  · exact fun h => absurd h.1 (show "calloc" ≠ "be32" by decide)
  · obtain ⟨i, -, rfl⟩ := List.mem_map.mp hmem
    exact fun h => h.2 rfl

theorem word_length {code : List UInt8} {i : ℕ} (h : i < code.length / 4) :
    (word code i).length = 4 := by
  simp only [word, List.length_take, List.length_drop]
  omega

theorem zipIdx_words {α : Type} {code : List α} {n a : ℕ} (h : 4 * n ≤ code.length) :
    (List.range n).flatMap (fun i => ((code.drop (4 * i)).take 4).zipIdx (a + 4 * i)) =
      (code.take (4 * n)).zipIdx a := by
  induction n with
  | zero => rfl
  | succ n ih =>
    have hlen : (code.take (4 * n)).length = 4 * n := by
      rw [List.length_take]
      omega
    rw [List.range_succ, List.flatMap_append, ih (by omega), Nat.mul_succ, List.take_add,
      List.zipIdx_append, hlen]
    simp

theorem codeBytes_overwriteEntries {o : UInt32} {code : List UInt8} (hmod : code.length % 4 = 0)
    (ho : 0 < o.toNat) (hroom : o.toNat + code.length ≤ 2 ^ 32) :
    codeBytes (overwriteEntries o code) = code.zipIdx o.toNat := by
  have hentry : ∀ i ∈ List.range (code.length / 4),
      (fun e => if IsCode e then (entryWord e).zipIdx e.address.toNat else [])
        (⟨"be32", o + UInt32.ofNat (4 * i), hexValue (word code i)⟩ : PatchEntry) =
      ((code.drop (4 * i)).take 4).zipIdx (o.toNat + 4 * i) := by
    intro i hi
    have hlt := List.mem_range.mp hi
    have haddress : (o + UInt32.ofNat (4 * i)).toNat = o.toNat + 4 * i := by
      rw [UInt32.toNat_add, UInt32.toNat_ofNat']
      omega
    have hcode : IsCode ⟨"be32", o + UInt32.ofNat (4 * i), hexValue (word code i)⟩ := by
      refine ⟨rfl, fun h0 => ?_⟩
      have := congrArg UInt32.toNat h0
      rw [haddress] at this
      simp only [UInt32.toNat_zero] at this
      omega
    dsimp only
    rw [if_pos hcode, entryWord_hexValue (word_length hlt), haddress, word]
  rw [codeBytes, overwriteEntries, List.flatMap_map, List.flatMap_congr hentry,
    zipIdx_words (by omega),
    List.take_of_length_le (by omega)]

end Entries

end Patchwork.Emulator
