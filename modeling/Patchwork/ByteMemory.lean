import Mathlib.Algebra.Group.Nat.Defs
import Mathlib.Data.List.Basic
import Mathlib.Data.List.TakeWhile
import Mathlib.Order.CompletePartialOrder
import Mathlib.Order.Interval.Set.Disjoint
import Mathlib.Tactic.Common
import Patchwork.BoundedLoop

/-!
# Flat byte memory

Memory gives every address its byte. Ranges are read and written whole, C
strings end at their first zero byte, and a sequence of stores to ranges that
lie apart leaves each range as it was stored, whatever the order.
-/

namespace Patchwork.ByteMemory
open BoundedLoop

abbrev Mem := ℕ → UInt8

def load (m : Mem) (a n : ℕ) : List UInt8 := (List.range n).map fun i => m (a + i)

def store (m : Mem) (a : ℕ) (bs : List UInt8) : Mem := fun x =>
  if a ≤ x then (bs[x - a]?).getD (m x) else m x

/-- `memcpy`: the bytes are taken before any of them is stored. -/
def copy (m : Mem) (target source n : ℕ) : Mem := store m target (load m source n)

def Apart (a n b k : ℕ) : Prop := a + n ≤ b ∨ b + k ≤ a

instance (a n b k : ℕ) : Decidable (Apart a n b k) := inferInstanceAs (Decidable (_ ∨ _))

theorem Apart.symm {a n b k : ℕ} (h : Apart a n b k) : Apart b k a n := Or.symm h

theorem Apart.mono {a n b k n' k' : ℕ} (h : Apart a n b k) (hn : n' ≤ n) (hk : k' ≤ k) :
    Apart a n' b k' := by
  unfold Apart at *
  omega

variable (m m' : Mem) {a b n k : ℕ} (bs : List UInt8)

@[simp] theorem load_length : (load m a n).length = n := by simp [load]

@[simp] theorem load_getElem {i : ℕ} (h : i < (load m a n).length) :
    (load m a n)[i] = m (a + i) := by
  simp [load]

theorem load_congr (h : ∀ i < n, m (a + i) = m' (a + i)) : load m a n = load m' a n := by
  refine List.map_congr_left fun i hi => h i (List.mem_range.mp hi)

theorem load_eq_iff : load m a n = load m' a n ↔ ∀ i < n, m (a + i) = m' (a + i) := by
  refine ⟨fun h i hi => ?_, load_congr m m'⟩
  have hg := congrArg (·[i]?) h
  simpa [hi] using hg

theorem load_add : load m a (n + k) = load m a n ++ load m (a + n) k := by
  simp [load, List.range_add, Nat.add_assoc, Function.comp_def]

theorem load_eq_append (xs ys : List UInt8)
    (h : load m a (xs.length + ys.length) = xs ++ ys) :
    load m a xs.length = xs ∧ load m (a + xs.length) ys.length = ys := by
  rw [load_add] at h
  exact List.append_inj h (by simp)

theorem load_take (h : k ≤ n) : (load m a n).take k = load m a k := by
  obtain ⟨d, rfl⟩ := Nat.exists_eq_add_of_le h
  rw [load_add]
  simp

theorem load_drop (h : k ≤ n) : (load m a n).drop k = load m (a + k) (n - k) := by
  obtain ⟨d, rfl⟩ := Nat.exists_eq_add_of_le h
  rw [load_add, List.drop_left' (load_length m), Nat.add_sub_cancel_left]

theorem store_inside {i : ℕ} (h : i < bs.length) : store m a bs (a + i) = bs[i] := by
  simp [store, h]

theorem store_head (b : UInt8) : store m a (b :: bs) a = b := by
  simp [store]

theorem store_last (b : UInt8) : store m a (bs ++ [b]) (a + bs.length) = b := by
  simp [store]

theorem store_outside {x : ℕ} (h : x < a ∨ a + bs.length ≤ x) : store m a bs x = m x := by
  unfold store
  split_ifs with hx
  · have : bs[x - a]? = none := by simp; omega
    simp [this]
  · rfl

@[simp] theorem store_nil : store m a [] = m := by
  funext x
  simp [store]

@[simp] theorem load_store_same : load (store m a bs) a bs.length = bs := by
  refine List.ext_getElem (by simp) fun i _ hi => ?_
  simp [load, store_inside m bs hi]

theorem load_store_apart (h : Apart a n b bs.length) : load (store m b bs) a n = load m a n :=
  load_congr _ _ fun i hi => store_outside m bs (by unfold Apart at h; omega)

theorem load_store_congr (h : load m b n = load m' b n) :
    load (store m a bs) b n = load (store m' a bs) b n := by
  refine load_congr _ _ fun i hi => ?_
  simp only [store, (load_eq_iff m m').mp h i hi]

theorem store_store {bs' : List UInt8} (h : bs.length ≤ bs'.length) :
    store (store m a bs) a bs' = store m a bs' := by
  funext x
  by_cases hx : x < a ∨ a + bs'.length ≤ x
  · rw [store_outside _ _ hx, store_outside _ _ hx, store_outside _ _ (by omega)]
  · obtain ⟨i, rfl⟩ := Nat.exists_eq_add_of_le (show a ≤ x by omega)
    rw [store_inside _ _ (by omega), store_inside _ _ (by omega)]

theorem store_append (bs' : List UInt8) :
    store (store m a bs) (a + bs.length) bs' = store m a (bs ++ bs') := by
  funext x
  rcases Nat.lt_or_ge x a with hx | hx
  · rw [store_outside _ _ (.inl (by omega)), store_outside _ _ (.inl hx),
      store_outside _ _ (.inl hx)]
  · obtain ⟨i, rfl⟩ := Nat.exists_eq_add_of_le hx
    rcases Nat.lt_or_ge i bs.length with hi | hi
    · rw [store_outside _ _ (.inl (by omega)), store_inside _ _ hi,
        store_inside _ _ (by simp; omega), List.getElem_append_left hi]
    · simp [store, List.getElem?_append_right hi, hi, Nat.sub_add_eq]

theorem store_load_self : store m a (load m a n) = m := by
  funext x
  by_cases h : x < a ∨ a + n ≤ x
  · exact store_outside m _ (by simpa using h)
  · obtain ⟨i, rfl⟩ := Nat.exists_eq_add_of_le (show a ≤ x by omega)
    rw [store_inside m _ (by simp; omega)]
    simp [load]

def ChangesIn (rs : List (ℕ × ℕ)) (m m' : Mem) : Prop :=
  ∀ x, (∀ r ∈ rs, x < r.1 ∨ r.1 + r.2 ≤ x) → m' x = m x

namespace ChangesIn
variable {m m'} {m'' : Mem} {rs rs' : List (ℕ × ℕ)}

theorem refl (m : Mem) : ChangesIn rs m m := fun _ _ => rfl

theorem trans (h : ChangesIn rs m m') (h' : ChangesIn rs m' m'') : ChangesIn rs m m'' :=
  fun x hx => (h' x hx).trans (h x hx)

theorem mono (h : ChangesIn rs m m') (hsub : rs ⊆ rs') : ChangesIn rs' m m' :=
  fun x hx => h x fun r hr => hx r (hsub hr)

theorem store {r : ℕ × ℕ} {bs : List UInt8} (hr : r ∈ rs) (ha : r.1 ≤ a)
    (hb : a + bs.length ≤ r.1 + r.2) : ChangesIn rs m (store m a bs) := by
  intro x hx
  refine store_outside m bs ?_
  have := hx r hr
  omega

theorem store_congr (h : ChangesIn rs m m') :
    ChangesIn rs (ByteMemory.store m a bs) (ByteMemory.store m' a bs) := by
  intro x hx
  simp only [ByteMemory.store, h x hx]

theorem load (h : ChangesIn rs m m') (ha : ∀ r ∈ rs, Apart a n r.1 r.2) :
    load m' a n = load m a n := by
  refine load_congr _ _ fun i hi => h _ fun r hr => ?_
  have := ha r hr
  unfold Apart at this
  omega

end ChangesIn

/-- The bytes at `a` up to the first zero byte are `s`. -/
structure IsCString (m : Mem) (a : ℕ) (s : List UInt8) : Prop where
  chars : load m a s.length = s
  nonzero : 0 ∉ s
  stop : m (a + s.length) = 0

namespace IsCString
variable {m m'} {s t : List UInt8}

theorem char (h : IsCString m a s) {i : ℕ} (hi : i < s.length) : m (a + i) = s[i] := by
  have hg := congrArg (·[i]?) h.chars
  simpa [hi] using hg

theorem char_ne_zero (h : IsCString m a s) {i : ℕ} (hi : i < s.length) : m (a + i) ≠ 0 := by
  rw [h.char hi]
  exact fun h0 => h.nonzero (h0 ▸ List.getElem_mem hi)

theorem length_le (h : IsCString m a s) (ht : IsCString m a t) : s.length ≤ t.length := by
  by_contra hlt
  exact h.char_ne_zero (by omega) ht.stop

theorem unique (h : IsCString m a s) (ht : IsCString m a t) : s = t := by
  have hl : s.length = t.length := Nat.le_antisymm (h.length_le ht) (ht.length_le h)
  rw [← h.chars, ← ht.chars, hl]

theorem congr (h : IsCString m a s) (hm : load m' a (s.length + 1) = load m a (s.length + 1)) :
    IsCString m' a s := by
  have hb := (load_eq_iff m' m).mp hm
  refine ⟨?_, h.nonzero, ?_⟩
  · rw [load_congr m' m fun i hi => hb i (by omega), h.chars]
  · rw [hb _ (by omega), h.stop]

theorem of_load (hr : load m a (s.length + 1) = s ++ [0]) (hs : 0 ∉ s) : IsCString m a s := by
  obtain ⟨hc, h0⟩ := load_eq_append m s [0] hr
  exact ⟨hc, hs, by simpa [load] using h0⟩

theorem load_stop (h : IsCString m a s) : load m a (s.length + 1) = s ++ [0] := by
  rw [load_add, h.chars]
  simp [load, h.stop]

end IsCString

def upToZero (bs : List UInt8) : List UInt8 := bs.takeWhile (· ≠ 0)

theorem upToZero_self {s : List UInt8} (hs : 0 ∉ s) : upToZero s = s := by
  refine List.takeWhile_eq_self_iff.mpr fun c hc => ?_
  have hne : c ≠ 0 := fun h => hs (h ▸ hc)
  simpa using hne

theorem upToZero_append {s : List UInt8} (hs : 0 ∉ s) (rest : List UInt8) :
    upToZero (s ++ 0 :: rest) = s := by
  have hall : ∀ c ∈ s, decide (c ≠ 0) = true := List.takeWhile_eq_self_iff.mp (upToZero_self hs)
  rw [upToZero, List.takeWhile_append_of_pos hall]
  simp

theorem isCString_stored_iff :
    IsCString (store m a bs) a (upToZero bs) ↔ 0 ∈ bs ∨ m (a + bs.length) = 0 := by
  by_cases h0 : 0 ∈ bs
  · refine iff_of_true ?_ (.inl h0)
    obtain ⟨s, rest, rfl, hs⟩ := List.eq_append_cons_of_mem h0
    have hlen : s.length + 1 ≤ (s ++ 0 :: rest).length := by simp
    rw [upToZero_append hs]
    refine .of_load ?_ hs
    rw [← load_take _ hlen, load_store_same, List.take_length_add_append]
    rfl
  · have hstop : store m a bs (a + bs.length) = m (a + bs.length) :=
      store_outside m bs (.inr (Nat.le_refl _))
    rw [upToZero_self h0, or_iff_right h0, ← hstop]
    exact ⟨IsCString.stop, fun h => ⟨load_store_same m bs, h0, h⟩⟩

section Field
variable {m m' : Mem} {a offset n : ℕ} {s : List UInt8}

theorem isCString_field (h : IsCString m a s) (hcopy : load m' offset n = load m a n)
    (hstop : m' (offset + n) = 0) : IsCString m' offset (s.take n) := by
  by_cases hlt : s.length < n
  · rw [List.take_of_length_le (by omega)]
    refine .of_load ?_ h.nonzero
    rw [← load_take m' (show s.length + 1 ≤ n by omega), hcopy, load_take m (by omega), h.load_stop]
  · have hlen : (s.take n).length = n := by simp; omega
    refine ⟨?_, fun h0 => h.nonzero (List.mem_of_mem_take h0), hlen.symm ▸ hstop⟩
    rw [hlen, hcopy, ← load_take m (show n ≤ s.length by omega), h.chars]

theorem isCString_field_iff (h : IsCString m a s) (hcopy : load m' offset n = load m a n)
    (hstop : m' (offset + n) = 0) {t : List UInt8} : IsCString m' offset t ↔ s.take n = t := by
  have hfield := isCString_field h hcopy hstop
  exact ⟨fun ht => hfield.unique ht, fun he => he ▸ hfield⟩

theorem isCString_copied_iff (h : IsCString m a s) (hcopy : load m' offset n = load m a n)
    (hlen : s.length ≤ n) : IsCString m' offset s ↔ (s.length = n → m' (offset + n) = 0) := by
  constructor
  · rintro hs rfl
    exact hs.stop
  · intro hstop
    by_cases heq : s.length = n
    · have hfield := isCString_field h hcopy (hstop heq)
      rwa [List.take_of_length_le hlen] at hfield
    · refine .of_load ?_ h.nonzero
      rw [← load_take m' (show s.length + 1 ≤ n by omega), hcopy, load_take m (by omega),
        h.load_stop]

end Field

def strlenRound (m : Mem) (a i : ℕ) : Pass ℕ ℕ :=
  if m (a + i) = 0 then .leave i else .again (i + 1)

/-- `strlen`, with as many rounds as a 32-bit address space has bytes. -/
def strlen (m : Mem) (a : ℕ) : Option ℕ := run (strlenRound m a) (2 ^ 32) 0

theorem strlen_eq {m : Mem} {s : List UInt8} (h : IsCString m a s) (hs : s.length < 2 ^ 32) :
    strlen m a = some s.length := by
  obtain ⟨r, hr, rfl⟩ := run_spec
    (strlenRound m a) (fun i => i ≤ s.length) (fun i => s.length - i) (fun r => r = s.length)
    (fun i i' hi hb => by
      unfold strlenRound at hb
      split_ifs at hb with h0
      cases hb
      have : i ≠ s.length := fun he => h0 (he ▸ h.stop)
      omega)
    (fun i r hi hb => by
      unfold strlenRound at hb
      split_ifs at hb with h0
      cases hb
      have : ¬ i < s.length := fun hlt => h.char_ne_zero hlt h0
      omega)
    (Nat.zero_le _) (by simpa using hs)
  exact hr

theorem strlen_total {m : Mem} {k : ℕ} (h : m (a + k) = 0) (hk : k < 2 ^ 32) :
    ∃ r, strlen m a = some r := by
  refine run_total _ (fun i => i ≤ k) (fun i => k - i) (fun i i' hi hb => ?_) (Nat.zero_le _)
    (by simpa using hk)
  unfold strlenRound at hb
  split_ifs at hb with h0
  cases hb
  have : i ≠ k := fun he => h0 (he ▸ h)
  omega

def be32 (v : ℕ) : List UInt8 :=
  [UInt8.ofNat (v / 2 ^ 24), UInt8.ofNat (v / 2 ^ 16), UInt8.ofNat (v / 2 ^ 8), UInt8.ofNat v]

def ofBe32 : List UInt8 → ℕ
  | [b₃, b₂, b₁, b₀] => b₃.toNat * 2 ^ 24 + b₂.toNat * 2 ^ 16 + b₁.toNat * 2 ^ 8 + b₀.toNat
  | _ => 0

def load32 (m : Mem) (a : ℕ) : ℕ := ofBe32 (load m a 4)

@[simp] theorem be32_length (v : ℕ) : (be32 v).length = 4 := rfl

theorem ofBe32_be32 {v : ℕ} (h : v < 2 ^ 32) : ofBe32 (be32 v) = v := by
  simp only [be32, ofBe32, UInt8.toNat_ofNat']
  omega

theorem be32_ofBe32 {bs : List UInt8} (h : bs.length = 4) : be32 (ofBe32 bs) = bs := by
  obtain ⟨b₃, b₂, b₁, b₀, rfl⟩ := List.length_eq_four.mp h
  have h₃ := b₃.toNat_lt
  have h₂ := b₂.toNat_lt
  have h₁ := b₁.toNat_lt
  have h₀ := b₀.toNat_lt
  simp only [be32, ofBe32, List.cons.injEq, and_true]
  refine ⟨?_, ?_, ?_, ?_⟩ <;>
  · apply UInt8.toNat_inj.mp
    simp only [UInt8.toNat_ofNat']
    omega

theorem load32_store {v : ℕ} (h : v < 2 ^ 32) : load32 (store m a (be32 v)) a = v := by
  have hr := load_store_same m (a := a) (be32 v)
  rw [be32_length] at hr
  rw [load32, hr, ofBe32_be32 h]

structure Store where
  addr : ℕ
  bytes : List UInt8
deriving DecidableEq

def Store.Misses (w : Store) (a n : ℕ) : Prop := Apart a n w.addr w.bytes.length

def stores (m : Mem) (ws : List Store) : Mem := ws.foldl (fun m w => store m w.addr w.bytes) m

@[simp] theorem stores_nil : stores m [] = m := rfl
@[simp] theorem stores_cons (w : Store) (ws : List Store) :
    stores m (w :: ws) = stores (store m w.addr w.bytes) ws := rfl

theorem stores_append (ws ws' : List Store) :
    stores m (ws ++ ws') = stores (stores m ws) ws' := List.foldl_append

def extent (a n : ℕ) : Set ℕ := Set.Ico a (a + n)

instance (a n b k : ℕ) : Decidable (Disjoint (extent a n) (extent b k)) :=
  decidable_of_iff _ Set.Ico_disjoint_Ico.symm

theorem Apart.disjoint {a n b k : ℕ} (h : Apart a n b k) : Disjoint (extent a n) (extent b k) := by
  refine Set.Ico_disjoint_Ico.mpr ?_
  unfold Apart at h
  omega

def Store.extent (w : Store) : Set ℕ := ByteMemory.extent w.addr w.bytes.length

section Overlay
variable (m m' : Mem) {ws ws' : List Store} {w : Store} {x : ℕ}

theorem store_of_notMem {a : ℕ} {bs : List UInt8} (h : x ∉ extent a bs.length) :
    store m a bs x = m x := by
  refine store_outside m bs ?_
  simp only [extent, Set.mem_Ico] at h
  omega

theorem store_of_mem {a : ℕ} {bs : List UInt8} (h : x ∈ extent a bs.length) :
    store m a bs x = store m' a bs x := by
  obtain ⟨i, rfl⟩ := Nat.exists_eq_add_of_le h.1
  have hi : i < bs.length := Nat.lt_of_add_lt_add_left h.2
  rw [store_inside m bs hi, store_inside m' bs hi]

theorem stores_of_notMem (h : ∀ w ∈ ws, x ∉ w.extent) : stores m ws x = m x := by
  induction ws generalizing m with
  | nil => rfl
  | cons w ws ih =>
    rw [stores_cons, ih _ fun w' hw => h w' (List.mem_cons_of_mem _ hw)]
    exact store_of_notMem m (h w List.mem_cons_self)

theorem stores_of_mem (hd : ws.Pairwise fun u v => Disjoint u.extent v.extent) (hw : w ∈ ws)
    (hx : x ∈ w.extent) : stores m ws x = store m' w.addr w.bytes x := by
  induction ws generalizing m with
  | nil => cases hw
  | cons u us ih =>
    obtain ⟨hu, hus⟩ := List.pairwise_cons.mp hd
    rcases List.mem_cons.mp hw with rfl | hmem
    · have hrest : ∀ v ∈ us, x ∉ v.extent := fun v hv =>
        Set.disjoint_left.mp (hu v hv) hx
      rw [stores_cons, stores_of_notMem _ hrest]
      exact store_of_mem m m' hx
    · exact ih _ hus hmem

theorem load_stores_disjoint (hd : ws.Pairwise fun u v => Disjoint u.extent v.extent)
    (hw : w ∈ ws) : load (stores m ws) w.addr w.bytes.length = w.bytes := by
  have hload : load (stores m ws) w.addr w.bytes.length =
      load (store m w.addr w.bytes) w.addr w.bytes.length :=
    load_congr _ _ fun i hi => stores_of_mem m m hd hw
      ⟨Nat.le_add_right w.addr i, Nat.add_lt_add_left hi w.addr⟩
  rw [hload, load_store_same]

theorem load_stores_of_mem (hp : ws.Pairwise fun u v => v.Misses u.addr u.bytes.length)
    (hw : w ∈ ws) : load (stores m ws) w.addr w.bytes.length = w.bytes :=
  load_stores_disjoint m (hp.imp Apart.disjoint) hw

theorem stores_congr (hd : ws.Pairwise fun u v => Disjoint u.extent v.extent)
    (hd' : ws'.Pairwise fun u v => Disjoint u.extent v.extent) (hmem : ∀ w, w ∈ ws ↔ w ∈ ws') :
    stores m ws = stores m ws' := by
  funext x
  by_cases hx : ∃ w ∈ ws, x ∈ w.extent
  · obtain ⟨w, hw, hxw⟩ := hx
    rw [stores_of_mem m m hd hw hxw, stores_of_mem m m hd' ((hmem w).mp hw) hxw]
  · have hnone : ∀ w ∈ ws, x ∉ w.extent := fun w hw hxw => hx ⟨w, hw, hxw⟩
    rw [stores_of_notMem m hnone, stores_of_notMem m fun w hw => hnone w ((hmem w).mpr hw)]

theorem stores_perm (hd : ws.Pairwise fun u v => Disjoint u.extent v.extent)
    (h : ws.Perm ws') : stores m ws = stores m ws' :=
  stores_congr m hd (h.pairwise hd fun hs => hs.symm) fun _ => h.mem_iff

theorem stores_twice (hd : ws.Pairwise fun u v => Disjoint u.extent v.extent) :
    stores (stores m ws) ws = stores m ws := by
  funext x
  by_cases hx : ∃ w ∈ ws, x ∈ w.extent
  · obtain ⟨w, hw, hxw⟩ := hx
    rw [stores_of_mem _ m hd hw hxw, stores_of_mem m m hd hw hxw]
  · exact stores_of_notMem _ fun w hw hxw => hx ⟨w, hw, hxw⟩

end Overlay

end Patchwork.ByteMemory
