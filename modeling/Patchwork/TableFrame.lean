import Patchwork.Patches

/-!
# What a table touches

The loop reaches the rows before the first zero offset. Where their targets do
not meet and cover no source and no pointer, applying the table comes to storing
into disjoint ranges what the sources held at the start. That the rows may come in any
order and the table be applied twice is then a fact about such stores.
-/

namespace Patchwork.TableFrame
open ByteMemory Console Patches

def rows (ps : List GamePatch) : List GamePatch := ps.takeWhile (·.offset ≠ 0)

def rest (ps : List GamePatch) : List GamePatch := ps.dropWhile (·.offset ≠ 0)

def target (p : GamePatch) : Set ℕ := extent p.offset p.size

structure DisjointTargets (rs : List GamePatch) : Prop where
  apart : rs.Pairwise fun p q => Disjoint (target p) (target q)
  nowrap : ∀ p ∈ rs, p.offset + p.size ≤ 2 ^ 32

/-- Besides, no target covers a byte that a row copies or a pointer that a row follows. -/
structure Separate (m : Mem) (rs : List GamePatch) : Prop extends DisjointTargets rs where
  sources : ∀ p ∈ rs, ∀ q ∈ rs, origin m q ≠ 0 →
    Disjoint (target p) (extent (origin m q) q.size)
  pointers : ∀ p ∈ rs, ∀ q ∈ rs, q.type = .indirect → Disjoint (target p) (extent q.source 4)

instance (p q : GamePatch) : Decidable (Disjoint (target p) (target q)) :=
  inferInstanceAs (Decidable (Disjoint (extent _ _) (extent _ _)))

instance (p : GamePatch) (a n : ℕ) : Decidable (Disjoint (target p) (extent a n)) :=
  inferInstanceAs (Decidable (Disjoint (extent _ _) (extent _ _)))

instance (m : Mem) (rs : List GamePatch) : Decidable (Separate m rs) :=
  decidable_of_iff ((rs.Pairwise fun p q => Disjoint (target p) (target q)) ∧
      (∀ p ∈ rs, p.offset + p.size ≤ 2 ^ 32) ∧
      (∀ p ∈ rs, ∀ q ∈ rs, origin m q ≠ 0 → Disjoint (target p) (extent (origin m q) q.size)) ∧
      ∀ p ∈ rs, ∀ q ∈ rs, q.type = .indirect → Disjoint (target p) (extent q.source 4))
    ⟨fun ⟨ha, hw, hs, hp⟩ => ⟨⟨ha, hw⟩, hs, hp⟩,
      fun h => ⟨h.apart, h.nowrap, h.sources, h.pointers⟩⟩

def rowStore (m : Mem) (p : GamePatch) : Option Store :=
  if origin m p = 0 then none else some ⟨p.offset, load m (origin m p) p.size⟩

def rowStores (m : Mem) (rs : List GamePatch) : List Store := rs.filterMap (rowStore m)

def targetRanges (rs : List GamePatch) : List (ℕ × ℕ) := rs.map fun p => (p.offset, p.size)

section Stores
variable {m m' : Mem} {rs qs : List GamePatch} {p q : GamePatch} {u : Store}

theorem rowStore_extent (h : rowStore m p = some u) : u.extent = target p := by
  unfold rowStore at h
  split_ifs at h
  cases h
  simp [Store.extent, target]

theorem mem_rowStores (h : u ∈ rowStores m rs) :
    ∃ p ∈ rs, origin m p ≠ 0 ∧ u = ⟨p.offset, load m (origin m p) p.size⟩ := by
  obtain ⟨p, hp, hu⟩ := List.mem_filterMap.mp h
  unfold rowStore at hu
  split_ifs at hu with h0
  exact ⟨p, hp, h0, (Option.some.inj hu).symm⟩

theorem rowStores_of_mem (hp : p ∈ rs) (h0 : origin m p ≠ 0) :
    ⟨p.offset, load m (origin m p) p.size⟩ ∈ rowStores m rs :=
  List.mem_filterMap.mpr ⟨p, hp, if_neg h0⟩

theorem DisjointTargets.stores (h : DisjointTargets rs) (m : Mem) :
    (rowStores m rs).Pairwise fun u v => Disjoint u.extent v.extent := by
  refine List.pairwise_filterMap.mpr (h.apart.imp fun hd u hu v hv => ?_)
  rw [rowStore_extent hu, rowStore_extent hv]
  exact hd

theorem DisjointTargets.perm (h : DisjointTargets rs) (hp : qs.Perm rs) : DisjointTargets qs :=
  ⟨hp.symm.pairwise h.apart fun hd => hd.symm, fun p hq => h.nowrap p (hp.mem_iff.mp hq)⟩

theorem Separate.perm (h : Separate m rs) (hp : qs.Perm rs) : Separate m qs where
  toDisjointTargets := h.toDisjointTargets.perm hp
  sources p hq q hr := h.sources p (hp.mem_iff.mp hq) q (hp.mem_iff.mp hr)
  pointers p hq q hr := h.pointers p (hp.mem_iff.mp hq) q (hp.mem_iff.mp hr)

theorem load_disjoint {a n : ℕ} (hc : ChangesIn (targetRanges rs) m m')
    (hd : ∀ p ∈ rs, Disjoint (target p) (extent a n)) : load m' a n = load m a n := by
  refine load_congr _ _ fun i hi => hc _ fun r hr => ?_
  obtain ⟨p, hp, rfl⟩ := List.mem_map.mp hr
  have hnot : a + i ∉ target p :=
    Set.disjoint_right.mp (hd p hp) ⟨Nat.le_add_right a i, Nat.add_lt_add_left hi a⟩
  simp only [target, extent, Set.mem_Ico] at hnot
  omega

section Changed
variable (h : Separate m rs) (hc : ChangesIn (targetRanges rs) m m')
include h hc

theorem Separate.origin (hq : q ∈ rs) : Patches.origin m' q = Patches.origin m q := by
  unfold Patches.origin
  cases ht : q.type with
  | indirect =>
    have hload : load m' q.source 4 = load m q.source 4 :=
      load_disjoint hc fun p hp => h.pointers p hp q hq ht
    simp only [load32, hload]
  | direct => rfl

theorem Separate.kept : Separate m' rs where
  toDisjointTargets := h.toDisjointTargets
  sources p hp q hq h0 := by
    rw [h.origin hc hq] at h0 ⊢
    exact h.sources p hp q hq h0
  pointers := h.pointers

theorem Separate.rowStore (hq : q ∈ rs) : rowStore m' q = rowStore m q := by
  unfold TableFrame.rowStore
  rw [h.origin hc hq]
  split_ifs with h0
  · rfl
  · rw [load_disjoint hc fun p hp => h.sources p hp q hq h0]

theorem Separate.rowStores : rowStores m' rs = rowStores m rs :=
  List.filterMap_congr fun _ hq => h.rowStore hc hq

end Changed

theorem Separate.tail (h : Separate m (p :: rs)) : Separate m rs where
  apart := (List.pairwise_cons.mp h.apart).2
  nowrap q hq := h.nowrap q (List.mem_cons_of_mem _ hq)
  sources q hq r hr := h.sources q (List.mem_cons_of_mem _ hq) r (List.mem_cons_of_mem _ hr)
  pointers q hq r hr := h.pointers q (List.mem_cons_of_mem _ hq) r (List.mem_cons_of_mem _ hr)

theorem applyRow_changes (hp : p ∈ rs) : ChangesIn (targetRanges rs) m (applyRow p m) := by
  rw [applyRow_eq]
  split_ifs
  · exact .refl m
  · exact .store (List.mem_map_of_mem hp) (Nat.le_refl _) (by simp)

theorem stores_rowStores_cons : stores m (rowStores m (p :: rs)) =
    stores (applyRow p m) (rowStores m rs) := by
  rw [applyRow_eq, rowStores, List.filterMap_cons, rowStore]
  split_ifs
  · rfl
  · rfl

theorem stores_changes : ChangesIn (targetRanges rs) m (stores m (rowStores m rs)) := by
  intro x hx
  refine stores_of_notMem m fun u hu => ?_
  obtain ⟨p, hp, h0, rfl⟩ := mem_rowStores hu
  have hout := hx (p.offset, p.size) (List.mem_map_of_mem hp)
  simp only [Store.extent, extent, load_length, Set.mem_Ico]
  omega

end Stores

section Table
variable {ps qs : List GamePatch} {w : World} {x : ℕ}

theorem applyGamePatches_changes (ps : List GamePatch) (w : World) :
    ChangesIn (targetRanges ps) w.mem (applyGamePatches ps w).mem :=
  applyGamePatches_rel (R := fun w w' => ChangesIn (targetRanges ps) w.mem w'.mem)
    (fun w => .refl w.mem) (fun h h' => h.trans h') fun _ hp _ => applyRow_changes hp

theorem rows_cons {p : GamePatch} (h : p.offset ≠ 0) : rows (p :: ps) = p :: rows ps :=
  List.takeWhile_cons_of_pos (by simpa using h)

theorem rows_eq_self (h : ∀ p ∈ ps, p.offset ≠ 0) : rows ps = ps :=
  List.takeWhile_eq_self_iff.mpr fun p hp => by simpa using h p hp

theorem applyGamePatches_rows : applyGamePatches ps w = applyGamePatches (rows ps) w := by
  induction ps generalizing w with
  | nil => rfl
  | cons p ps ih =>
    by_cases h0 : p.offset = 0
    · simp [applyGamePatches, rows, h0]
    · rw [rows_cons h0, applyGamePatches_cons h0, applyGamePatches_cons h0, ih]

theorem rows_rest (ps : List GamePatch) : rows (rest ps) = [] := by
  induction ps with
  | nil => rfl
  | cons p ps ih =>
    by_cases h0 : p.offset = 0
    · simp [rest, rows, h0]
    · rwa [rest, List.dropWhile_cons_of_pos (by simpa using h0)]

theorem rows_reordered (hq : qs.Perm (rows ps)) : rows (qs ++ rest ps) = qs := by
  have hpos : ∀ q ∈ qs, decide (q.offset ≠ 0) = true := fun q hmem =>
    List.mem_takeWhile_imp (p := fun q : GamePatch => q.offset ≠ 0) (hq.mem_iff.mp hmem)
  rw [rows, List.takeWhile_append_of_pos hpos]
  exact (congrArg (qs ++ ·) (rows_rest ps)).trans (List.append_nil qs)

theorem applyGamePatches_mem (h : Separate w.mem (rows ps)) :
    (applyGamePatches ps w).mem = stores w.mem (rowStores w.mem (rows ps)) := by
  induction ps generalizing w with
  | nil => rfl
  | cons p ps ih =>
    by_cases h0 : p.offset = 0
    · simp [applyGamePatches, rows, rowStores, h0]
    · rw [rows_cons h0] at h ⊢
      have hc : ChangesIn (targetRanges (p :: rows ps)) w.mem (applyRow p w.mem) :=
        applyRow_changes List.mem_cons_self
      have hsame : rowStores (applyRow p w.mem) (rows ps) = rowStores w.mem (rows ps) :=
        List.filterMap_congr fun q hq => h.rowStore hc (List.mem_cons_of_mem _ hq)
      have hrest : Separate (applyRow p w.mem) (rows ps) := (h.kept hc).tail
      rw [applyGamePatches_cons h0, stores_rowStores_cons, ih hrest]
      exact congrArg (stores (applyRow p w.mem)) hsame

theorem applyGamePatches_applied {p : GamePatch} (h : Separate w.mem (rows ps)) (hp : p ∈ rows ps)
    (h0 : origin w.mem p ≠ 0) :
    load (applyGamePatches ps w).mem p.offset p.size = load w.mem (origin w.mem p) p.size := by
  have hload := load_stores_disjoint w.mem (h.stores w.mem) (rowStores_of_mem hp h0)
  rw [applyGamePatches_mem h]
  simpa using hload

theorem applyGamePatches_elsewhere (h : Separate w.mem (rows ps))
    (hx : ∀ p ∈ rows ps, origin w.mem p ≠ 0 → x ∉ target p) :
    (applyGamePatches ps w).mem x = w.mem x := by
  rw [applyGamePatches_mem h]
  refine stores_of_notMem _ fun u hu => ?_
  obtain ⟨p, hp, h0, rfl⟩ := mem_rowStores hu
  simpa [Store.extent, target] using hx p hp h0

theorem load_elsewhere {a n : ℕ} (h : Separate w.mem (rows ps))
    (hd : ∀ p ∈ rows ps, origin w.mem p ≠ 0 → Disjoint (extent a n) (target p)) :
    load (applyGamePatches ps w).mem a n = load w.mem a n :=
  load_congr _ _ fun i hi => applyGamePatches_elsewhere h fun p hp h0 =>
    Set.disjoint_left.mp (hd p hp h0) ⟨Nat.le_add_right a i, Nat.add_lt_add_left hi a⟩

theorem applyGamePatches_reordered (h : Separate w.mem (rows ps)) (hq : qs.Perm (rows ps)) :
    (applyGamePatches (qs ++ rest ps) w).mem = (applyGamePatches ps w).mem := by
  have hrows : rows (qs ++ rest ps) = qs := rows_reordered hq
  have hsep : Separate w.mem (rows (qs ++ rest ps)) := hrows.symm ▸ h.perm hq
  rw [applyGamePatches_mem hsep, applyGamePatches_mem h, hrows]
  exact (stores_perm w.mem (h.stores w.mem) (hq.symm.filterMap _)).symm

theorem applyGamePatches_again {v : World} (h : Separate w.mem (rows ps))
    (hv : v.mem = (applyGamePatches ps w).mem) : (applyGamePatches ps v).mem = v.mem := by
  have hc : ChangesIn (targetRanges (rows ps)) w.mem v.mem := by
    rw [hv, applyGamePatches_mem h]
    exact stores_changes
  rw [applyGamePatches_mem (h.kept hc), h.rowStores hc, hv, applyGamePatches_mem h]
  exact stores_twice w.mem (h.stores w.mem)

/-- Applying the table writes its rows and nothing else. -/
structure WritesRows (ps : List GamePatch) (w : World) : Prop where
  applied : ∀ p ∈ rows ps, origin w.mem p ≠ 0 →
    load (applyGamePatches ps w).mem p.offset p.size = load w.mem (origin w.mem p) p.size
  elsewhere : ∀ x, (∀ p ∈ rows ps, origin w.mem p ≠ 0 → x ∉ target p) →
    (applyGamePatches ps w).mem x = w.mem x
  idle : ∀ p ∈ rows ps, origin w.mem p = 0 →
    load (applyGamePatches ps w).mem p.offset p.size = load w.mem p.offset p.size
  stops : applyGamePatches ps w = applyGamePatches (rows ps) w
  -- where the range of such a row meets an applied one, that row's bytes stand
  unreached : ∀ p ∈ rest ps,
    (∀ q ∈ rows ps, origin w.mem q ≠ 0 → Disjoint (target p) (target q)) →
      load (applyGamePatches ps w).mem p.offset p.size = load w.mem p.offset p.size
  reordered : ∀ qs, qs.Perm (rows ps) →
    (applyGamePatches (qs ++ rest ps) w).mem = (applyGamePatches ps w).mem
  again : ∀ v, v.mem = (applyGamePatches ps w).mem → (applyGamePatches ps v).mem = v.mem

theorem Separate.writesRows (h : Separate w.mem (rows ps)) : WritesRows ps w where
  applied _ hp h0 := applyGamePatches_applied h hp h0
  elsewhere _ hx := applyGamePatches_elsewhere h hx
  idle p hp hnull := by
    have : Std.Symm fun p q => Disjoint (target p) (target q) := ⟨fun _ _ hd => hd.symm⟩
    refine load_elsewhere h fun q hq h0 => ?_
    have hne : p ≠ q := fun he => h0 (he ▸ hnull)
    exact List.Pairwise.forall h.apart hp hq hne
  stops := applyGamePatches_rows
  unreached _ _ hd := load_elsewhere h hd
  reordered _ hq := applyGamePatches_reordered h hq
  again _ hv := applyGamePatches_again h hv

end Table

def targetsEnd (g : GameNumber) : ℕ := (targets g).foldr (fun t n => max (t.1 + t.2) n) 0

/-- The pointers and the sources of a game's table lie behind its targets, as those of a
module do that the loader placed behind the game. -/
def LoadedBehind (m : Mem) (G : Globals) (g : GameNumber) : Prop :=
  ∀ p ∈ patches G g, (p.type = .indirect → targetsEnd g ≤ p.source) ∧
    (origin m p ≠ 0 → targetsEnd g ≤ origin m p)

section Games
variable (m : Mem) (G : Globals) (g : GameNumber)

theorem rows_patches : rows (patches G g) = patches G g :=
  rows_eq_self (patches_offset_ne_zero G g)

theorem target_bounds : ∀ p ∈ patches G g,
    p.offset + p.size ≤ targetsEnd g ∧ p.offset + p.size ≤ 2 ^ 32 := by
  have h : ∀ t ∈ targets g, t.1 + t.2 ≤ targetsEnd g ∧ t.1 + t.2 ≤ 2 ^ 32 := by
    cases g <;> decide
  rw [← map_patches G] at h
  exact fun p hp => h _ (List.mem_map_of_mem hp)

theorem patches_disjointTargets : DisjointTargets (patches G g) where
  apart := (patches_spaced G g).imp fun h =>
    (h.mono (Nat.le_succ _) (Nat.le_succ _)).disjoint
  nowrap p hp := (target_bounds G g p hp).2

theorem LoadedBehind.separate (h : LoadedBehind m G g) : Separate m (patches G g) where
  toDisjointTargets := patches_disjointTargets G g
  sources p hp q hq h0 :=
    Apart.disjoint (.inl ((target_bounds G g p hp).1.trans ((h q hq).2 h0)))
  pointers p hp q hq ht :=
    Apart.disjoint (.inl ((target_bounds G g p hp).1.trans ((h q hq).1 ht)))

end Games

theorem applyGamePatches_writesRows :
    (∀ (ps : List GamePatch) (w : World), Separate w.mem (rows ps) → WritesRows ps w) ∧
      (∀ (G : Globals) (g : GameNumber),
        rows (patches G g) = patches G g ∧ DisjointTargets (patches G g)) ∧
      ∀ (m : Mem) (G : Globals) (g : GameNumber),
        LoadedBehind m G g → Separate m (patches G g) :=
  ⟨fun _ _ h => h.writesRows, fun G g => ⟨rows_patches G g, patches_disjointTargets G g⟩,
    fun _ _ _ h => h.separate⟩

def mixedTable : List GamePatch := [⟨0x100, 0x1000, 4, .direct⟩, ⟨0x104, 0x1010, 4, .indirect⟩,
  ⟨0x300, 0x1014, 8, .indirect⟩, ⟨0x400, 0, 2, .direct⟩, ⟨0, 0, 0, .direct⟩,
  ⟨0x500, 0x1000, 4, .direct⟩]

def mixedWorld : World where
  file _ := none
  logged _ := []
  handle _ := none
  incoming := []
  mem := stores (fun _ => 0) [⟨0x1000, [1, 2, 3, 4]⟩, ⟨0x1010, be32 0x1020⟩,
    ⟨0x1020, [5, 6, 7, 8]⟩]
  logFP := 0
  trace := []

theorem applyGamePatches_writesRows_mixed :
    Separate mixedWorld.mem (rows mixedTable) ∧ WritesRows mixedTable mixedWorld ∧
      load (applyGamePatches mixedTable mixedWorld).mem 0x100 8 = [1, 2, 3, 4, 5, 6, 7, 8] := by
  have hsep : Separate mixedWorld.mem (rows mixedTable) := by decide
  exact ⟨hsep, applyGamePatches_writesRows.1 mixedTable mixedWorld hsep, by decide⟩

end Patchwork.TableFrame
