import Mathlib.Algebra.GroupWithZero.Nat
import Mathlib.Data.Finmap
import Mathlib.Tactic.Common

/-!
# Maps filled by assignment

A later assignment to a key replaces an earlier one. With distinct keys every
assignment is kept, and their order does not matter.
-/

namespace Patchwork.Assignments

universe u v
variable {α : Type u} {β : Type v} [DecidableEq α]

abbrev Map (α : Type u) (β : Type v) := Finmap fun _ : α => β

def assign (m : Map α β) (kvs : List (α × β)) : Map α β :=
  kvs.foldl (fun m kv => m.insert kv.1 kv.2) m

variable {m : Map α β} {kv : α × β} {kvs : List (α × β)} {k : α} {v : β}

theorem assign_cons : assign m (kv :: kvs) = assign (m.insert kv.1 kv.2) kvs := rfl

theorem lookup_assign_of_notMem (h : k ∉ kvs.map Prod.fst) :
    (assign m kvs).lookup k = m.lookup k := by
  induction kvs generalizing m with
  | nil => rfl
  | cons kv kvs ih =>
    obtain ⟨hk, hrest⟩ := not_or.mp (List.mem_cons.not.mp h)
    rw [assign_cons, ih hrest, Finmap.lookup_insert_of_ne _ hk]

theorem lookup_assign_of_mem (hnodup : (kvs.map Prod.fst).Nodup) (h : (k, v) ∈ kvs) :
    (assign m kvs).lookup k = some v := by
  induction kvs generalizing m with
  | nil => cases h
  | cons kv kvs ih =>
    obtain ⟨hfirst, hrest⟩ := List.nodup_cons.mp hnodup
    rw [assign_cons]
    rcases List.mem_cons.mp h with rfl | hmem
    · rw [lookup_assign_of_notMem hfirst, Finmap.lookup_insert]
    · exact ih hrest hmem

theorem card_keys_assign (hnodup : (kvs.map Prod.fst).Nodup)
    (hnew : ∀ k ∈ kvs.map Prod.fst, k ∉ m) :
    (assign m kvs).keys.card = m.keys.card + kvs.length := by
  induction kvs generalizing m with
  | nil => rfl
  | cons kv kvs ih =>
    obtain ⟨hfirst, hrest⟩ := List.nodup_cons.mp hnodup
    have hkey : (m.insert kv.1 kv.2).keys.card = m.keys.card + 1 := by
      have hkeys : (m.insert kv.1 kv.2).keys = insert kv.1 m.keys := by
        ext k
        simp only [Finmap.mem_keys, Finmap.mem_insert, Finset.mem_insert]
      rw [hkeys, Finset.card_insert_of_notMem]
      rw [Finmap.mem_keys]
      exact hnew kv.1 List.mem_cons_self
    rw [assign_cons, ih hrest, hkey, List.length_cons]
    · omega
    · intro k hk
      rw [Finmap.mem_insert, not_or]
      exact ⟨fun he => hfirst (he ▸ hk), hnew k (List.mem_cons_of_mem _ hk)⟩

theorem mem_of_lookup_assign (h : (assign ∅ kvs).lookup k = some v)
    (hnodup : (kvs.map Prod.fst).Nodup) : (k, v) ∈ kvs := by
  by_cases hk : k ∈ kvs.map Prod.fst
  · obtain ⟨⟨k', v'⟩, hkv, rfl⟩ := List.mem_map.mp hk
    obtain rfl := Option.some.inj (h.symm.trans (lookup_assign_of_mem hnodup hkv))
    exact hkv
  · rw [lookup_assign_of_notMem hk, Finmap.lookup_empty] at h
    cases h

theorem entries_assign (hnodup : (kvs.map Prod.fst).Nodup)
    (hnew : ∀ k ∈ kvs.map Prod.fst, k ∉ m) :
    (assign m kvs).entries = ↑(kvs.map fun kv => (⟨kv.1, kv.2⟩ : Sigma fun _ : α => β)) +
      m.entries := by
  induction kvs generalizing m with
  | nil => simp [assign]
  | cons kv kvs ih =>
    obtain ⟨hfirst, hrest⟩ := List.nodup_cons.mp hnodup
    rw [assign_cons, ih hrest, Finmap.entries_insert_of_notMem (hnew kv.1 List.mem_cons_self),
      List.map_cons, ← Multiset.cons_coe, Multiset.cons_add, Multiset.add_cons]
    intro k hk
    rw [Finmap.mem_insert, not_or]
    exact ⟨fun he => hfirst (he ▸ hk), hnew k (List.mem_cons_of_mem _ hk)⟩

/-- What a key has in the end is its last assignment. -/
theorem lookup_assign_iff : (assign m kvs).lookup k = some v ↔
    (∃ before after, kvs = before ++ (k, v) :: after ∧ k ∉ after.map Prod.fst) ∨
      (k ∉ kvs.map Prod.fst ∧ m.lookup k = some v) := by
  induction kvs generalizing m with
  | nil => simp [assign]
  | cons kv kvs ih =>
    rw [assign_cons, ih]
    constructor
    · intro h
      obtain ⟨before, after, rfl, hafter⟩ | ⟨hk, hlookup⟩ := h
      · exact .inl ⟨kv :: before, after, rfl, hafter⟩
      · by_cases he : k = kv.1
        · subst he
          rw [Finmap.lookup_insert, Option.some.injEq] at hlookup
          subst hlookup
          exact .inl ⟨[], kvs, rfl, hk⟩
        · rw [Finmap.lookup_insert_of_ne _ he] at hlookup
          exact .inr ⟨by simp [he, hk], hlookup⟩
    · intro h
      obtain ⟨before, after, hsplit, hafter⟩ | ⟨hk, hlookup⟩ := h
      · cases before with
        | nil =>
          obtain ⟨rfl, rfl⟩ := List.cons.inj hsplit
          exact .inr ⟨hafter, Finmap.lookup_insert _⟩
        | cons first before =>
          obtain ⟨rfl, rfl⟩ := List.cons.inj hsplit
          exact .inl ⟨before, after, rfl, hafter⟩
      · obtain ⟨hne, hrest⟩ := not_or.mp (List.mem_cons.not.mp hk)
        exact .inr ⟨hrest, by rwa [Finmap.lookup_insert_of_ne _ hne]⟩

theorem sum_assign (hnodup : (kvs.map Prod.fst).Nodup) (f : α → β → ℕ) :
    ((assign ∅ kvs : Map α β).entries.map fun kv => f kv.1 kv.2).sum =
      (kvs.map fun kv => f kv.1 kv.2).sum := by
  have hempty : (∅ : Map α β).entries = 0 := rfl
  rw [entries_assign hnodup fun _ _ => Finmap.notMem_empty, hempty]
  simp [Function.comp_def]

theorem exists_assign (m : Map α β) :
    ∃ kvs : List (α × β), (kvs.map Prod.fst).Nodup ∧ assign ∅ kvs = m := by
  induction m using Finmap.induction_on with
  | H a =>
    have hnodup : ((a.entries.map fun kv => (kv.1, kv.2)).map Prod.fst).Nodup := by
      rw [List.map_map]
      exact a.nodupKeys
    refine ⟨a.entries.map fun kv => (kv.1, kv.2), hnodup, Finmap.ext ?_⟩
    have hempty : (∅ : Map α β).entries = 0 := rfl
    rw [entries_assign hnodup fun _ _ => Finmap.notMem_empty, hempty, add_zero, List.map_map]
    exact congrArg _ (List.map_id' a.entries)

theorem assign_perm {kvs' : List (α × β)} (hnodup : (kvs.map Prod.fst).Nodup)
    (h : kvs.Perm kvs') : assign m kvs = assign m kvs' := by
  refine Finmap.ext_lookup fun k => ?_
  by_cases hk : k ∈ kvs.map Prod.fst
  · obtain ⟨kv, hkv, rfl⟩ := List.mem_map.mp hk
    rw [lookup_assign_of_mem hnodup hkv,
      lookup_assign_of_mem ((h.map Prod.fst).nodup_iff.mp hnodup) (h.mem_iff.mp hkv)]
  · rw [lookup_assign_of_notMem hk,
      lookup_assign_of_notMem fun hc => hk ((h.map Prod.fst).mem_iff.mpr hc)]

end Patchwork.Assignments
