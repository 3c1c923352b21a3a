import Mathlib.Data.List.Forall2
import Mathlib.Tactic.Common

/-!
# Loops that append

Each element contributes a block to a list, or the loop fails. Where a list is known to
consist of one block for each element, counting tells which blocks it consists of.
-/

namespace Patchwork.Collect

universe u v
variable {α β : Type u} {ε : Type v}

theorem bind_ok_iff {γ : Type u} {x : Except ε γ} {g : γ → Except ε β} {b : β} :
    (x >>= g) = .ok b ↔ ∃ a, x = .ok a ∧ g a = .ok b := by
  cases x with
  | error e => simp [bind, Except.bind]
  | ok a => simp [bind, Except.bind]

theorem bind_total_iff {γ : Type u} {x : Except ε γ} {g : γ → Except ε β} :
    (∃ b, (x >>= g) = .ok b) ↔ ∃ a, x = .ok a ∧ ∃ b, g a = .ok b := by
  simp only [bind_ok_iff]
  exact ⟨fun ⟨b, a, ha, hb⟩ => ⟨a, ha, b, hb⟩, fun ⟨a, ha, b, hb⟩ => ⟨b, a, ha, hb⟩⟩

def collect (f : α → Except ε (List β)) : List α → Except ε (List β)
  | [] => .ok []
  | x :: xs => do
    let ys ← f x
    let zs ← collect f xs
    .ok (ys ++ zs)

def appendRound (f : α → Except ε (List β)) (out : List β) (x : α) : Except ε (List β) := do
  let ys ← f x
  .ok (out ++ ys)

variable {f : α → Except ε (List β)} {xs : List α} {out r : List β}

theorem foldlM_appendRound :
    xs.foldlM (appendRound f) out = (collect f xs).map (out ++ ·) := by
  induction xs generalizing out with
  | nil => simp [collect, Except.map, pure, Except.pure]
  | cons x xs ih =>
    rw [List.foldlM_cons, appendRound, collect]
    cases f x with
    | error e => rfl
    | ok ys =>
      change xs.foldlM (appendRound f) (out ++ ys) = _
      rw [ih]
      cases collect f xs with
      | error e => simp [Except.map, bind, Except.bind]
      | ok zs => simp [Except.map, bind, Except.bind]

theorem collect_ok_iff : collect f xs = .ok r ↔
    ∃ yss, List.Forall₂ (fun x ys => f x = .ok ys) xs yss ∧ r = yss.flatten := by
  induction xs generalizing r with
  | nil =>
    refine ⟨fun h => ⟨[], .nil, by cases h; rfl⟩, ?_⟩
    intro hall
    obtain ⟨yss, hyss, rfl⟩ := hall
    cases hyss
    rfl
  | cons x xs ih =>
    constructor
    · intro h
      cases hx : f x with
      | error e => simp [collect, hx, bind, Except.bind] at h
      | ok ys =>
        cases hxs : collect f xs with
        | error e => simp [collect, hx, hxs, bind, Except.bind] at h
        | ok zs =>
          obtain ⟨yss, hyss, rfl⟩ := ih.mp hxs
          simp only [collect, hx, hxs, bind, Except.bind, Except.ok.injEq] at h
          exact ⟨ys :: yss, .cons hx hyss, by simp [← h]⟩
    · intro hall
      obtain ⟨yss, hyss, rfl⟩ := hall
      obtain ⟨ys, yss, hx, hxs, rfl⟩ := List.forall₂_cons_left_iff.mp hyss
      simp [collect, hx, ih.mpr ⟨yss, hxs, rfl⟩, bind, Except.bind]

theorem collect_total_iff : (∃ r, collect f xs = .ok r) ↔ ∀ x ∈ xs, ∃ ys, f x = .ok ys := by
  simp only [collect_ok_iff]
  induction xs with
  | nil => exact iff_of_true ⟨[], [], .nil, rfl⟩ (by simp)
  | cons x xs ih =>
    rw [List.forall_mem_cons, ← ih]
    constructor
    · intro hall
      obtain ⟨-, yss, hyss, rfl⟩ := hall
      obtain ⟨ys, yss, hx, hxs, rfl⟩ := List.forall₂_cons_left_iff.mp hyss
      exact ⟨⟨ys, hx⟩, _, yss, hxs, rfl⟩
    · intro hall
      obtain ⟨⟨ys, hx⟩, -, yss, hxs, rfl⟩ := hall
      exact ⟨_, ys :: yss, .cons hx hxs, rfl⟩

theorem collect_filter (p : α → Bool) :
    collect (fun x => if p x then f x else .ok []) xs = collect f (xs.filter p) := by
  induction xs with
  | nil => rfl
  | cons x xs ih =>
    rw [collect, ih]
    cases hp : p x with
    | false =>
      rw [List.filter_cons_of_neg (by simp [hp])]
      cases hc : collect f (xs.filter p) with
      | error e => rfl
      | ok zs => rfl
    | true =>
      rw [List.filter_cons_of_pos hp, collect]
      rfl

theorem collect_mapM {γ : Type u} {g : γ → Except ε α} {ts : List γ} (h : ts.mapM g = .ok xs) :
    collect (fun t => g t >>= f) ts = collect f xs := by
  induction ts generalizing xs with
  | nil =>
    cases h
    rfl
  | cons t ts ih =>
    rw [List.mapM_cons] at h
    obtain ⟨x, hx, h⟩ := bind_ok_iff.mp h
    obtain ⟨xs, hxs, h⟩ := bind_ok_iff.mp h
    cases h
    rw [collect, collect, ih hxs, hx]
    rfl

theorem collect_perm {ys : List α} (hp : xs.Perm ys) (h : collect f xs = .ok r) :
    ∃ r', collect f ys = .ok r' ∧ r.Perm r' := by
  induction hp generalizing r with
  | nil => exact ⟨r, h, .refl r⟩
  | cons x _ ih =>
    obtain ⟨b, hb, h⟩ := bind_ok_iff.mp h
    obtain ⟨bs, hbs, h⟩ := bind_ok_iff.mp h
    cases h
    obtain ⟨bs', hbs', hperm⟩ := ih hbs
    exact ⟨b ++ bs', bind_ok_iff.mpr ⟨b, hb, bind_ok_iff.mpr ⟨bs', hbs', rfl⟩⟩, hperm.append_left b⟩
  | swap x y xs =>
    obtain ⟨b, hb, h⟩ := bind_ok_iff.mp h
    obtain ⟨cs, hcs, h⟩ := bind_ok_iff.mp h
    obtain ⟨c, hc, hcs⟩ := bind_ok_iff.mp hcs
    obtain ⟨bs, hbs, hcs⟩ := bind_ok_iff.mp hcs
    cases h
    cases hcs
    refine ⟨c ++ (b ++ bs), bind_ok_iff.mpr ⟨c, hc, bind_ok_iff.mpr ⟨b ++ bs,
      bind_ok_iff.mpr ⟨b, hb, bind_ok_iff.mpr ⟨bs, hbs, rfl⟩⟩, rfl⟩⟩, ?_⟩
    rw [← List.append_assoc, ← List.append_assoc]
    exact List.perm_append_comm.append_right bs
  | trans _ _ ih ih' =>
    obtain ⟨r', hr', hperm⟩ := ih h
    obtain ⟨r'', hr'', hperm'⟩ := ih' hr'
    exact ⟨r'', hr'', hperm.trans hperm'⟩

theorem collect_append {ys : List α} : collect f (xs ++ ys) =
    (collect f xs >>= fun bs => (collect f ys).map (bs ++ ·)) := by
  induction xs with
  | nil =>
    cases hys : collect f ys with
    | error e => simp [collect, hys, bind, Except.bind, Except.map]
    | ok cs => simp [collect, hys, bind, Except.bind, Except.map]
  | cons x xs ih =>
    rw [List.cons_append, collect, collect, ih]
    cases f x with
    | error e => rfl
    | ok bs =>
      cases collect f xs with
      | error e => rfl
      | ok cs =>
        cases collect f ys with
        | error e => rfl
        | ok ds => simp [bind, Except.bind, Except.map]

theorem collect_nested {γ : Type u} {g : γ → α → Except ε (List β)} {ts : List γ}
    {h : γ → List α} : collect (fun t => collect (g t) (h t)) ts =
      collect (fun p : γ × α => g p.1 p.2) (ts.flatMap fun t => (h t).map (Prod.mk t)) := by
  have hone (t : γ) (xs : List α) :
      collect (fun p : γ × α => g p.1 p.2) (xs.map (Prod.mk t)) = collect (g t) xs := by
    induction xs with
    | nil => rfl
    | cons x xs ih => rw [List.map_cons, collect, collect, ih]
  induction ts with
  | nil => rfl
  | cons t ts ih =>
    rw [List.flatMap_cons, collect_append, collect, ih, hone]
    cases collect (g t) (h t) with
    | error e => rfl
    | ok bs =>
      cases collect (fun p : γ × α => g p.1 p.2) (ts.flatMap fun t => (h t).map (Prod.mk t)) with
      | error e => rfl
      | ok cs => rfl

theorem exists_of_mem_left {R : α → List β → Prop} {x : α} {yss : List (List β)}
    (h : List.Forall₂ R xs yss) (hx : x ∈ xs) : ∃ ys ∈ yss, R x ys := by
  induction h with
  | nil => cases hx
  | cons hhead _ ih =>
    rcases List.mem_cons.mp hx with rfl | hmem
    · exact ⟨_, List.mem_cons_self, hhead⟩
    · obtain ⟨ys, hys, hR⟩ := ih hmem
      exact ⟨ys, List.mem_cons_of_mem _ hys, hR⟩

theorem exists_of_mem_right {R : α → List β → Prop} {ys : List β} {yss : List (List β)}
    (h : List.Forall₂ R xs yss) (hy : ys ∈ yss) : ∃ x ∈ xs, R x ys := by
  induction h with
  | nil => cases hy
  | cons hhead _ ih =>
    rcases List.mem_cons.mp hy with rfl | hmem
    · exact ⟨_, List.mem_cons_self, hhead⟩
    · obtain ⟨x, hx, hR⟩ := ih hmem
      exact ⟨x, List.mem_cons_of_mem _ hx, hR⟩

section Count
variable {R S : α → List β → Prop} {yss zss : List (List β)}

theorem flatten_length_le (hR : List.Forall₂ R xs yss) (hS : List.Forall₂ S xs zss)
    (hle : ∀ x ys zs, R x ys → S x zs → ys.length ≤ zs.length) :
    yss.flatten.length ≤ zss.flatten.length := by
  induction hR generalizing zss with
  | nil =>
    cases hS
    exact Nat.le_refl _
  | cons hx _ ih =>
    obtain ⟨zs, zss, hxs, hrest, rfl⟩ := List.forall₂_cons_left_iff.mp hS
    have hhead := hle _ _ _ hx hxs
    have htail := ih hrest
    simp only [List.flatten_cons, List.length_append]
    omega

theorem forall_length_eq (hR : List.Forall₂ R xs yss) (hS : List.Forall₂ S xs zss)
    (hle : ∀ x ys zs, R x ys → S x zs → ys.length ≤ zs.length)
    (htotal : yss.flatten.length = zss.flatten.length) :
    ∀ x ∈ xs, ∃ ys zs, R x ys ∧ S x zs ∧ ys.length = zs.length := by
  induction hR generalizing zss with
  | nil => simp
  | cons hx hxs ih =>
    obtain ⟨zs, zss, hz, hzs, rfl⟩ := List.forall₂_cons_left_iff.mp hS
    have hhead := hle _ _ _ hx hz
    have htail := flatten_length_le hxs hzs hle
    simp only [List.flatten_cons, List.length_append] at htotal
    refine List.forall_mem_cons.mpr ⟨⟨_, _, hx, hz, by omega⟩, ih hzs (by omega)⟩

end Count

theorem length_le_flatten {ys : List β} {yss : List (List β)} (h : ys ∈ yss) :
    ys.length ≤ yss.flatten.length := by
  obtain ⟨before, after, rfl⟩ := List.append_of_mem h
  simp only [List.flatten_append, List.flatten_cons, List.length_append]
  omega

theorem eq_singleton_of_flatten {ys : List β} {yss : List (List β)} (h : ys ∈ yss)
    (hne : ∀ zs ∈ yss, zs ≠ []) (hlen : yss.flatten.length = ys.length) : yss = [ys] := by
  obtain ⟨before, after, rfl⟩ := List.append_of_mem h
  simp only [List.flatten_append, List.flatten_cons, List.length_append] at hlen
  have hnil (zss : List (List β)) (hz : zss.flatten.length = 0) (hsub : ∀ zs ∈ zss, zs ≠ []) :
      zss = [] := by
    cases zss with
    | nil => rfl
    | cons zs zss =>
      have := List.length_pos_iff.mpr (hsub zs List.mem_cons_self)
      simp only [List.flatten_cons, List.length_append] at hz
      omega
  rw [hnil before (by omega) fun zs hz => hne zs (by simp [hz]),
    hnil after (by omega) fun zs hz => hne zs (by simp [hz])]
  rfl

end Patchwork.Collect
