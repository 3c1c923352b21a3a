import Mathlib.Data.List.DropRight
import Patchwork.Console

/-!
# Strings, the log and the system modules

`TrimEnd` shortens a string in place. Its loop stops at the first character
whatever that is, so a string of white space keeps one character.
-/

namespace Patchwork.Util
open ByteMemory BoundedLoop Console

def ascii (s : String) : List UInt8 := s.toList.map fun c => UInt8.ofNat c.toNat

def isSpace (c : UInt8) : Bool := c == 32 || (9 ≤ c && c ≤ 13)

def trimRound (m : Mem) (str last : ℕ) : Pass ℕ ℕ :=
  if last > str ∧ isSpace (m last) then .again (last - 1) else .leave last

/-- The pointer that `TrimEnd` returns and the memory it leaves; 0 is `NULL`. -/
def trimEnd (str : ℕ) (m : Mem) : Option (ℕ × Mem) :=
  if str = 0 then some (0, m)
  else if m str = 0 then some (str, m)
  else do
    let length ← strlen m str
    let last ← run (trimRound m str) length (str + length - 1)
    some (str, store m (last + 1) [0])

def replaceRound (m : Mem) (str : ℕ) (target : UInt8) (i : ℕ) : Pass ℕ (Option ℕ) :=
  if m (str + i) = target then .leave (some i)
  else if m (str + i) = 0 then .leave none
  else .again (i + 1)

def replaceNext (str : ℕ) (target c : UInt8) (m : Mem) : Option Mem := do
  let found ← run (replaceRound m str target) (2 ^ 32) 0
  match found with
  | some i => some (store m (str + i) [c])
  | none => some m

section Log
variable (env : Env)

def defaultLogPath : String := "/dev_hdd0/plugins/patchwork/patchwork.log"

def initLogger (w : World) : World :=
  let opened := cellFsOpen env defaultLogPath .wronlyCreatTrunc w
  { opened.world with logFP := opened.value.getD w.logFP }

def destroyLogger (w : World) : World := cellFsClose w.logFP w

def loadAllModules (w : World) : World :=
  (List.range 3).foldl (fun w i =>
    let loaded := sys env (.loadSysmodule i) w
    if loaded.value ≠ 0 then logLn "Failed to load module of id: %d" loaded.world
    else loaded.world) w

def unloadAllModules (w : World) : World :=
  (List.range 3).foldl (fun w i =>
    let unloaded := sys env (.unloadSysmodule i) w
    if unloaded.value ≠ 0 then logLn "Failed to unload module of id: %d" unloaded.world
    else unloaded.world) w

theorem sysmodules_rel {R : World → World → Prop} (refl : ∀ w, R w w)
    (trans : ∀ {w w₁ w₂}, R w w₁ → R w₁ w₂ → R w w₂) {call : ℕ → Sys} (fmt : String)
    (calls : ∀ i w, R w (sys env (call i) w).world) (logs : ∀ w, R w (logLn fmt w)) (is : List ℕ)
    (w : World) : R w (is.foldl (fun w i =>
      if (sys env (call i) w).value ≠ 0 then logLn fmt (sys env (call i) w).world
      else (sys env (call i) w).world) w) := by
  induction is generalizing w with
  | nil => exact refl w
  | cons i is ih =>
    refine trans ?_ (ih _)
    dsimp only
    split
    · exact trans (calls i w) (logs _)
    · exact calls i w

theorem unloadAllModules_quiet (w : World) : Quiet w (unloadAllModules env w) :=
  sysmodules_rel env .refl .trans _ (fun _ _ => .sys env _) (fun _ => .logLn _) _ w

end Log

def trimmed : List UInt8 → List UInt8
  | [] => []
  | c :: cs => c :: cs.rdropWhile isSpace

def stripped (s : List UInt8) : List UInt8 := s.rdropWhile isSpace

def Blank (s : List UInt8) : Prop := s ≠ [] ∧ ∀ c ∈ s, isSpace c

theorem rdropWhile_append_all {p : UInt8 → Bool} (xs : List UInt8) {ys : List UInt8}
    (h : ∀ y ∈ ys, p y) : (xs ++ ys).rdropWhile p = xs.rdropWhile p := by
  induction ys using List.reverseRecOn with
  | nil => simp
  | append_singleton ys y ih =>
    rw [← List.append_assoc, List.rdropWhile_concat_pos _ _ _ (h y (by simp)),
      ih fun z hz => h z (by simp [hz])]

theorem trimmed_eq_stripped {s : List UInt8} (h : ¬ Blank s) : trimmed s = stripped s := by
  cases s with
  | nil => simp [trimmed, stripped]
  | cons c cs =>
    induction cs using List.reverseRecOn with
    | nil =>
      have hc : ¬ isSpace c := fun hc => h ⟨by simp, by simpa using hc⟩
      simp [trimmed, stripped, List.rdropWhile_singleton, hc]
    | append_singleton cs d ih =>
      simp only [trimmed, stripped] at ih ⊢
      rw [← List.cons_append]
      by_cases hd : isSpace d
      · rw [List.rdropWhile_concat_pos _ _ _ hd, List.rdropWhile_concat_pos _ _ _ hd]
        refine ih fun hb => h ⟨by simp, fun x hx => ?_⟩
        rw [← List.cons_append] at hx
        rcases List.mem_append.mp hx with hx | hx
        · exact hb.2 x hx
        · rwa [List.mem_singleton.mp hx]
      · rw [List.rdropWhile_concat_neg _ _ _ hd, List.rdropWhile_concat_neg _ _ _ hd]
        rfl

theorem stripped_of_blank {s : List UInt8} (h : Blank s) : stripped s = [] :=
  (List.rdropWhile_eq_nil_iff ..).mpr h.2

theorem trimmed_of_blank {c : UInt8} {cs : List UInt8} (h : Blank (c :: cs)) :
    trimmed (c :: cs) = [c] := by
  simp only [trimmed, List.cons.injEq, true_and]
  exact (List.rdropWhile_eq_nil_iff ..).mpr fun d hd => h.2 d (List.mem_cons_of_mem _ hd)

theorem trimmed_isPrefix : ∀ s : List UInt8, trimmed s <+: s
  | [] => List.prefix_rfl
  | c :: cs => (List.prefix_cons_inj c).mpr (List.rdropWhile_prefix _ cs)

theorem trimmed_length_le (s : List UInt8) : (trimmed s).length ≤ s.length :=
  (trimmed_isPrefix s).length_le

theorem rdropWhile_eq_take {p : UInt8 → Bool} {xs : List UInt8} {k : ℕ}
    (hp : ∀ j (hj : j < xs.length), k ≤ j → p xs[j])
    (hlast : k = 0 ∨ ∃ h : k - 1 < xs.length, ¬ p xs[k - 1]) : xs.rdropWhile p = xs.take k := by
  have hdrop : ∀ y ∈ xs.drop k, p y := by
    intro y hy
    obtain ⟨j, hj, rfl⟩ := List.getElem_of_mem hy
    rw [List.getElem_drop]
    exact hp _ _ (Nat.le_add_right k j)
  conv_lhs => rw [← List.take_append_drop k xs, rdropWhile_append_all _ hdrop]
  refine (List.rdropWhile_eq_self_iff ..).mpr fun hne => ?_
  have hpos : 0 < k := by
    rcases Nat.eq_zero_or_pos k with rfl | hpos
    · simp at hne
    · exact hpos
  obtain ⟨hlt, hk⟩ := hlast.resolve_left hpos.ne'
  rw [List.getLast_eq_getElem, List.getElem_take]
  simpa [show min k xs.length - 1 = k - 1 by omega] using hk

theorem trimRounds_spec {m : Mem} {a : ℕ} {c : UInt8} {cs : List UInt8}
    (h : IsCString m a (c :: cs)) :
    ∃ last, run (trimRound m a) (c :: cs).length (a + (c :: cs).length - 1) = some last ∧
      last + 1 = a + (trimmed (c :: cs)).length := by
  -- the pointer stays inside the string, and everything behind it is white space
  refine run_spec (trimRound m a)
    (I := fun e => ∃ k, e = a + k ∧ k ≤ cs.length ∧
      ∀ j (hj : j < cs.length), k ≤ j → isSpace cs[j])
    (μ := fun e => e - a) (Q := fun e => e + 1 = a + (trimmed (c :: cs)).length) ?_ ?_
    ⟨cs.length, by simp, Nat.le_refl _, fun j hj hle => by omega⟩ (by simp)
  · intro e e' hinv hb
    obtain ⟨k, rfl, hk, hall⟩ := hinv
    unfold trimRound at hb
    split_ifs at hb with hgo
    cases hb
    refine ⟨⟨k - 1, by omega, by omega, fun j hj hkj => ?_⟩, by omega⟩
    by_cases hlt : k ≤ j
    · exact hall j hj hlt
    · have hj' : k = j + 1 := by omega
      have hchar := h.char (i := k) (by simp; omega)
      subst hj'
      simpa [hchar] using hgo.2
  · intro e r hinv hb
    obtain ⟨k, rfl, hk, hall⟩ := hinv
    unfold trimRound at hb
    split_ifs at hb with hgo
    cases hb
    have hcut : cs.rdropWhile isSpace = cs.take k := by
      refine rdropWhile_eq_take hall ?_
      rcases Nat.eq_zero_or_pos k with rfl | hpos
      · exact .inl rfl
      · refine .inr ⟨by omega, fun hsp => hgo ⟨by omega, ?_⟩⟩
        have hchar := h.char (i := k) (by simp; omega)
        obtain ⟨j, rfl⟩ : ∃ j, k = j + 1 := ⟨k - 1, by omega⟩
        simpa [hchar] using hsp
    simp [trimmed, hcut]
    omega

theorem trimEnd_eq {m : Mem} {a : ℕ} {s : List UInt8} (ha : a ≠ 0) (h : IsCString m a s)
    (hs : s.length < 2 ^ 32) :
    trimEnd a m = some (a, store m (a + (trimmed s).length) [0]) := by
  cases s with
  | nil =>
    have h0 : m a = 0 := h.stop
    have hw : store m a [0] = m := by
      have hr := store_load_self m (a := a) (n := 1)
      rwa [show load m a 1 = [0] by simp [load, h0]] at hr
    rw [trimEnd, if_neg ha, if_pos h0]
    exact congrArg (fun m' => some (a, m')) hw.symm
  | cons c cs =>
    have hc : m a ≠ 0 := h.char_ne_zero (i := 0) (by simp)
    obtain ⟨last, hlast, hlen⟩ := trimRounds_spec h
    rw [trimEnd, if_neg ha, if_neg hc, strlen_eq h hs]
    change Option.bind (run (trimRound m a) _ _) _ = _
    rw [hlast, Option.bind_some, hlen]

theorem isCString_trimmed {m : Mem} {a : ℕ} {s : List UInt8} (h : IsCString m a s) :
    IsCString (store m (a + (trimmed s).length) [0]) a (trimmed s) := by
  obtain ⟨rest, hrest⟩ := trimmed_isPrefix s
  refine .of_load ?_ fun h0 => h.nonzero ((trimmed_isPrefix s).subset h0)
  rw [load_add, load_store_apart _ _ (.inl (Nat.le_refl _))]
  have hsame := load_store_same m (a := a + (trimmed s).length) [0]
  rw [show load (store m (a + (trimmed s).length) [0]) (a + (trimmed s).length) 1 = [0] from hsame]
  congr 1
  have hchars := h.chars
  rw [← hrest, List.length_append, load_add] at hchars
  exact (List.append_inj hchars (by simp)).1

theorem replaceRounds_before {m : Mem} {str n i rounds : ℕ} {target : UInt8}
    (h0 : m (str + n) = 0) (ht : target ≠ 0)
    (h : run (replaceRound m str target) rounds 0 = some (some i)) : i < n := by
  refine run_invariant (replaceRound m str target) (fun i => i ≤ n)
    (fun found => ∀ i, found = some i → i < n) ?_ ?_ (Nat.zero_le n) h i rfl
  · intro i i' hi hb
    unfold replaceRound at hb
    split_ifs at hb with h1 h2
    cases hb
    have : i ≠ n := fun he => h2 (he ▸ h0)
    omega
  · intro i r hi hb
    unfold replaceRound at hb
    split_ifs at hb with h1 h2
    · cases hb
      rintro _ ⟨⟩
      have : i ≠ n := fun he => ht (h1.symm.trans (he ▸ h0))
      omega
    · cases hb
      exact fun _ he => by cases he

theorem replaceNext_changes {m : Mem} {str n : ℕ} {target : UInt8} (c : UInt8)
    (h0 : m (str + n) = 0) (hn : n < 2 ^ 32) (ht : target ≠ 0) :
    ∃ m', replaceNext str target c m = some m' ∧ ChangesIn [(str, n)] m m' := by
  obtain ⟨found, hfound⟩ := run_total (replaceRound m str target) (fun i => i ≤ n)
    (fun i => n - i) (n := 2 ^ 32) (s := 0) (fun i i' hi hb => by
      unfold replaceRound at hb
      split_ifs at hb with h1 h2
      cases hb
      have : i ≠ n := fun he => h2 (he ▸ h0)
      omega) (Nat.zero_le n) (by simpa using hn)
  cases found with
  | none => exact ⟨m, Option.bind_eq_some_iff.mpr ⟨none, hfound, rfl⟩, .refl m⟩
  | some i =>
    have hi := replaceRounds_before h0 ht hfound
    refine ⟨_, Option.bind_eq_some_iff.mpr ⟨some i, hfound, rfl⟩,
      .store (r := (str, n)) (by simp) (Nat.le_add_right _ _) ?_⟩
    simp only [List.length_singleton]
    omega

end Patchwork.Util
