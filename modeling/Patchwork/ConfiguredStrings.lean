import Patchwork.Prx

/-!
# The configured strings

What becomes of `server_url` and `digest_key` between the configuration and the
game. A row copies as many bytes as its field has, whatever the string's length,
so the string arrives whole where it fits, and the copy stays inside the string's
buffer where that is as long as the field. The strings may lie in one buffer, and
then a row also copies what trimming has left of the strings behind its own.
-/

namespace Patchwork.ConfiguredStrings
open ByteMemory BoundedLoop Console Fs Update Util Patches Prx

/-- A string of the configuration: its address, its characters and the end of the buffer
that holds it, which may hold others. -/
structure ConfigString where
  addr : ℕ
  text : List UInt8
  stop : ℕ

structure ConfigString.In (c : ConfigString) (m : Mem) : Prop where
  chars : IsCString m c.addr c.text
  nonnull : c.addr ≠ 0
  inside : c.addr + c.text.length < c.stop
  room : c.stop < 2 ^ 32

def Held (m : Mem) (pointer : ℕ) : Option ConfigString → Prop
  | none => pointer = 0
  | some c => pointer = c.addr ∧ c.In m

def pointerTo (string : Option ConfigString) : ℕ := (string.map ConfigString.addr).getD 0

structure Configured where
  url : Option ConfigString
  digest : Option ConfigString
  joinKey : Option ConfigString

structure Configured.Read (c : Configured) (options : PatchworkConfigOptions) (m : Mem) : Prop where
  url : Held m options.serverUrl c.url
  digest : Held m options.digestKey c.digest
  joinKey : Held m options.joinKey c.joinKey

def ConfigString.cut (c : ConfigString) (m : Mem) : Mem :=
  store m (c.addr + (trimmed c.text).length) [0]

def cutAt (string : Option ConfigString) (m : Mem) : Mem :=
  match string with
  | none => m
  | some c => c.cut m

section Trim
variable (c : Configured) (options : PatchworkConfigOptions)

def Configured.trimKey (m : Mem) : Mem :=
  if options.enableJoinKey ≠ 0 then cutAt c.joinKey m else m

def Configured.trim (m : Mem) : Mem := cutAt c.digest (cutAt c.url (c.trimKey options m))

/-- The field of a row holds the string as it should, and the row's copy stays inside the
string's buffer. Without a string the field is left alone. -/
def Arrives (m m' : Mem) (q : GamePatch) : Option ConfigString → Prop
  | none => load m' q.offset q.size = load m q.offset q.size
  | some s => (IsCString m' q.offset (stripped s.text) ∨
      load m' q.offset q.size = load m q.offset q.size) ∧ s.addr + q.size ≤ s.stop

/-- The buffer is long enough for the row, and the string fits the field, is not blank, or
what the row copies is there already. -/
def Fits (m : Mem) (q : GamePatch) : Option ConfigString → Prop
  | none => True
  | some s => s.addr + q.size ≤ s.stop ∧
      ((¬ Blank s.text ∧ (stripped s.text).length ≤ q.size) ∨
        load (c.trim options m) s.addr q.size = load m q.offset q.size)

end Trim

theorem take_trimmed_eq_stripped {s : List UInt8} {n : ℕ} (hn : n ≠ 0) :
    (trimmed s).take n = stripped s ↔ ¬ Blank s ∧ (stripped s).length ≤ n := by
  by_cases hb : Blank s
  · refine iff_of_false (fun h => ?_) fun h => h.1 hb
    cases s with
    | nil => exact hb.1 rfl
    | cons c cs =>
      rw [trimmed_of_blank hb, stripped_of_blank hb, List.take_eq_nil_iff] at h
      simp [hn] at h
  · rw [trimmed_eq_stripped hb, List.take_eq_self_iff]
    exact (and_iff_right hb).symm

theorem arrives_iff_fits {c : Configured} {options : PatchworkConfigOptions} {m m' : Mem}
    {q : GamePatch} {s : ConfigString}
    (hs : IsCString (c.trim options m) s.addr (trimmed s.text)) (hn : q.size ≠ 0)
    (hcopy : load m' q.offset q.size = load (c.trim options m) s.addr q.size)
    (hstop : m' (q.offset + q.size) = 0) :
    Arrives m m' q (some s) ↔ Fits c options m q (some s) := by
  have hiff := isCString_field_iff (t := stripped s.text) hs hcopy hstop
  simp only [Arrives, Fits, hiff, take_trimmed_eq_stripped hn, hcopy]
  exact and_comm

def textRange (s : ConfigString) : ℕ × ℕ := (s.addr, s.text.length + 1)

def bufferRange (s : ConfigString) : ℕ × ℕ := (s.addr, s.stop - s.addr)

def Configured.texts (c : Configured) : List (ℕ × ℕ) :=
  (c.url.toList ++ c.digest.toList ++ c.joinKey.toList).map textRange

def Configured.buffers (c : Configured) : List (ℕ × ℕ) :=
  (c.url.toList ++ c.digest.toList).map bufferRange

def keyState (options : PatchworkConfigOptions) : String :=
  if options.enableJoinKey = 0 then "is%20disabled"
  else if options.joinKey ≠ 0 then "has%20been%20set"
  else "has%20been%20randomized"

section Places
variable (S : Setting) (options : PatchworkConfigOptions) (c : Configured)

def keyPlaces : List (ℕ × ℕ) := [(S.frame.joinKeyHash, 32), (S.globals.networkKey, 4)]

def pointerPlaces : List (ℕ × ℕ) := [(S.globals.serverURL, 4), (S.globals.serverDigest, 4)]

def hookPlaces : List (ℕ × ℕ) := [
  (S.globals.notificationEnableInstruction, 4), (S.globals.scriptHookInstruction, 4)]

def messageRange : ℕ × ℕ :=
  (S.frame.msgBuf, (successMessage S (keyState options)).length + 1)

def announcePlaces : List (ℕ × ℕ) := [(S.frame.gameNumStr, 2), (S.frame.userAgent, 64),
  (S.globals.userAgent, 4), messageRange S options]

/-- The ranges that `start` writes besides the strings and their pointers. -/
def scratch : List (ℕ × ℕ) := keyPlaces S ++ hookPlaces S ++ announcePlaces S options

def ownPlaces : List (ℕ × ℕ) := c.texts ++ pointerPlaces S ++ scratch S options

def gamePlaces (g : GameNumber) : List (ℕ × ℕ) :=
  (targets g).map (fun t => (t.1, t.2 + 1)) ++ [
    (lbp1UserAgentOffset + 15, 1), (lbp2UserAgentOffset + 18, 1), (lbp3UserAgentOffset + 18, 1),
    (lbp3JPUserAgentOffset + 18, 1)]

def Clear (rs ss : List (ℕ × ℕ)) : Prop := ∀ r ∈ rs, ∀ s ∈ ss, Apart r.1 r.2 s.1 s.2

instance (rs ss : List (ℕ × ℕ)) : Decidable (Clear rs ss) :=
  inferInstanceAs (Decidable (∀ r ∈ rs, ∀ s ∈ ss, Apart r.1 r.2 s.1 s.2))

/-- The strings do not overlap each other, and neither their buffers nor the game overlap what
is written besides them. -/
structure Placed (g : GameNumber) : Prop where
  texts : c.texts.Pairwise fun r s => Apart r.1 r.2 s.1 s.2
  pointers : Apart S.globals.serverURL 4 S.globals.serverDigest 4
  cells : Clear (pointerPlaces S) (c.texts ++ scratch S options)
  buffers : Clear c.buffers (pointerPlaces S ++ scratch S options)
  game : Clear (gamePlaces g) (c.buffers ++ ownPlaces S options c)
  message : S.frame.msgBuf + (messageRange S options).2 ≤ 2 ^ 32

structure Fresh (m : Mem) : Prop where
  url : load32 m S.globals.serverURL = 0
  digest : load32 m S.globals.serverDigest = 0

end Places

theorem Configured.Read.in_of_mem {c : Configured} {options : PatchworkConfigOptions} {m : Mem}
    (read : c.Read options m) {s : ConfigString} (hs : s ∈ c.url.toList ++ c.digest.toList) :
    s.In m := by
  rcases List.mem_append.mp hs with hs | hs
  · have held := read.url
    rw [Option.mem_toList.mp hs] at held
    exact held.2
  · have held := read.digest
    rw [Option.mem_toList.mp hs] at held
    exact held.2

section Strings
variable {rs : List (ℕ × ℕ)} {m m' : Mem} {string : Option ConfigString} {pointer cell : ℕ}

theorem Clear.symm {rs ss : List (ℕ × ℕ)} (h : Clear rs ss) : Clear ss rs :=
  fun s hs r hr => (h r hr s hs).symm

theorem ConfigString.In.changes {s : ConfigString} (h : s.In m) (hm : ChangesIn rs m m')
    (hr : ∀ r ∈ rs, Apart s.addr (s.text.length + 1) r.1 r.2) : s.In m' :=
  ⟨h.chars.congr (hm.load hr), h.nonnull, h.inside, h.room⟩

theorem Held.changes (h : Held m pointer string) (hm : ChangesIn rs m m')
    (hr : Clear (string.toList.map textRange) rs) : Held m' pointer string := by
  cases string with
  | none => exact h
  | some s => exact ⟨h.1, h.2.changes hm (hr (textRange s) (by simp))⟩

theorem Configured.Read.changes {c : Configured} {options : PatchworkConfigOptions}
    (read : c.Read options m) (hm : ChangesIn rs m m') (hr : Clear c.texts rs) :
    c.Read options m' := by
  refine ⟨read.url.changes hm ?_, read.digest.changes hm ?_, read.joinKey.changes hm ?_⟩
  all_goals
    intro r hmem
    refine hr r ?_
    simp only [Configured.texts, List.map_append, List.mem_append]
    tauto

theorem cut_changes {s : ConfigString} (hs : textRange s ∈ rs) (m : Mem) :
    ChangesIn rs m (s.cut m) := by
  have hlen := trimmed_length_le s.text
  refine .store hs (Nat.le_add_right _ _) ?_
  simp only [textRange, List.length_singleton]
  omega

theorem cutAt_changes (string : Option ConfigString) (m : Mem) :
    ChangesIn (string.toList.map textRange) m (cutAt string m) := by
  cases string with
  | none => exact .refl m
  | some s => exact cut_changes (by simp) m

theorem cutAt_congr (string : Option ConfigString) (h : ChangesIn rs m m') :
    ChangesIn rs (cutAt string m) (cutAt string m') := by
  cases string with
  | none => exact h
  | some s => exact h.store_congr _

theorem trimKey_changes (c : Configured) (options : PatchworkConfigOptions) (m : Mem) :
    ChangesIn (c.joinKey.toList.map textRange) m (c.trimKey options m) := by
  unfold Configured.trimKey
  split_ifs
  · exact cutAt_changes c.joinKey m
  · exact .refl m

theorem trim_changes (c : Configured) (options : PatchworkConfigOptions) (m : Mem) :
    ChangesIn c.texts m (c.trim options m) := by
  refine ((trimKey_changes c options m).mono ?_).trans
    (((cutAt_changes c.url _).mono ?_).trans ((cutAt_changes c.digest _).mono ?_))
  all_goals
    intro r hr
    simp only [Configured.texts, List.map_append, List.mem_append]
    tauto

theorem trim_congr (c : Configured) (options : PatchworkConfigOptions) (h : ChangesIn rs m m') :
    ChangesIn rs (c.trim options m) (c.trim options m') := by
  refine cutAt_congr _ (cutAt_congr _ ?_)
  unfold Configured.trimKey
  split_ifs
  · exact cutAt_congr _ h
  · exact h

def pointed (cell : ℕ) : Option ConfigString → Mem → Mem
  | none, m => m
  | some s, m => store32 cell s.addr (s.cut m)

theorem setPointer_eq (cell : ℕ) (fmt : String) {w : World} (h : Held w.mem pointer string) :
    ∃ w', setPointer cell pointer fmt w = some w' ∧ w'.mem = pointed cell string w.mem := by
  cases string with
  | none =>
    obtain rfl : pointer = 0 := h
    exact ⟨w, by simp [setPointer], rfl⟩
  | some s =>
    obtain ⟨rfl, hs⟩ := h
    have hin := hs.inside
    have hroom := hs.room
    refine ⟨_, (if_pos hs.nonnull).trans (Option.bind_eq_some_iff.mpr
      ⟨_, trimEnd_eq hs.nonnull hs.chars (by omega), rfl⟩), rfl⟩

theorem pointed_trims (hcell : (cell, 4) ∈ rs) (h : ChangesIn rs m m') :
    ChangesIn rs (cutAt string m) (pointed cell string m') := by
  cases string with
  | none => exact h
  | some s =>
    exact ChangesIn.trans (h.store_congr _) (.store hcell (Nat.le_refl _) (Nat.le_refl _))

theorem pointed_changes (cell : ℕ) (string : Option ConfigString) (m : Mem) :
    ChangesIn (string.toList.map textRange ++ [(cell, 4)]) m (pointed cell string m) :=
  ((cutAt_changes string m).mono (List.subset_append_left ..)).trans
    (pointed_trims (by simp) (.refl m))

theorem load32_pointed (h : Held m pointer string) (hfresh : load32 m' cell = 0) :
    load32 (pointed cell string m') cell = pointerTo string := by
  cases string with
  | none => exact hfresh
  | some s =>
    have hin := h.2.inside
    have hroom := h.2.room
    exact load32_store _ (by omega)

end Strings

section Steps
variable (S : Setting) (options : PatchworkConfigOptions) (c : Configured) {w : World}

def keyText : List UInt8 :=
  match c.joinKey with
  | none => be64 (S.nsec + S.sec)
  | some k => trimmed k.text

def keySet (m : Mem) : Mem :=
  if options.enableJoinKey ≠ 0 then
    store32 S.globals.networkKey S.frame.joinKeyHash
      (store (cutAt c.joinKey m) S.frame.joinKeyHash (S.env.sha256 (keyText S c)).toList)
  else m

def stringsSet (m : Mem) : Mem :=
  pointed S.globals.serverDigest c.digest
    (pointed S.globals.serverURL c.url (keySet S options c m))

theorem copyHashedJoinKey_eq {m : Mem} (h : Held m options.joinKey c.joinKey) :
    ∃ randomized,
      copyHashedJoinKey S.env.sha256 S.sec S.nsec S.frame.joinKeyHash options.joinKey m =
        some (randomized, store (cutAt c.joinKey m) S.frame.joinKeyHash
          (S.env.sha256 (keyText S c)).toList) := by
  unfold keyText
  cases hk : c.joinKey with
  | none =>
    rw [hk] at h
    have hnull : options.joinKey = 0 := h
    exact ⟨1, if_neg (by simp [hnull])⟩
  | some k =>
    rw [hk] at h
    obtain ⟨haddr, hin⟩ := h
    have hinside := hin.inside
    have hroom := hin.room
    have hlen := trimmed_length_le k.text
    have htext := isCString_trimmed hin.chars
    refine ⟨0, ?_⟩
    rw [haddr]
    refine (if_pos hin.nonnull).trans (Option.bind_eq_some_iff.mpr
      ⟨_, trimEnd_eq hin.nonnull hin.chars (by omega), Option.bind_eq_some_iff.mpr
        ⟨_, strlen_eq htext (by omega), ?_⟩⟩)
    dsimp only
    rw [htext.chars]
    rfl

theorem setJoinKey_eq (h : Held w.mem options.joinKey c.joinKey) :
    ∃ r, setJoinKey S options w = some r ∧ r.world.mem = keySet S options c w.mem := by
  unfold keySet
  by_cases hk : options.enableJoinKey ≠ 0
  · obtain ⟨randomized, hcopy⟩ := copyHashedJoinKey_eq S options c h
    rw [if_pos hk]
    exact ⟨_, (if_pos hk).trans (Option.bind_eq_some_iff.mpr ⟨_, hcopy, rfl⟩), rfl⟩
  · rw [if_neg hk]
    exact ⟨⟨0, w⟩, if_neg hk, rfl⟩

theorem keySet_trims (m : Mem) :
    ChangesIn (keyPlaces S) (c.trimKey options m) (keySet S options c m) := by
  unfold keySet Configured.trimKey
  split_ifs
  · exact ChangesIn.trans
      (.store (r := (S.frame.joinKeyHash, 32)) (by simp [keyPlaces]) (Nat.le_refl _) (by simp))
      (.store (r := (S.globals.networkKey, 4)) (by simp [keyPlaces]) (Nat.le_refl _)
        (Nat.le_refl _))
  · exact .refl m

theorem keySet_changes (m : Mem) : ChangesIn (c.joinKey.toList.map textRange ++ keyPlaces S) m
    (keySet S options c m) :=
  ((trimKey_changes c options m).mono (List.subset_append_left ..)).trans
    ((keySet_trims S options c m).mono (List.subset_append_right ..))

theorem stringsSet_trims (m : Mem) :
    ChangesIn (keyPlaces S ++ pointerPlaces S) (c.trim options m) (stringsSet S options c m) := by
  have hkey := (keySet_trims S options c m).mono (List.subset_append_left _ (pointerPlaces S))
  exact pointed_trims (by simp [pointerPlaces]) (pointed_trims (by simp [pointerPlaces]) hkey)

theorem setJoinKey_message {r : Called ℤ} (h : setJoinKey S options w = some r) :
    message S options r.value = successMessage S (keyState options) := by
  unfold setJoinKey at h
  unfold message keyState
  split_ifs at h with hkey
  · obtain ⟨⟨randomized, m⟩, hcopy, hr⟩ := Option.bind_eq_some_iff.mp h
    cases hr
    unfold copyHashedJoinKey at hcopy
    split_ifs at hcopy with hjoin
    · obtain ⟨trimmed, -, hcopy⟩ := Option.bind_eq_some_iff.mp hcopy
      obtain ⟨length, -, hcopy⟩ := Option.bind_eq_some_iff.mp hcopy
      cases hcopy
      simp [hkey, hjoin]
    · cases hcopy
      simp [hkey, hjoin]
  · cases h
    rw [if_neg hkey, if_pos (not_not.mp hkey)]

theorem selectGame_changes (g : GameNumber) (m : Mem) :
    ChangesIn (hookPlaces S) m (selectGame S g m) := by
  have hnotify (v : ℕ) (m : Mem) : ChangesIn (hookPlaces S) m
      (store32 S.globals.notificationEnableInstruction v m) :=
    .store (r := (S.globals.notificationEnableInstruction, 4)) (by simp [hookPlaces])
      (Nat.le_refl _) (Nat.le_refl _)
  have hhook (v : ℕ) (m : Mem) : ChangesIn (hookPlaces S) m
      (store32 S.globals.scriptHookInstruction v m) :=
    .store (r := (S.globals.scriptHookInstruction, 4)) (by simp [hookPlaces])
      (Nat.le_refl _) (Nat.le_refl _)
  cases g with
  | unknown => exact .refl m
  | lbp1 => exact hhook _ m
  | lbp2 => exact (hnotify _ m).trans (hhook _ _)
  | lbp3 => exact (hnotify _ m).trans (hhook _ _)
  | lbp3JP => exact (hnotify _ m).trans (hhook _ _)

def agentSet (g : GameNumber) (m : Mem) : Mem :=
  store32 S.globals.userAgent S.frame.userAgent
    (snprintf S.frame.userAgent 64 (userAgentText S options (gameDigit g))
      (store m S.frame.gameNumStr [gameDigit g, 0]))

theorem agentSet_changes (g : GameNumber) (m : Mem) :
    ChangesIn (announcePlaces S options) m (agentSet S options g m) := by
  refine ChangesIn.trans (ChangesIn.trans
    (.store (r := (S.frame.gameNumStr, 2)) ?_ (Nat.le_refl _) (Nat.le_refl _))
    (.store (r := (S.frame.userAgent, 64)) ?_ (Nat.le_refl _) ?_))
    (.store (r := (S.globals.userAgent, 4)) ?_ (Nat.le_refl _) (Nat.le_refl _))
  · simp [announcePlaces]
  · simp [announcePlaces]
  · simp only [List.length_append, List.length_take, List.length_singleton]
    omega
  · simp [announcePlaces]

theorem announce_changes {randomized : ℤ} (g : GameNumber)
    (hmessage : message S options randomized = successMessage S (keyState options))
    (hroom : S.frame.msgBuf + (messageRange S options).2 ≤ 2 ^ 32) :
    ∃ w', announce S options randomized g w = some w' ∧
      ChangesIn [messageRange S options] (agentSet S options g w.mem) w'.mem := by
  let text := successMessage S (keyState options)
  have hlen : (messageRange S options).2 = text.length + 1 := rfl
  let m₃ := agentSet S options g w.mem
  let m₄ := store m₃ S.frame.msgBuf (text ++ [0])
  have h₄ : ChangesIn [messageRange S options] m₃ m₄ :=
    .store (r := messageRange S options) (by simp) (Nat.le_refl _) (by simp [messageRange, text])
  have hend : m₄ (S.frame.msgBuf + text.length) = 0 := store_last _ _ _
  have hdigit : store w.mem S.frame.gameNumStr [gameDigit g, 0] S.frame.gameNumStr =
      gameDigit g := store_head _ _ _
  obtain ⟨m₅, hm₅, hreplaced⟩ := replaceNext_changes (m₄ S.frame.gameNumStr) hend (by omega)
    (show (88 : UInt8) ≠ 0 by decide)
  have hend₅ : m₅ (S.frame.msgBuf + text.length) = 0 := by
    rw [hreplaced _ (by simp), hend]
  obtain ⟨length, hlength⟩ := strlen_total hend₅ (by omega)
  refine ⟨_, Option.bind_eq_some_iff.mpr ⟨m₅, ?_, Option.bind_eq_some_iff.mpr
    ⟨length, hlength, rfl⟩⟩, ?_⟩
  · rw [hmessage, uintToStr_gameNumber, List.singleton_append, hdigit]
    exact hm₅
  · rw [writeFile_mem]
    refine h₄.trans fun x hx => hreplaced x fun r hr => ?_
    obtain rfl := List.mem_singleton.mp hr
    have hfirst : (messageRange S options).1 = S.frame.msgBuf := rfl
    have := hx (messageRange S options) (by simp)
    omega

end Steps

inductive StringRow (G : Globals) (c : Configured) : GamePatch → Option ConfigString → Prop
  | url {q : GamePatch} (type : q.type = .indirect) (source : q.source = G.serverURL) :
      StringRow G c q c.url
  | digest {q : GamePatch} (type : q.type = .indirect) (source : q.source = G.serverDigest) :
      StringRow G c q c.digest

theorem indirect_rows (G : Globals) (g : GameNumber) {q : GamePatch} (hq : q ∈ patches G g)
    (ht : q.type = .indirect) : (q.source = G.networkKey ∧ q.size = lbpNetworkKeySize) ∨
      (q.source = G.userAgent ∧ q.size = lbpUserAgentLength) ∨
      (q.source = G.serverURL ∧ q.size = lbpPs3ProdUrlLength) ∨
      (q.source = G.serverDigest ∧ q.size = lbpDigestLength) := by
  cases g <;>
    simp only [patches, lbp1Patches, lbp2Patches, lbp3Patches, lbp3JPPatches, List.mem_cons,
      List.not_mem_nil, or_false] at hq <;>
    rcases hq with rfl | rfl | rfl | rfl | rfl | rfl | rfl | rfl | rfl | rfl <;>
    simp at ht ⊢

section Run
variable {S : Setting} {options : PatchworkConfigOptions} {c : Configured} {w : World}
  {g : GameNumber}

theorem gamePlaces_target {q : GamePatch} (hq : q ∈ patches S.globals g) :
    (q.offset, q.size + 1) ∈ gamePlaces g := by
  refine List.mem_append_left _ (List.mem_map.mpr ⟨(q.offset, q.size), ?_, rfl⟩)
  rw [← map_patches S.globals]
  exact List.mem_map_of_mem hq

theorem getLBPGameNumber_congr {m m' : Mem}
    (h : ∀ r ∈ gamePlaces g, load m' r.1 r.2 = load m r.1 r.2) :
    getLBPGameNumber m' = getLBPGameNumber m := by
  have hbyte {a : ℕ} (ha : (a, 1) ∈ gamePlaces g) : m' a = m a := by
    simpa [load] using h (a, 1) ha
  unfold getLBPGameNumber
  rw [hbyte (by simp [gamePlaces]), hbyte (by simp [gamePlaces]), hbyte (by simp [gamePlaces]),
    hbyte (by simp [gamePlaces])]

theorem stringsSet_own (m : Mem) :
    ChangesIn (ownPlaces S options c) m (stringsSet S options c m) := by
  refine ((trim_changes c options m).mono ?_).trans ((stringsSet_trims S options c m).mono ?_)
  all_goals
    intro r hr
    simp only [ownPlaces, scratch, List.mem_append] at hr ⊢
    tauto

theorem Placed.gameMemory (placed : Placed S options c g) {m m' : Mem}
    (h : ChangesIn (ownPlaces S options c) m m') :
    ∀ r ∈ gamePlaces g, load m' r.1 r.2 = load m r.1 r.2 := fun r hr =>
  h.load fun s hs => placed.game r hr s (List.mem_append_right _ hs)

theorem Placed.text (placed : Placed S options c g) {s : ConfigString} {m : Mem} (hs : s.In m)
    (hmem : s ∈ c.url.toList ++ c.digest.toList) :
    ∀ r ∈ pointerPlaces S ++ scratch S options, Apart s.addr (s.text.length + 1) r.1 r.2 := by
  intro r hr
  have hin := hs.inside
  refine (placed.buffers _ (List.mem_map_of_mem hmem) r hr).mono ?_ (Nat.le_refl _)
  simp only [bufferRange]
  omega

theorem Placed.texts_apart (placed : Placed S options c g) :
    Clear (c.url.toList.map textRange) (c.joinKey.toList.map textRange) ∧
    Clear (c.digest.toList.map textRange) (c.joinKey.toList.map textRange) ∧
    Clear (c.url.toList.map textRange) (c.digest.toList.map textRange) := by
  have h := placed.texts
  rw [Configured.texts, List.map_append, List.map_append] at h
  obtain ⟨hstrings, -, hkey⟩ := List.pairwise_append.mp h
  exact ⟨fun r hr s hs => hkey r (List.mem_append_left _ hr) s hs,
    fun r hr s hs => hkey r (List.mem_append_right _ hr) s hs,
    (List.pairwise_append.mp hstrings).2.2⟩

theorem Placed.string_clear (placed : Placed S options c g) {m : Mem} {pointer : ℕ}
    {string : Option ConfigString} (h : Held m pointer string)
    (hmem : string = c.url ∨ string = c.digest) :
    Clear (string.toList.map textRange) (pointerPlaces S ++ scratch S options) := by
  intro r hr
  obtain ⟨s, hs, rfl⟩ := List.mem_map.mp hr
  obtain rfl := Option.mem_toList.mp hs
  refine placed.text h.2 ?_
  rcases hmem with he | he <;> simp [← he]

theorem Placed.held (placed : Placed S options c g) {m : Mem} (read : c.Read options m) :
    Held (keySet S options c m) options.serverUrl c.url ∧
      Held (pointed S.globals.serverURL c.url (keySet S options c m)) options.digestKey
        c.digest := by
  obtain ⟨hurlKey, hdigestKey, hstrings⟩ := placed.texts_apart
  have hurlClear := placed.string_clear read.url (.inl rfl)
  have hdigestClear := placed.string_clear read.digest (.inr rfl)
  have hkey {rs : List (ℕ × ℕ)} (htext : Clear rs (c.joinKey.toList.map textRange))
      (hclear : Clear rs (pointerPlaces S ++ scratch S options)) :
      Clear rs (c.joinKey.toList.map textRange ++ keyPlaces S) := fun r hr s hs =>
    (List.mem_append.mp hs).elim (htext r hr s) fun hs => hclear r hr s (by simp [scratch, hs])
  refine ⟨read.url.changes (keySet_changes S options c m) (hkey hurlKey hurlClear), ?_⟩
  refine (read.digest.changes (keySet_changes S options c m)
    (hkey hdigestKey hdigestClear)).changes (pointed_changes _ _ _) fun r hr s hs => ?_
  rcases List.mem_append.mp hs with hs | hs
  · exact hstrings.symm r hr s hs
  · obtain rfl := List.mem_singleton.mp hs
    exact hdigestClear r hr _ (by simp [pointerPlaces])

theorem setup_steps (read : c.Read options w.mem) (placed : Placed S options c g)
    (game : getLBPGameNumber w.mem = g) :
    ∃ r w₃, setJoinKey S options w = some r ∧ setServer S options r.world = some w₃ ∧
      w₃.mem = stringsSet S options c w.mem ∧ getLBPGameNumber w₃.mem = g := by
  obtain ⟨hurl, hdigest⟩ := placed.held read
  obtain ⟨r, hr, hmem⟩ := setJoinKey_eq S options c read.joinKey
  rw [← hmem] at hurl hdigest
  obtain ⟨w₂, hw₂, hmem₂⟩ := setPointer_eq S.globals.serverURL "Server URL: %s" hurl
  rw [← hmem₂] at hdigest
  obtain ⟨w₃, hw₃, hmem₃⟩ := setPointer_eq S.globals.serverDigest "Digest Key: %s" hdigest
  have hset : w₃.mem = stringsSet S options c w.mem := by rw [hmem₃, hmem₂, hmem, stringsSet]
  refine ⟨r, w₃, hr, Option.bind_eq_some_iff.mpr ⟨w₂, hw₂, hw₃⟩, hset, ?_⟩
  rw [hset, ← game]
  exact getLBPGameNumber_congr (placed.gameMemory (stringsSet_own w.mem))

def Prepared (S : Setting) (options : PatchworkConfigOptions) (c : Configured) (g : GameNumber)
    (m₀ m : Mem) : Prop :=
  ChangesIn [messageRange S options]
    (agentSet S options g (selectGame S g (stringsSet S options c m₀))) m

theorem patchGame_steps (read : c.Read options w.mem) (placed : Placed S options c g)
    (game : getLBPGameNumber w.mem = g) (known : g ≠ .unknown) :
    ∃ w₅, patchGame S options w = some (applyGamePatches (patches S.globals g) w₅) ∧
      Prepared S options c g w.mem w₅.mem := by
  obtain ⟨r, w₃, hr, hw₃, hset, hgame₃⟩ := setup_steps read placed game
  obtain ⟨w₅, hw₅, hannounce⟩ := announce_changes S options
    (w := { w₃ with mem := selectGame S g w₃.mem }) g (setJoinKey_message S options hr)
      placed.message
  refine ⟨w₅, ?_, ?_⟩
  · refine Option.bind_eq_some_iff.mpr ⟨r, hr, Option.bind_eq_some_iff.mpr ⟨w₃, hw₃, ?_⟩⟩
    dsimp only
    rw [hgame₃, if_neg known]
    exact Option.bind_eq_some_iff.mpr ⟨w₅, hw₅, rfl⟩
  · dsimp only at hannounce
    rwa [hset] at hannounce

theorem patchGame_unknown (read : c.Read options w.mem) (placed : Placed S options c .unknown)
    (game : getLBPGameNumber w.mem = .unknown) :
    ∃ w', patchGame S options w = some w' ∧ ChangesIn (ownPlaces S options c) w.mem w'.mem := by
  obtain ⟨r, w₃, hr, hw₃, hset, hgame₃⟩ := setup_steps read placed game
  refine ⟨errorDialog "Failed to detect game, your online is not safe!"
    { w₃ with mem := selectGame S .unknown w₃.mem }, ?_, ?_⟩
  · refine Option.bind_eq_some_iff.mpr ⟨r, hr, Option.bind_eq_some_iff.mpr ⟨w₃, hw₃, ?_⟩⟩
    dsimp only
    rw [hgame₃, if_pos rfl]
  · have hown : ChangesIn (ownPlaces S options c) w.mem (stringsSet S options c w.mem) :=
      stringsSet_own w.mem
    rwa [← hset] at hown

section Prepared
variable {m₀ m : Mem}

theorem Prepared.announced (prepared : Prepared S options c g m₀ m) :
    ChangesIn (hookPlaces S ++ announcePlaces S options) (stringsSet S options c m₀) m :=
  ((selectGame_changes S g _).mono (List.subset_append_left ..)).trans
    (((agentSet_changes S options g _).mono (List.subset_append_right ..)).trans
      (prepared.mono (by simp [announcePlaces])))

theorem Prepared.trims (prepared : Prepared S options c g m₀ m) :
    ChangesIn (pointerPlaces S ++ scratch S options) (c.trim options m₀) m := by
  refine ((stringsSet_trims S options c m₀).mono ?_).trans (prepared.announced.mono ?_)
  all_goals
    intro r hr
    simp only [scratch, List.mem_append] at hr ⊢
    tauto

theorem Prepared.own (prepared : Prepared S options c g m₀ m) :
    ChangesIn (ownPlaces S options c) m₀ m := by
  refine ((trim_changes c options m₀).mono ?_).trans (prepared.trims.mono ?_)
  all_goals
    intro r hr
    simp only [ownPlaces, List.mem_append] at hr ⊢
    tauto

theorem Prepared.pointers (prepared : Prepared S options c g m₀ m) (read : c.Read options m₀)
    (placed : Placed S options c g) (fresh : Fresh S m₀) :
    load32 m S.globals.serverURL = pointerTo c.url ∧
      load32 m S.globals.serverDigest = pointerTo c.digest := by
  obtain ⟨hurl, hdigest⟩ := placed.held read
  have hcell {a : ℕ} {rs : List (ℕ × ℕ)} {m m' : Mem} (h : ChangesIn rs m m')
      (ha : (a, 4) ∈ pointerPlaces S) (hrs : ∀ r ∈ rs, r ∈ c.texts ++ scratch S options) :
      load32 m' a = load32 m a := by
    rw [load32, load32, h.load fun r hr => placed.cells (a, 4) ha r (hrs r hr)]
  have hurlCell : (S.globals.serverURL, 4) ∈ pointerPlaces S := by simp [pointerPlaces]
  have hdigestCell : (S.globals.serverDigest, 4) ∈ pointerPlaces S := by simp [pointerPlaces]
  have hlater {a : ℕ} (ha : (a, 4) ∈ pointerPlaces S) :
      load32 m a = load32 (stringsSet S options c m₀) a :=
    hcell prepared.announced ha (by simp +contextual [scratch])
  have hkey {a : ℕ} (ha : (a, 4) ∈ pointerPlaces S) :
      load32 (keySet S options c m₀) a = load32 m₀ a :=
    hcell (keySet_changes S options c m₀) ha (by
      simp +contextual [scratch, Configured.texts, or_imp])
  have hapart := placed.pointers
  constructor
  · have hsame : load32 (stringsSet S options c m₀) S.globals.serverURL =
        load32 (pointed S.globals.serverURL c.url (keySet S options c m₀)) S.globals.serverURL := by
      refine congrArg ofBe32 ((pointed_changes _ _ _).load fun r hr => ?_)
      rcases List.mem_append.mp hr with hr | hr
      · exact placed.cells _ hurlCell r (by simp_all [Configured.texts])
      · obtain rfl := List.mem_singleton.mp hr
        exact hapart
    rw [hlater hurlCell, hsame, load32_pointed hurl ((hkey hurlCell).trans fresh.url)]
  · have hsame : load32 (pointed S.globals.serverURL c.url (keySet S options c m₀))
        S.globals.serverDigest = load32 (keySet S options c m₀) S.globals.serverDigest := by
      refine congrArg ofBe32 ((pointed_changes _ _ _).load fun r hr => ?_)
      rcases List.mem_append.mp hr with hr | hr
      · exact placed.cells _ hdigestCell r (by simp_all [Configured.texts])
      · obtain rfl := List.mem_singleton.mp hr
        exact hapart.symm
    rw [hlater hdigestCell]
    exact load32_pointed hdigest (hsame.trans ((hkey hdigestCell).trans fresh.digest))

end Prepared

theorem isCString_cutAt {m : Mem} {s : ConfigString} {t : List UInt8}
    (string : Option ConfigString) (h : IsCString m s.addr t) (ht : t.length ≤ s.text.length)
    (hclear : ∀ r ∈ string.toList.map textRange, Apart s.addr (s.text.length + 1) r.1 r.2) :
    IsCString (cutAt string m) s.addr t :=
  h.congr ((cutAt_changes string m).load fun r hr =>
    (hclear r hr).mono (Nat.succ_le_succ ht) (Nat.le_refl _))

theorem Placed.isCString_trim (placed : Placed S options c g) {m : Mem}
    {string : Option ConfigString} (hmem : string = c.url ∨ string = c.digest) {s : ConfigString}
    (hs : string = some s) (hin : s.In m) :
    IsCString (c.trim options m) s.addr (trimmed s.text) := by
  obtain ⟨hurlKey, hdigestKey, hstrings⟩ := placed.texts_apart
  have hlen := trimmed_length_le s.text
  have hkey (hclear : ∀ r ∈ c.joinKey.toList.map textRange,
      Apart s.addr (s.text.length + 1) r.1 r.2) :
      IsCString (c.trimKey options m) s.addr s.text :=
    hin.chars.congr ((trimKey_changes c options m).load hclear)
  unfold Configured.trim
  rcases hmem with rfl | rfl
  · have hmem : textRange s ∈ c.url.toList.map textRange := by simp [hs]
    refine isCString_cutAt c.digest ?_ hlen (hstrings _ hmem)
    rw [hs]
    exact isCString_trimmed (hkey (hurlKey _ hmem))
  · have hmem : textRange s ∈ c.digest.toList.map textRange := by simp [hs]
    rw [hs]
    exact isCString_trimmed (isCString_cutAt c.url (hkey (hdigestKey _ hmem)) (Nat.le_refl _)
      (hstrings.symm _ hmem))

theorem Prepared.arrives_iff {m₀ : Mem} (prepared : Prepared S options c g m₀ w.mem)
    (placed : Placed S options c g) {q : GamePatch} (hq : q ∈ patches S.globals g)
    (ht : q.type = .indirect) (hn : q.size ≠ 0) {string : Option ConfigString}
    (hmem : string = c.url ∨ string = c.digest)
    (hpointer : load32 w.mem q.source = pointerTo string)
    (hcell : (q.source, 4) ∈ pointerPlaces S) (hin : ∀ s, string = some s → s.In m₀)
    (hstop : m₀ (q.offset + q.size) = 0) :
    Arrives m₀ (applyGamePatches (patches S.globals g) w).mem q string ↔
      Fits c options m₀ q string := by
  have spaced := patches_spaced S.globals g
  have hgame := placed.gameMemory prepared.own _ (gamePlaces_target hq)
  have hclear {r : ℕ × ℕ} (hr : r ∈ c.buffers ++ ownPlaces S options c) :
      ∀ p ∈ patches S.globals g, Apart r.1 r.2 p.offset p.size := fun p hp =>
    (placed.game _ (gamePlaces_target hp) r hr).symm.mono (Nat.le_refl _) (Nat.le_succ _)
  have hcells := hclear (r := (q.source, 4)) (by simp [ownPlaces, hcell])
  have horigin : origin w.mem q = pointerTo string := by rw [origin, ht, ← hpointer]
  have hend : (applyGamePatches (patches S.globals g) w).mem (q.offset + q.size) = 0 := by
    have hsame := congrArg (fun l => l[q.size]?) hgame
    rw [after_target spaced hq]
    simpa [load, hstop] using hsame
  have hload (h : Undisturbed w.mem (patches S.globals g) q) :=
    load_target spaced (patches_offset_ne_zero S.globals g) hq h
  cases string with
  | none =>
    have h0 : origin w.mem q = 0 := horigin
    refine iff_of_true ?_ trivial
    rw [Arrives, hload ⟨fun _ => hcells, fun hne => absurd h0 hne⟩, delivered, if_pos h0,
      ← load_take _ (Nat.le_succ q.size), hgame, load_take _ (Nat.le_succ q.size)]
  | some s =>
    have hs := hin s rfl
    have h0 : origin w.mem q = s.addr := horigin
    have hbuffer : bufferRange s ∈ c.buffers := by
      refine List.mem_map_of_mem ?_
      rcases hmem with he | he <;> simp [← he]
    -- a buffer that is too short meets neither side, whatever lies behind it
    by_cases hroom : s.addr + q.size ≤ s.stop
    · have hle : q.size ≤ (bufferRange s).2 := Nat.le_sub_of_add_le' hroom
      refine arrives_iff_fits (placed.isCString_trim hmem rfl hs) hn ?_ hend
      rw [hload ⟨fun _ => hcells, fun _ p hp =>
          h0 ▸ (hclear (List.mem_append_left _ hbuffer) p hp).mono hle (Nat.le_refl _)⟩,
        delivered, if_neg (h0 ▸ hs.nonnull), h0]
      exact prepared.trims.load fun r hr =>
        (placed.buffers _ hbuffer r hr).mono hle (Nat.le_refl _)
    · exact iff_of_false (fun h => hroom h.2) fun h => hroom h.1

theorem Placed.source_size_ne_zero (placed : Placed S options c g) {q : GamePatch}
    (hq : q ∈ patches S.globals g) (ht : q.type = .indirect)
    (hcell : (q.source, 4) ∈ pointerPlaces S) : q.size ≠ 0 := by
  have hne {a : ℕ} (ha : (a, 4) ∈ scratch S options) : q.source ≠ a := by
    have hapart := placed.cells _ hcell (a, 4) (List.mem_append_right _ ha)
    unfold Apart at hapart
    omega
  have hkey := hne (a := S.globals.networkKey) (by simp [scratch, keyPlaces])
  have hagent := hne (a := S.globals.userAgent) (by simp [scratch, announcePlaces])
  rcases indirect_rows S.globals g hq ht with h | h | h | h
  · exact absurd h.1 hkey
  · exact absurd h.1 hagent
  · simp [h.2, lbpPs3ProdUrlLength]
  · simp [h.2, lbpDigestLength]

theorem start_patchGame {n : ℕ} {argp : Option PatchworkLaunchArgs} {w₁ w₂ : World}
    (hconf : configure S (if n > 0 then argp else none)
      (launch S (if n > 0 then argp else none) w) = some ⟨options, w₁⟩)
    (hpatch : patchGame S options w₁ = some w₂) :
    ∃ w', start S n argp w = some w' ∧ w'.mem = w₂.mem :=
  ⟨_, Option.bind_eq_some_iff.mpr ⟨_, hconf, Option.bind_eq_some_iff.mpr ⟨_, hpatch, rfl⟩⟩,
    (unloadAllModules_quiet S.env _).mem⟩

end Run

/-- A run of `start` up to its table: the configuration was read into `options`, memory is
laid out, and the game is known. -/
structure Launched (S : Setting) (args : ℕ) (argp : Option PatchworkLaunchArgs)
    (options : PatchworkConfigOptions) (c : Configured) (w w₁ : World) (g : GameNumber) : Prop where
  configured : configure S (if args > 0 then argp else none)
    (launch S (if args > 0 then argp else none) w) = some ⟨options, w₁⟩
  read : c.Read options w₁.mem
  placed : Placed S options c g
  game : getLBPGameNumber w₁.mem = g
  known : g ≠ .unknown

theorem Launched.prepared {S : Setting} {args : ℕ} {argp : Option PatchworkLaunchArgs}
    {options : PatchworkConfigOptions} {c : Configured} {w w₁ : World} {g : GameNumber}
    (h : Launched S args argp options c w w₁ g) :
    ∃ w₅ w', start S args argp w = some w' ∧
      w'.mem = (applyGamePatches (patches S.globals g) w₅).mem ∧
      Prepared S options c g w₁.mem w₅.mem := by
  obtain ⟨w₅, hpatch, prepared⟩ := patchGame_steps h.read h.placed h.game h.known
  obtain ⟨w', hw', hmem⟩ := start_patchGame h.configured hpatch
  exact ⟨w₅, w', hw', hmem, prepared⟩

/-- The pointers are null before the run, and a zero byte follows each field of a string. -/
structure Awaiting (S : Setting) (c : Configured) (g : GameNumber) (m : Mem) : Prop
    extends Fresh S m where
  stops : ∀ q ∈ patches S.globals g, ∀ string, StringRow S.globals c q string →
    m (q.offset + q.size) = 0

theorem Launched.arrives_iff {S : Setting} {args : ℕ} {argp : Option PatchworkLaunchArgs}
    {options : PatchworkConfigOptions} {c : Configured} {w w₁ : World} {g : GameNumber}
    (h : Launched S args argp options c w w₁ g) (awaiting : Awaiting S c g w₁.mem) :
    ∃ w', start S args argp w = some w' ∧
      ∀ q ∈ patches S.globals g, ∀ string, StringRow S.globals c q string →
        (Arrives w₁.mem w'.mem q string ↔ Fits c options w₁.mem q string) := by
  obtain ⟨w₅, w', hw', hmem, prepared⟩ := h.prepared
  obtain ⟨hurl, hdigest⟩ := prepared.pointers h.read h.placed awaiting.toFresh
  refine ⟨w', hw', fun q hq string hrow => ?_⟩
  have hstop := awaiting.stops q hq string hrow
  rw [hmem]
  have hin {string : Option ConfigString} (hmem : string = c.url ∨ string = c.digest) :
      ∀ s, string = some s → s.In w₁.mem := by
    rintro s rfl
    refine h.read.in_of_mem ?_
    rcases hmem with he | he <;> simp [← he]
  cases hrow with
  | url type source =>
    have hcell : (q.source, 4) ∈ pointerPlaces S := by simp [pointerPlaces, source]
    exact prepared.arrives_iff h.placed hq type (h.placed.source_size_ne_zero hq type hcell)
      (.inl rfl) (source ▸ hurl) hcell (hin (.inl rfl)) hstop
  | digest type source =>
    have hcell : (q.source, 4) ∈ pointerPlaces S := by simp [pointerPlaces, source]
    exact prepared.arrives_iff h.placed hq type (h.placed.source_size_ne_zero hq type hcell)
      (.inr rfl) (source ▸ hdigest) hcell (hin (.inr rfl)) hstop

/-- When `start` has applied the table, the strings are where they should be exactly when they
fit. -/
theorem start_arrives_iff (S : Setting) (args : ℕ) (argp : Option PatchworkLaunchArgs)
    (options : PatchworkConfigOptions) (c : Configured) (w w₁ : World) (g : GameNumber)
    (h : Launched S args argp options c w w₁ g) (awaiting : Awaiting S c g w₁.mem) :
    ∃ w', start S args argp w = some w' ∧
      ((∀ q ∈ patches S.globals g, ∀ string, StringRow S.globals c q string →
        Arrives w₁.mem w'.mem q string) ↔
      ∀ q ∈ patches S.globals g, ∀ string, StringRow S.globals c q string →
        Fits c options w₁.mem q string) := by
  obtain ⟨w', hw', hiff⟩ := h.arrives_iff awaiting
  exact ⟨w', hw', forall₂_congr fun q hq => forall₂_congr fun string hrow => hiff q hq string hrow⟩

-- The first game with a configured URL and digest, one behind the other in `toml_buf`.
def digestText : List UInt8 := ascii "CustomServerDigest"

def urlString (url : List UInt8) : ConfigString := ⟨0x20002000, url, 0x20002000 + 312⟩

def digestString (url : List UInt8) : ConfigString :=
  ⟨0x20002000 + url.length + 1, digestText, 0x20002000 + 312⟩

def strings (url : List UInt8) : Configured := ⟨some (urlString url), some (digestString url), none⟩

def stringOptions (url : List UInt8) : PatchworkConfigOptions :=
  ⟨0x20002000, 0, 0x20002000 + url.length + 1, 0, 0, 0⟩

def stringSetting (url : List UInt8) : Setting where
  env := { unopenedEnv with opens := fun _ => true }
  globals := ⟨0x20000000, 0x20000004, 0x20000008, 0x2000000c, 0x20000010, 0x20000014, 0x20000018,
    0x20001000, 0x20001100, 0x20001200, 0x20001300, 0x20001400, 0x20001500, 0x20001600, 0x20001700⟩
  frame := ⟨0x20002000, 0x20002200, 0x20002300, 0x20002400, 0x20002500⟩
  locals := staleLocals
  major := "2"
  minor := "0"
  sec := 0
  nsec := 0
  fp := 0
  toml buf m := (stringOptions url, store m buf (url ++ 0 :: digestText ++ [0]))
  uintToStr := decimalDigit
  uintToStr_digit := decimalDigit_eq

def firstGame : World := { freshWorld with
  file := Function.update freshWorld.file mainConfigPath (some [])
  mem := store (fun _ => 0) (lbp1UserAgentOffset + 15) [36] }

def readWorld (url : List UInt8) : World :=
  (readConfig (stringSetting url) (launch (stringSetting url) none firstGame)).world

def shortUrl : List UInt8 := ascii "http://lighthouse:10061/LITTLEBIGPLANETPS3_XML"
def longUrl : List UInt8 := ascii "http://" ++ List.replicate 64 97

theorem launched {url : List UInt8} (h : url = shortUrl ∨ url = longUrl) :
    Launched (stringSetting url) 0 none (stringOptions url) (strings url) firstGame (readWorld url)
      .lbp1 := by
  have hdigest : Held (readWorld url).mem (stringOptions url).digestKey
      (some (digestString url)) := by
    rcases h with rfl | rfl <;>
      exact ⟨rfl, ⟨by decide +kernel, by decide, by decide +kernel⟩, by decide, by decide +kernel,
        by decide⟩
  have hurl : Held (readWorld url).mem 0x20002000 (some (urlString url)) := by
    rcases h with rfl | rfl <;>
      exact ⟨rfl, ⟨by decide +kernel, by decide +kernel, by decide +kernel⟩, by decide,
        by decide +kernel, by decide⟩
  have hplaced : Placed (stringSetting url) (stringOptions url) (strings url) .lbp1 := by
    rcases h with rfl | rfl <;>
      exact ⟨by decide +kernel, by decide, by decide +kernel, by decide +kernel,
        by decide +kernel, by decide +kernel⟩
  exact ⟨rfl, ⟨hurl, hdigest, rfl⟩, hplaced, by rcases h with rfl | rfl <;> decide +kernel,
    by decide⟩

theorem awaiting {url : List UInt8} (h : url = shortUrl ∨ url = longUrl) :
    Awaiting (stringSetting url) (strings url) .lbp1 (readWorld url).mem := by
  have hstops : ∀ q ∈ patches (stringSetting url).globals .lbp1,
      (readWorld url).mem (q.offset + q.size) = 0 := by
    rcases h with rfl | rfl <;> decide +kernel
  have hfresh : Fresh (stringSetting url) (readWorld url).mem := by
    rcases h with rfl | rfl <;> exact ⟨by decide +kernel, by decide +kernel⟩
  exact ⟨hfresh, fun q hq _ _ => hstops q hq⟩

theorem start_arrives_iff_short : ∃ w', start (stringSetting shortUrl) 0 none firstGame = some w' ∧
    ((∀ q ∈ patches (stringSetting shortUrl).globals .lbp1, ∀ string,
      StringRow (stringSetting shortUrl).globals (strings shortUrl) q string →
        Arrives (readWorld shortUrl).mem w'.mem q string) ↔
    ∀ q ∈ patches (stringSetting shortUrl).globals .lbp1, ∀ string,
      StringRow (stringSetting shortUrl).globals (strings shortUrl) q string →
        Fits (strings shortUrl) (stringOptions shortUrl) (readWorld shortUrl).mem q string) :=
  start_arrives_iff _ _ _ _ _ _ _ _ (launched (.inl rfl)) (awaiting (.inl rfl))

/-- A URL of 71 characters loses the last one. -/
theorem start_truncates : ¬ ∀ (S : Setting) (args : ℕ) (argp : Option PatchworkLaunchArgs)
    (options : PatchworkConfigOptions) (c : Configured) (w w₁ : World) (g : GameNumber),
    Launched S args argp options c w w₁ g → Awaiting S c g w₁.mem →
    ∃ w', start S args argp w = some w' ∧
      ∀ q ∈ patches S.globals g, ∀ string, StringRow S.globals c q string →
        Arrives w₁.mem w'.mem q string := by
  intro h
  have hlaunched := launched (.inr rfl)
  have hawaiting := awaiting (.inr rfl)
  obtain ⟨w', hw', harrives⟩ := h _ _ _ _ _ _ _ _ hlaunched hawaiting
  obtain ⟨w'', hw'', hiff⟩ := hlaunched.arrives_iff hawaiting
  obtain rfl : w' = w'' := Option.some.inj (hw'.symm.trans hw'')
  let q : GamePatch := ⟨lbp1HttpUrlOffset, (stringSetting longUrl).globals.serverURL,
    lbpPs3ProdUrlLength, .indirect⟩
  have hq : q ∈ patches (stringSetting longUrl).globals .lbp1 := by decide
  have hrow : StringRow (stringSetting longUrl).globals (strings longUrl) q (strings longUrl).url :=
    .url rfl rfl
  obtain ⟨-, ⟨-, hlong⟩ | hthere⟩ := (hiff _ hq _ hrow).mp (harrives _ hq _ hrow)
  · exact absurd hlong (by decide +kernel)
  · exact absurd hthere (by decide +kernel)

end Patchwork.ConfiguredStrings
