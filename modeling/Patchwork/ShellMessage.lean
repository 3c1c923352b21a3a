import Patchwork.Footprint
import Patchwork.LogLines
import Patchwork.PatchedGame

/-!
# The message to the shell

What a run tells the user: its version, the game and what became of the lobby password,
or that it does not recognise the game.
-/

namespace Patchwork.ShellMessage
open ByteMemory BoundedLoop Console Fs Util Patches Prx ConfiguredStrings Footprint
open LogLines (ascii_append)
open PrintedNumbers (isCString_store)
open PatchedGame (linkedSetting linkedGame linkedWorld linked_launched)

section Replace
variable {m : Mem} {a : ℕ} {b c : UInt8} {t u : List UInt8}

theorem store_middle : store (store m a (t ++ b :: u)) (a + t.length) [c] =
    store m a (t ++ c :: u) := by
  funext x
  by_cases hx : x = a + t.length
  · subst hx
    rw [store_head, store_inside _ _ (by simp)]
    simp
  · rw [store_outside _ _ (by simp; omega)]
    by_cases hin : a ≤ x ∧ x < a + (t ++ b :: u).length
    · obtain ⟨i, rfl⟩ := Nat.exists_eq_add_of_le hin.1
      have hi : i < (t ++ b :: u).length := by omega
      have hi' : i < (t ++ c :: u).length := by simpa using hi
      rw [store_inside _ _ hi, store_inside _ _ hi']
      obtain hlt | hge := Nat.lt_or_ge i t.length
      · rw [List.getElem_append_left hlt, List.getElem_append_left hlt]
      · obtain ⟨j, hj⟩ : ∃ j, i - t.length = j + 1 := Nat.exists_eq_succ_of_ne_zero (by omega)
        rw [List.getElem_append_right hge, List.getElem_append_right hge]
        simp only [hj, List.getElem_cons_succ]
    · have hlen : (t ++ b :: u).length = (t ++ c :: u).length := by simp
      rw [store_outside _ _ (by omega), store_outside _ _ (by omega)]

theorem replaceRounds_eq (h : IsCString m a (t ++ b :: u)) (ht : b ∉ t)
    (hlen : t.length < 2 ^ 32) :
    run (replaceRound m a b) (2 ^ 32) 0 = some (some t.length) := by
  have hfound : m (a + t.length) = b := by
    rw [h.char (by simp)]
    simp
  have hbefore : ∀ i < t.length, m (a + i) ≠ b ∧ m (a + i) ≠ 0 := by
    intro i hi
    have hi' : i < (t ++ b :: u).length := by
      rw [List.length_append]
      omega
    refine ⟨fun hb => ht ?_, h.char_ne_zero hi'⟩
    rw [← hb, h.char hi', List.getElem_append_left hi]
    exact List.getElem_mem hi
  obtain ⟨r, hr, rfl⟩ := run_spec (replaceRound m a b) (fun i => i ≤ t.length)
    (fun i => t.length - i) (fun r => r = some t.length)
    (fun i i' hi hround => by
      unfold replaceRound at hround
      split_ifs at hround with hb h0
      cases hround
      have hne : i ≠ t.length := fun he => hb (he ▸ hfound)
      omega)
    (fun i r hi hround => by
      unfold replaceRound at hround
      obtain hlt | rfl := Nat.lt_or_eq_of_le hi
      · rw [if_neg (hbefore i hlt).1, if_neg (hbefore i hlt).2] at hround
        cases hround
      · rw [if_pos hfound] at hround
        cases hround
        rfl)
    (Nat.zero_le _) (by omega)
  exact hr

theorem replaceNext_stored (h0 : 0 ∉ t ++ b :: u) (ht : b ∉ t) (hlen : t.length < 2 ^ 32) :
    replaceNext a b c (store m a (t ++ b :: u ++ [0])) =
      some (store m a (t ++ c :: u ++ [0])) := by
  rw [replaceNext, replaceRounds_eq (isCString_store h0) ht hlen]
  have hmiddle := store_middle (m := m) (a := a) (b := b) (c := c) (t := t) (u := u ++ [0])
  simp only [Option.bind_eq_bind, Option.bind_some, Option.some.injEq]
  rw [List.append_assoc, List.cons_append, hmiddle, List.append_assoc, List.cons_append]

end Replace

section Message
variable (S : Setting) (options : PatchworkConfigOptions) (g : GameNumber)

def beforeGame : List UInt8 :=
  ascii ("/popup.ps3?Patchwork%20" ++ S.major ++ "." ++ S.minor ++ "%20Loaded%20for%20LBP")

def afterGame (password : String) : List UInt8 :=
  ascii ("%0ALobby%20password%20" ++ password ++ "&icon=8&snd=5")

def shellMessage : List UInt8 := beforeGame S ++ gameDigit g :: afterGame (keyState options)

def Numbered : Prop := ∀ ch ∈ (S.major ++ S.minor).toList, ch.isDigit = true

/-- The digit is kept apart from what is stored before the message is sent. -/
def DigitApart : Prop := Clear [(S.frame.gameNumStr, 2)]
  [(S.frame.userAgent, 64), (S.globals.userAgent, 4), messageRange S options]

variable {S options g} {w w₁ w' : World}

theorem successMessage_eq (password : String) :
    successMessage S password = beforeGame S ++ 88 :: afterGame password := by
  have hwords : ascii "%20Loaded%20for%20LBPX%0ALobby%20password%20" =
      ascii "%20Loaded%20for%20LBP" ++ 88 :: ascii "%0ALobby%20password%20" := by decide
  simp [successMessage, beforeGame, afterGame, ascii_append, hwords]

theorem digit_plain {ch : Char} (h : ch.isDigit = true) :
    UInt8.ofNat ch.toNat ≠ 88 ∧ UInt8.ofNat ch.toNat ≠ 0 := by
  have hrange : 48 ≤ ch.toNat ∧ ch.toNat ≤ 57 := by
    simpa [Char.isDigit, UInt32.le_iff_toNat_le] using h
  constructor <;>
  · intro heq
    have hnat := congrArg UInt8.toNat heq
    simp at hnat
    omega

theorem ascii_plain (str : String) (h : ∀ ch ∈ str.toList, ch.isDigit = true) :
    ∀ ch ∈ ascii str, ch ≠ 88 ∧ ch ≠ 0 := by
  intro ch hch
  obtain ⟨d, hd, rfl⟩ := List.mem_map.mp hch
  exact digit_plain (h d hd)

theorem plain_of_all {t : List UInt8} (h : (t.all fun ch => ch != 88 && ch != 0) = true) :
    ∀ ch ∈ t, ch ≠ 88 ∧ ch ≠ 0 := by
  intro ch hch
  simpa using List.all_eq_true.mp h ch hch

theorem beforeGame_plain (h : Numbered S) : ∀ ch ∈ beforeGame S, ch ≠ 88 ∧ ch ≠ 0 := by
  unfold Numbered at h
  simp only [String.toList_append, List.mem_append] at h
  have hmajor := ascii_plain S.major fun ch hch => h ch (.inl hch)
  have hminor := ascii_plain S.minor fun ch hch => h ch (.inr hch)
  have hfirst : ∀ ch ∈ ascii "/popup.ps3?Patchwork%20", ch ≠ 88 ∧ ch ≠ 0 := plain_of_all rfl
  have hdot : ∀ ch ∈ ascii ".", ch ≠ 88 ∧ ch ≠ 0 := plain_of_all rfl
  have hlast : ∀ ch ∈ ascii "%20Loaded%20for%20LBP", ch ≠ 88 ∧ ch ≠ 0 := plain_of_all rfl
  intro ch hch
  simp only [beforeGame, ascii_append, List.mem_append] at hch
  rcases hch with (((hch | hch) | hch) | hch) | hch
  · exact hfirst ch hch
  · exact hmajor ch hch
  · exact hdot ch hch
  · exact hminor ch hch
  · exact hlast ch hch

theorem afterGame_nonzero : 0 ∉ afterGame (keyState options) := by
  unfold keyState
  split_ifs <;> decide

theorem gameDigit_ne_zero (g : GameNumber) : gameDigit g ≠ 0 := by
  cases g <;> decide

theorem digit_kept (h : DigitApart S options) (m : Mem) {t : List UInt8}
    (ht : t.length + 1 ≤ (messageRange S options).2) :
    store (agentSet S options g m) S.frame.msgBuf (t ++ [0]) S.frame.gameNumStr =
      gameDigit g := by
  have hagent := h (S.frame.gameNumStr, 2) (by simp) (S.frame.userAgent, 64) (by simp)
  have hpointer := h (S.frame.gameNumStr, 2) (by simp) (S.globals.userAgent, 4) (by simp)
  have hmessage := h (S.frame.gameNumStr, 2) (by simp) (messageRange S options) (by simp)
  have hfirst : (messageRange S options).1 = S.frame.msgBuf := rfl
  unfold Apart at hagent hpointer hmessage
  dsimp only at hagent hpointer hmessage
  rw [store_outside _ _ (by rw [List.length_append, List.length_singleton]; omega), agentSet,
    store32, store_outside _ _ (by rw [be32_length]; omega), snprintf, store_outside _ _ ?_,
    store_head]
  simp only [List.length_append, List.length_take, List.length_singleton]
  omega

theorem announce_eq {randomized : ℤ} (version : Numbered S) (apart : DigitApart S options)
    (hend : S.frame.msgBuf + (messageRange S options).2 ≤ 2 ^ 32)
    (hmessage : message S options randomized = successMessage S (keyState options)) :
    ∃ m, announce S options randomized g w = some (writeFile S.env S.fp wmRequestPath
      (shellMessage S options g)
      { logLn "User agent: %s" (logLn "Selected patches for LBP%s" w) with mem := m }) := by
  have hplain := beforeGame_plain version
  have hnonzero : 0 ∉ beforeGame S ++ 88 :: afterGame (keyState options) := by
    simp only [List.mem_append, List.mem_cons, not_or]
    exact ⟨fun h => (hplain 0 h).2 rfl, by decide, afterGame_nonzero⟩
  have hshell : 0 ∉ shellMessage S options g := by
    simp only [shellMessage, List.mem_append, List.mem_cons, not_or]
    exact ⟨fun h => (hplain 0 h).2 rfl, (gameDigit_ne_zero g).symm, afterGame_nonzero⟩
  have hlen : (messageRange S options).2 = (beforeGame S).length +
      ((afterGame (keyState options)).length + 1) + 1 := by
    rw [messageRange, successMessage_eq, List.length_append, List.length_cons]
  let m := store (agentSet S options g w.mem) S.frame.msgBuf (shellMessage S options g ++ [0])
  have hdigit : store w.mem S.frame.gameNumStr [gameDigit g, 0] S.frame.gameNumStr =
      gameDigit g := store_head _ _ _
  have hreplace : replaceNext S.frame.msgBuf 88 (store (agentSet S options g w.mem)
      S.frame.msgBuf (message S options randomized ++ [0]) S.frame.gameNumStr)
      (store (agentSet S options g w.mem) S.frame.msgBuf
        (message S options randomized ++ [0])) = some m := by
    rw [hmessage, digit_kept apart w.mem (Nat.le_refl _), successMessage_eq]
    exact replaceNext_stored hnonzero (fun h => (hplain 88 h).1 rfl) (by omega)
  have hstring : IsCString m S.frame.msgBuf (shellMessage S options g) := isCString_store hshell
  have hlength : strlen m S.frame.msgBuf = some (shellMessage S options g).length := by
    refine strlen_eq hstring ?_
    rw [shellMessage, List.length_append, List.length_cons]
    omega
  refine ⟨m, Option.bind_eq_some_iff.mpr ⟨m, ?_, Option.bind_eq_some_iff.mpr
    ⟨_, hlength, ?_⟩⟩⟩
  · rw [uintToStr_gameNumber, List.singleton_append, hdigit]
    exact hreplace
  · rw [hstring.chars]

theorem writeFile_file (env : Env) (fp₀ : ℕ) (path : String) (bytes : List UInt8) (w : World) :
    (writeFile env fp₀ path bytes w).file path = if env.opens w.now = true then
      some (bytes.take (env.writes (w.now + 1)).count) else w.file path := by
  by_cases ho : env.opens w.now = true
  · rw [if_pos ho, writeFile, cellFsOpen_pos env ⟨ho, by simp⟩]
    simp [cellFsWrite, cellFsClose, afterOpen, World.now]
  · rw [if_neg ho, writeFile, cellFsOpen_neg env (by simp [Opens, ho])]
    rfl

theorem writeFile_trace (env : Env) (fp₀ : ℕ) (path : String) (bytes : List UInt8)
    (w : World) :
    ∃ fd es, (writeFile env fp₀ path bytes w).trace =
      w.trace ++ .opened path .wronlyCreatTrunc fd :: es := by
  by_cases ho : Opens env path .wronlyCreatTrunc w
  · rw [writeFile, cellFsOpen_pos env ho]
    have hwritten : Emits Event.IsFile (afterOpen path .wronlyCreatTrunc w)
        (cellFsWrite env (w.now + 1) bytes (afterOpen path .wronlyCreatTrunc w)).world :=
      cellFsWrite_emits env
    obtain ⟨es, hes, -⟩ := hwritten
    refine ⟨some (w.now + 1), es ++ [.closed (w.now + 1)], ?_⟩
    simp only [cellFsClose, World.emit_trace, hes]
    simp [afterOpen]
  · rw [writeFile, cellFsOpen_neg env ho]
    exact ⟨none, [.closed fp₀], by simp [cellFsClose]⟩

variable (S options g) in
/-- What the user is told by `w'`, if the run patches from `w` on: that no game is recognised,
or the message, as far as it can be written. -/
def Told (w w' : World) : Prop :=
  if g = .unknown then w'.file wmRequestPath = w.file wmRequestPath ∧
    .dialog "Failed to detect game, your online is not safe!" ∈ w'.trace.drop w.now
  else ∃ i fd, w.now ≤ i ∧ w'.trace[i]? = some (.opened wmRequestPath .wronlyCreatTrunc fd) ∧
    w'.file wmRequestPath = if S.env.opens i = true then
      some ((shellMessage S options g).take (S.env.writes (i + 1)).count)
    else w.file wmRequestPath

theorem Told.later (h : Told S options g w w₁)
    (hkept : w'.file wmRequestPath = w₁.file wmRequestPath)
    (htrace : Emits Restart.IsLocal w₁ w') : Told S options g w w' := by
  obtain ⟨es, hes, -⟩ := htrace
  unfold Told at h ⊢
  split_ifs at h ⊢ with hgame
  · rw [hkept, hes, List.drop_append]
    exact ⟨h.1, List.mem_append_left _ h.2⟩
  · obtain ⟨i, fd, hi, hopened, htold⟩ := h
    refine ⟨i, fd, hi, ?_, hkept.trans htold⟩
    rw [hes, List.getElem?_append_left (List.getElem?_eq_some_iff.mp hopened).1]
    exact hopened

theorem writeFile_told {logged : World} (known : g ≠ .unknown)
    (hfile : logged.file wmRequestPath = w.file wmRequestPath) (hnow : w.now ≤ logged.now) :
    Told S options g w
      (writeFile S.env S.fp wmRequestPath (shellMessage S options g) logged) := by
  obtain ⟨fd, es, hopened⟩ :=
    writeFile_trace S.env S.fp wmRequestPath (shellMessage S options g) logged
  rw [Told, if_neg known]
  refine ⟨logged.now, fd, hnow, ?_, ?_⟩
  · rw [hopened]
    simp [World.now]
  · rw [← hfile]
    exact writeFile_file ..

theorem patchGame_eq {r : Called ℤ} (hr : setJoinKey S options w = some r)
    (hserver : setServer S options r.world = some w₁) (game : getLBPGameNumber w₁.mem = g) :
    patchGame S options w = if g = .unknown then
        some (errorDialog "Failed to detect game, your online is not safe!"
          { w₁ with mem := selectGame S g w₁.mem })
      else (announce S options r.value g { w₁ with mem := selectGame S g w₁.mem }).bind fun v =>
        some (applyGamePatches (patches S.globals g) v) := by
  unfold patchGame
  rw [hr]
  simp only [Option.bind_eq_bind, Option.bind_some, hserver, game]

theorem patchGame_told {c : Configured} (read : c.Read options w.mem)
    (placed : Placed S options c g)
    (game : getLBPGameNumber w.mem = g) (version : Numbered S) (apart : DigitApart S options) :
    ∃ w', patchGame S options w = some w' ∧ Told S options g w w' := by
  obtain ⟨r, w₃, hr, hserver, -, hgame₃⟩ := setup_steps read placed game
  obtain ⟨w₂, hw₂, hw₃⟩ := Option.bind_eq_some_iff.mp hserver
  have hworks : Works ∅ ∅ w w₃ := ((setJoinKey_works S options hr).trans
    (setPointer_works hw₂)).trans (setPointer_works hw₃)
  have hfile : w₃.file wmRequestPath = w.file wmRequestPath :=
    hworks.file _ (Set.notMem_empty _)
  have hemits : Emits Restart.IsLocal w w₃ := ((Restart.setJoinKey_emits S options hr).trans
    (Restart.setPointer_emits hw₂)).trans (Restart.setPointer_emits hw₃)
  obtain ⟨es, hes, -⟩ := hemits
  rw [patchGame_eq hr hserver hgame₃]
  by_cases known : g = .unknown
  · refine ⟨_, if_pos known, ?_⟩
    rw [Told, if_pos known]
    refine ⟨hfile, ?_⟩
    simp [errorDialog, hes, World.now]
  · obtain ⟨m, hannounce⟩ := announce_eq (g := g) version apart placed.message
      (w := { w₃ with mem := selectGame S g w₃.mem }) (setJoinKey_message S options hr)
    have hrows (v : World) : Works ∅ ∅ v (applyGamePatches (patches S.globals g) v) :=
      applyGamePatches_works ..
    rw [if_neg known, hannounce]
    refine ⟨_, rfl, Told.later (writeFile_told known ?_ ?_)
      ((hrows _).file _ (Set.notMem_empty _))
      (Restart.applyGamePatches_emits ..)⟩
    · exact hfile
    · simp only [World.now, logLn, writeLine_trace, hes, List.length_append]
      omega

end Message

/-- Once the configuration is read, a run of `start` tells the user its version, the game and
what became of the lobby password, or that it does not recognise the game. -/
theorem start_tells (S : Setting) (args : ℕ) (argp : Option PatchworkLaunchArgs)
    (options : PatchworkConfigOptions) (c : Configured) (w w₁ : World)
    (configured : configure S (if args > 0 then argp else none)
      (launch S (if args > 0 then argp else none) w) = some ⟨options, w₁⟩)
    (read : c.Read options w₁.mem) (placed : Placed S options c (getLBPGameNumber w₁.mem))
    (version : Numbered S) (apart : DigitApart S options) :
    ∃ w', start S args argp w = some w' ∧
      Told S options (getLBPGameNumber w₁.mem) w₁ w' := by
  obtain ⟨w₂, hw₂, htold⟩ := patchGame_told read placed rfl version apart
  exact ⟨_, Option.bind_eq_some_iff.mpr ⟨_, configured, Option.bind_eq_some_iff.mpr
    ⟨_, hw₂, rfl⟩⟩, htold.later (congrFun (unloadAllModules_quiet S.env _).file _)
      (Restart.unload_emits S w₂)⟩

theorem start_tells_lbp2 : ∃ w', start linkedSetting 0 none linkedGame = some w' ∧
    Told linkedSetting (stringOptions shortUrl) .lbp2 linkedWorld w' := by
  have hversion : Numbered linkedSetting := by
    have hall : (linkedSetting.major ++ linkedSetting.minor).toList.all Char.isDigit := by rfl
    exact List.all_eq_true.mp hall
  have hapart : DigitApart linkedSetting (stringOptions shortUrl) := by
    unfold DigitApart
    decide
  obtain ⟨w', hw', htold⟩ := start_tells linkedSetting 0 none (stringOptions shortUrl)
    (strings shortUrl) linkedGame linkedWorld linked_launched.configured linked_launched.read
    (by rw [linked_launched.game]; exact linked_launched.placed) hversion hapart
  rw [linked_launched.game] at htold
  exact ⟨w', hw', htold⟩

end Patchwork.ShellMessage
