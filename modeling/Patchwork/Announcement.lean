import Patchwork.Detection

/-!
# The announcement's buffers

Three strings of `start` go into buffers of its own: the game's digit, the user
agent and the message to the shell. `announcePuts` lists what is stored for them.
The message's buffer has the length of the message about a disabled password, and
the two messages about a password are longer.
-/

namespace Patchwork.Announcement
open ByteMemory BoundedLoop Console Fs Util Patches Prx ConfiguredStrings Detection

/-- A store and the array it is meant for, by its address and size. -/
structure Put where
  array : ℕ × ℕ
  stored : Store

def Put.Inside (p : Put) : Prop :=
  p.array.1 ≤ p.stored.addr ∧ p.stored.addr + p.stored.bytes.length ≤ p.array.1 + p.array.2

section Puts
variable (S : Setting) (options : PatchworkConfigOptions) (randomized : ℤ) (g : GameNumber)

def digitPut : Put := ⟨(S.frame.gameNumStr, 4), S.frame.gameNumStr, [gameDigit g, 0]⟩

def agentPut : Put := ⟨(S.frame.userAgent, 64), S.frame.userAgent,
  (userAgentText S options (gameDigit g)).take 63 ++ [0]⟩

def pointerPut : Put := ⟨(S.globals.userAgent, 4), S.globals.userAgent, be32 S.frame.userAgent⟩

def messagePut : Put := ⟨msgBuf S, S.frame.msgBuf, message S options randomized ++ [0]⟩

def replacePut (m : Mem) : Option Put :=
  (run (replaceRound m S.frame.msgBuf 88) (2 ^ 32) 0).join.map fun i =>
    ⟨msgBuf S, S.frame.msgBuf + i, [m S.frame.gameNumStr]⟩

def copiedPuts : List Put :=
  [digitPut S g, agentPut S options g, pointerPut S, messagePut S options randomized]

def copied (m : Mem) : Mem := stores m ((copiedPuts S options randomized g).map Put.stored)

def announcePuts (m : Mem) : List Put :=
  copiedPuts S options randomized g ++ (replacePut S (copied S options randomized g m)).toList

/-- Every store stays in its array, and the table's row copies the whole user agent. -/
structure StringsFit (m : Mem) : Prop where
  inside : ∀ p ∈ announcePuts S options randomized g m, p.Inside
  agent : (agentPut S options g).stored.bytes.length ≤ (agentRow S g).size

theorem announce_mem {w w' : World} (h : announce S options randomized g w = some w') :
    w'.mem = stores w.mem ((announcePuts S options randomized g w.mem).map Put.stored) := by
  obtain ⟨m', hreplace, h⟩ := Option.bind_eq_some_iff.mp h
  obtain ⟨length, -, h⟩ := Option.bind_eq_some_iff.mp h
  obtain rfl := Option.some.inj h
  have hdigit : store w.mem S.frame.gameNumStr [gameDigit g, 0] S.frame.gameNumStr =
      gameDigit g := store_head _ _ _
  have hcopied : replaceNext S.frame.msgBuf 88
      (copied S options randomized g w.mem S.frame.gameNumStr)
      (copied S options randomized g w.mem) = some m' := by
    rw [← hreplace, uintToStr_gameNumber, List.singleton_append, hdigit]
    rfl
  obtain ⟨found, hfound, hm⟩ := Option.bind_eq_some_iff.mp hcopied
  rw [writeFile_mem, announcePuts, List.map_append, stores_append]
  unfold replacePut
  rw [hfound]
  cases found with
  | none => exact (Option.some.inj hm).symm
  | some i => exact (Option.some.inj hm).symm

theorem copied_stop (m : Mem) : copied S options randomized g m
    (S.frame.msgBuf + (message S options randomized).length) = 0 :=
  store_last _ _ _

theorem replacePut_spec {m : Mem} {p : Put}
    (h : p ∈ (replacePut S (copied S options randomized g m)).toList) : p.array = msgBuf S ∧
      ∃ i < (message S options randomized).length, p.stored.addr = S.frame.msgBuf + i ∧
        p.stored.bytes.length = 1 := by
  obtain ⟨i, hi, rfl⟩ := Option.map_eq_some_iff.mp (Option.mem_toList.mp h)
  exact ⟨rfl, i, replaceRounds_before (copied_stop S options randomized g m) (by decide)
    (Option.join_eq_some_iff.mp hi), rfl, rfl⟩

theorem successMessage_length (password : String) : (successMessage S password).length =
    (successMessage S "").length + password.toList.length := by
  simp [successMessage, ascii]
  omega

theorem message_fits_iff : (message S options randomized).length ≤
    (successMessage S "is%20disabled").length ↔ options.enableJoinKey = 0 := by
  unfold message
  rw [successMessage_length, successMessage_length S "is%20disabled"]
  by_cases hkey : options.enableJoinKey = 0
  · simp [hkey]
  · split_ifs <;> simp [hkey]

theorem userAgentText_length (digit : UInt8) : (userAgentText S options digit).length =
    S.major.length + S.minor.length + (if options.enableJoinKey = 0 then 18 else 16) := by
  unfold userAgentText
  by_cases hkey : options.enableJoinKey = 0
  · simp [ascii, hkey, ← String.length_toList]
    omega
  · simp [ascii, hkey, ← String.length_toList]
    omega

theorem announcePuts_inside_iff (m : Mem) :
    (∀ p ∈ announcePuts S options randomized g m, p.Inside) ↔ options.enableJoinKey = 0 := by
  rw [← message_fits_iff S options randomized]
  constructor
  · intro h
    have hput := (h (messagePut S options randomized) (by simp [announcePuts, copiedPuts])).2
    simp only [messagePut, msgBuf, List.length_append, List.length_singleton] at hput
    omega
  · intro hle p hp
    rcases List.mem_append.mp hp with hp | hp
    · simp only [copiedPuts, List.mem_cons, List.not_mem_nil, or_false] at hp
      rcases hp with rfl | rfl | rfl | rfl <;> refine ⟨Nat.le_refl _, Nat.add_le_add_left ?_ _⟩
      · simp [digitPut]
      · simp only [agentPut, List.length_append, List.length_take, List.length_singleton]
        omega
      · simp [pointerPut]
      · simpa [messagePut, msgBuf] using hle
    · obtain ⟨harray, i, hi, haddr, hlen⟩ := replacePut_spec S options randomized g hp
      rw [Put.Inside, harray, haddr, hlen]
      simp only [msgBuf]
      omega

/-- `announce` makes these stores, and its strings fit exactly when no join key is used and the
version is short enough. -/
theorem announce_fits_iff (w : World) :
    (∀ w', announce S options randomized g w = some w' →
      w'.mem = stores w.mem ((announcePuts S options randomized g w.mem).map Put.stored)) ∧
    (StringsFit S options randomized g w.mem ↔ options.enableJoinKey = 0 ∧
      S.major.length + S.minor.length + 19 ≤ lbpUserAgentLength) := by
  have hagent (hkey : options.enableJoinKey = 0) :
      (agentPut S options g).stored.bytes.length ≤ (agentRow S g).size ↔
        S.major.length + S.minor.length + 19 ≤ lbpUserAgentLength := by
    simp only [agentPut, agentRow, lbpUserAgentLength, List.length_append, List.length_take,
      List.length_singleton, userAgentText_length, if_pos hkey]
    omega
  refine ⟨fun w' h => announce_mem S options randomized g h, ?_⟩
  constructor
  · intro h
    have hkey := (announcePuts_inside_iff S options randomized g w.mem).mp h.inside
    exact ⟨hkey, (hagent hkey).mp h.agent⟩
  · rintro ⟨hkey, hversion⟩
    exact ⟨(announcePuts_inside_iff S options randomized g w.mem).mpr hkey,
      (hagent hkey).mpr hversion⟩

end Puts

def keyOptions : PatchworkConfigOptions := ⟨0, 0, 0, 1, 0, 0⟩

theorem announce_not_fits : ¬ ∀ (S : Setting) (options : PatchworkConfigOptions) (randomized : ℤ)
    (g : GameNumber) (m : Mem), StringsFit S options randomized g m := by
  intro h
  have hinside := (h (stringSetting []) keyOptions 1 .lbp1 firstGame.mem).inside
  exact absurd ((announcePuts_inside_iff _ _ _ _ _).mp hinside) (by decide)

end Patchwork.Announcement
