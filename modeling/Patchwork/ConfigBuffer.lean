import Patchwork.Prx

/-!
# The configuration's buffer

`ReadFile` stores what one read gives and says neither how much that was nor where
the file ends. The parser reads a C string, so the file's text ends where it should
only when a zero byte comes with the file or was in the buffer before.
-/

namespace Patchwork.ConfigBuffer
open ByteMemory Console Fs Update Util Prx

structure ReadsFull (env : Env) (n size : ℕ) : Prop where
  ok : (env.reads n).ok = true
  count : size ≤ (env.reads n).count

/-- The buffer of `size` bytes at `buf` holds the whole file, and as a C string that ends
inside the buffer it is the file's bytes up to their first zero byte. -/
structure Holds (m : Mem) (buf size : ℕ) (content : List UInt8) : Prop where
  whole : content.length ≤ size
  string : IsCString m buf (upToZero content)
  inside : (upToZero content).length < size

def Terminated (m : Mem) (buf size : ℕ) (content : List UInt8) : Prop :=
  content.length ≤ size ∧
    (0 ∈ content ∨ (content.length < size ∧ m (buf + content.length) = 0))

theorem upToZero_length_lt {content : List UInt8} (h0 : 0 ∈ content) :
    (upToZero content).length < content.length := by
  obtain ⟨s, rest, rfl, hs⟩ := List.eq_append_cons_of_mem h0
  rw [upToZero_append hs]
  simp

theorem holds_iff (m : Mem) (buf size : ℕ) (content : List UInt8) :
    Holds (store m buf (content.take size)) buf size content ↔
      Terminated m buf size content := by
  by_cases hlen : content.length ≤ size
  · rw [List.take_of_length_le hlen]
    constructor
    · intro h
      refine ⟨hlen, ?_⟩
      by_cases h0 : 0 ∈ content
      · exact .inl h0
      · have hinside := h.inside
        rw [upToZero_self h0] at hinside
        exact .inr ⟨hinside, ((isCString_stored_iff m content).mp h.string).resolve_left h0⟩
    · rintro ⟨-, h0 | ⟨hlt, hstop⟩⟩
      · exact ⟨hlen, (isCString_stored_iff m content).mpr (.inl h0),
          Nat.lt_of_lt_of_le (upToZero_length_lt h0) hlen⟩
      · exact ⟨hlen, (isCString_stored_iff m content).mpr (.inr hstop),
          Nat.lt_of_le_of_lt (List.takeWhile_prefix _).length_le hlt⟩
  · exact iff_of_false (fun h => hlen h.whole) fun h => hlen h.1

section Read
variable {env : Env} {path : String} {size : ℕ} {content : List UInt8} {w : World}

theorem readFile_stores (buf : ℕ) (hopen : Opens env path .rdonly w)
    (hfile : w.file path = some content) (hread : ReadsFull env (w.now + 1) size) :
    (readFile env path buf size w).value = 1 ∧
      (readFile env path buf size w).world.mem = store w.mem buf (content.take size) := by
  have hbytes : cellFsRead env (w.now + 1) size (afterOpen path .rdonly w) =
      ⟨some (content.take size), afterRead (w.now + 1) ⟨path, 0⟩ (content.take size)
        (afterOpen path .rdonly w)⟩ :=
    cellFsRead_ok env size _ (by simpa using hread.ok) (by simp)
      (by simp [hfile, Nat.min_eq_right hread.count])
  unfold readFile
  rw [cellFsOpen_pos env hopen]
  dsimp only
  rw [hbytes]
  exact ⟨rfl, rfl⟩

theorem readFile_fails (buf size : ℕ) (hopen : ¬ Opens env path .rdonly w) :
    (readFile env path buf size w).value = 0 := by
  unfold readFile
  rw [cellFsOpen_neg env hopen]

end Read

/-- `ReadFile`'s success means that the buffer holds the file exactly when the file, if it
opens, is terminated. -/
theorem readFile_holds_iff (env : Env) (path : String) (buf size : ℕ) (content : List UInt8)
    (w : World) (hfile : w.file path = some content) (hread : ReadsFull env (w.now + 1) size) :
    ((readFile env path buf size w).value = 1 →
      Holds (readFile env path buf size w).world.mem buf size content) ↔
    (Opens env path .rdonly w → Terminated w.mem buf size content) := by
  by_cases hopen : Opens env path .rdonly w
  · obtain ⟨hvalue, hmem⟩ := readFile_stores buf hopen hfile hread
    rw [hmem, holds_iff, imp_iff_right hvalue, imp_iff_right hopen]
  · have hvalue := readFile_fails buf size hopen
    exact iff_of_true (fun h => by simp [hvalue] at h) fun h => absurd h hopen

-- A configuration with one section, over a buffer that the stack left full.
def openedEnv : Env := { unopenedEnv with opens := fun _ => true }

def configText : List UInt8 := ascii "[patchwork]"

def staleWorld (stale : UInt8) : World := { freshWorld with
  file := Function.update freshWorld.file mainConfigPath (some configText)
  mem := fun _ => stale }

theorem staleWorld_file (stale : UInt8) :
    (staleWorld stale).file mainConfigPath = some configText := by
  simp [staleWorld]

theorem readFile_holds_iff_zeroed :
    ((readFile openedEnv mainConfigPath 0x20002000 312 (staleWorld 0)).value = 1 →
      Holds (readFile openedEnv mainConfigPath 0x20002000 312 (staleWorld 0)).world.mem
        0x20002000 312 configText) ↔
    (Opens openedEnv mainConfigPath .rdonly (staleWorld 0) →
      Terminated (staleWorld 0).mem 0x20002000 312 configText) :=
  readFile_holds_iff _ _ _ _ _ _ (staleWorld_file 0) ⟨rfl, by decide⟩

theorem readFile_not_terminated : ¬ ∀ (env : Env) (path : String) (buf size : ℕ)
    (content : List UInt8) (w : World), w.file path = some content →
      ReadsFull env (w.now + 1) size → (readFile env path buf size w).value = 1 →
        Holds (readFile env path buf size w).world.mem buf size content := by
  intro h
  have hfile := staleWorld_file 120
  have hread : ReadsFull openedEnv ((staleWorld 120).now + 1) 312 := ⟨rfl, by decide⟩
  have hopen : Opens openedEnv mainConfigPath .rdonly (staleWorld 120) :=
    ⟨rfl, fun _ => by simp [hfile]⟩
  obtain ⟨hvalue, hmem⟩ := readFile_stores 0x20002000 hopen hfile hread
  have hholds := h _ _ 0x20002000 _ _ _ hfile hread hvalue
  rw [hmem, holds_iff] at hholds
  obtain ⟨-, h0 | ⟨-, hstop⟩⟩ := hholds
  · exact absurd h0 (by decide)
  · exact absurd hstop (by decide)

end Patchwork.ConfigBuffer
