import Patchwork.PlainFormat

/-!
# The log functions

`Print`, `PrintLn`, `Log` and `LogLn` format into a buffer on the stack and send
it on. They keep the length that `Vsnprintf` returns in a `size_t`. That length
is the one of the whole text, so a text that was cut short is sent with bytes
behind its end, and the code for an error becomes the largest length there is.
-/

namespace Patchwork.Logger
open ByteMemory Printf PlainFormat

def maxPrintfBuf : ℕ := 128

inductive Sink where
  | log
  | tty
deriving DecidableEq, Repr

structure Sent where
  sink : Sink
  bytes : List UInt8
deriving DecidableEq, Repr

abbrev Formatter := ℕ → ℕ → Mem → Option Printed

def formatter (longBits format : ℕ) (args : VaList) : Formatter := fun str size m =>
  vsnprintf longBits str size format args m

/-- What a call of a log function does: the call of `Vsnprintf` in it, the indices of
`print_buf` it stores to itself, what it sends, and memory after it. -/
structure Logged where
  printed : Printed
  stored : List ℕ
  sent : List Sent
  mem : Mem

def sizeT (value : ℤ) : ℕ := (value % 2 ^ 32).toNat

def contents (m : Mem) (printBuf n : ℕ) : List UInt8 :=
  (List.range n).map fun i => m (element printBuf i)

def send (sinks : List Sink) (printBuf printLen : ℕ) (m : Mem) : List Sent :=
  sinks.map fun sink => ⟨sink, contents m printBuf printLen⟩

section Functions
variable (vsnprintf : Formatter) (printBuf : ℕ) (m : Mem)

/-- `Print` and `Log`. The guard is never true: `print_len` is unsigned. -/
def text (sinks : List Sink) : Option Logged := do
  let printed ← vsnprintf printBuf maxPrintfBuf m
  let printLen := sizeT printed.value
  if printLen < 0 then some ⟨printed, [], [], printed.mem⟩
  else some ⟨printed, [], send sinks printBuf printLen printed.mem, printed.mem⟩

def line (sinks : List Sink) : Option Logged := do
  let printed ← vsnprintf printBuf (maxPrintfBuf - 1) m
  let printLen := sizeT printed.value
  if printLen < 0 then some ⟨printed, [], [], printed.mem⟩
  else
    let m := store printed.mem (element printBuf printLen) [10]
    let next := (printLen + 1) % 2 ^ 32
    let m := store m (element printBuf next) [0]
    some ⟨printed, [printLen, next], send sinks printBuf next m, m⟩

def print : Option Logged := text vsnprintf printBuf m [.tty]
def printLn : Option Logged := line vsnprintf printBuf m [.tty]
def log : Option Logged := text vsnprintf printBuf m [.log, .tty]
def logLn : Option Logged := line vsnprintf printBuf m [.log, .tty]

end Functions

/-- What the last lines of `Vsnprintf` state. The text is `none` where its length or the
length of a field overflows. -/
inductive Meets (str size : ℕ) (m : Mem) : Option (List UInt8) → Printed → Prop where
  | whole (t : List UInt8) (args : ℕ) (writes : List ℕ) (length : (t.length : ℤ) < intMax) :
    Meets str size m (some t)
      ⟨t.length, args, store m str (t.take (size - 1) ++ [0]), writes⟩
  | overflow (stored : List UInt8) (args : ℕ) (writes : List ℕ)
      (length : stored.length ≤ size - 1) :
    Meets str size m none ⟨-1, args, store m str (stored ++ [0]), writes⟩

def capacity (newline : Bool) : ℕ := if newline then maxPrintfBuf - 2 else maxPrintfBuf - 1

/-- What a log function is for: it sends what fits, inside its buffer, and nothing after an
error. -/
def Kept (sinks : List Sink) (newline : Bool) (text : Option (List UInt8)) :
    Option Logged → Prop
  | none => False
  | some r =>
    (match text with
    | some t => r.sent = sinks.map fun sink =>
        ⟨sink, t.take (capacity newline) ++ if newline then [10] else []⟩
    | none => r.stored = [] ∧ r.sent = []) ∧
    (∀ i ∈ r.stored, i < maxPrintfBuf) ∧ ∀ s ∈ r.sent, s.bytes.length ≤ maxPrintfBuf

theorem sizeT_ofNat {n : ℕ} (h : (n : ℤ) < intMax) : sizeT n = n := by
  unfold sizeT intMax at *
  omega

@[simp] theorem contents_length (m : Mem) (printBuf n : ℕ) :
    (contents m printBuf n).length = n := by
  simp [contents]

theorem contents_eq (m : Mem) {printBuf n : ℕ} (h : printBuf + n ≤ 2 ^ 32) :
    contents m printBuf n = load m printBuf n := by
  refine List.map_congr_left fun i hi => ?_
  have := List.mem_range.mp hi
  rw [element_eq (by omega)]

theorem send_eq_iff {sinks : List Sink} (hs : sinks ≠ []) {printBuf n : ℕ} {m : Mem}
    {bytes : List UInt8} :
    (send sinks printBuf n m = sinks.map fun sink => ⟨sink, bytes⟩) ↔
      contents m printBuf n = bytes := by
  constructor
  · intro h
    obtain ⟨sink, hsink⟩ := List.exists_mem_of_ne_nil _ hs
    have heach := List.map_inj_left.mp h sink hsink
    exact congrArg Sent.bytes heach
  · rintro rfl
    rfl

section Calls
variable {vsnprintf : Formatter} {printBuf : ℕ} {m : Mem} {t : List UInt8} {printed : Printed}
  {full : Option (List UInt8)} {sinks : List Sink}

theorem text_whole (hcall : vsnprintf printBuf maxPrintfBuf m = some printed)
    (h : Meets printBuf maxPrintfBuf m (some t) printed) :
    text vsnprintf printBuf m sinks =
      some ⟨printed, [], send sinks printBuf t.length printed.mem, printed.mem⟩ := by
  cases h with
  | whole _ args writes hlen =>
    rw [text, hcall]
    simp [sizeT_ofNat hlen]

theorem text_contents (hbuf : printBuf + maxPrintfBuf ≤ 2 ^ 32)
    (h : Meets printBuf maxPrintfBuf m (some t) printed) (hfit : t.length ≤ capacity false) :
    contents printed.mem printBuf t.length = t := by
  simp only [capacity, maxPrintfBuf, Bool.false_eq_true, if_false] at hfit hbuf
  cases h with
  | whole _ args writes hlen =>
    rw [contents_eq _ (by omega), List.take_of_length_le (by simp only [maxPrintfBuf]; omega),
      ← store_append, load_store_apart _ _ (.inl (Nat.le_refl _)), load_store_same]

theorem line_whole (hcall : vsnprintf printBuf (maxPrintfBuf - 1) m = some printed)
    (h : Meets printBuf (maxPrintfBuf - 1) m (some t) printed) :
    let ended := store (store printed.mem (element printBuf t.length) [10])
      (element printBuf (t.length + 1)) [0]
    line vsnprintf printBuf m sinks = some ⟨printed, [t.length, t.length + 1],
      send sinks printBuf (t.length + 1) ended, ended⟩ := by
  cases h with
  | whole _ args writes hlen =>
    have hnext : (t.length + 1) % 2 ^ 32 = t.length + 1 := by
      unfold intMax at hlen
      omega
    rw [line, hcall, Option.bind_eq_bind, Option.bind_some]
    simp only [sizeT_ofNat hlen, hnext, Nat.not_lt_zero, if_false]

theorem line_mem (hbuf : printBuf + maxPrintfBuf ≤ 2 ^ 32)
    (h : Meets printBuf (maxPrintfBuf - 1) m (some t) printed) (hfit : t.length ≤ capacity true) :
    store (store printed.mem (element printBuf t.length) [10])
      (element printBuf (t.length + 1)) [0] = store m printBuf (t ++ [10, 0]) := by
  simp only [capacity, maxPrintfBuf, if_true] at hfit hbuf
  cases h with
  | whole _ args writes hlen =>
    -- the newline takes the place of the zero byte
    have hnul : store (store (store m printBuf t) (printBuf + t.length) [0])
        (printBuf + t.length) [10] = store (store m printBuf t) (printBuf + t.length) [10] :=
      store_store _ _ (by simp)
    dsimp only
    rw [element_eq (by omega), element_eq (by omega),
      List.take_of_length_le (by simp only [maxPrintfBuf]; omega), ← store_append, hnul,
      store_append, ← Nat.add_assoc,
      show printBuf + t.length + 1 = printBuf + (t ++ [10]).length by simp [Nat.add_assoc],
      store_append]
    simp

theorem line_contents (hbuf : printBuf + maxPrintfBuf ≤ 2 ^ 32)
    (hfit : t.length ≤ capacity true) :
    contents (store m printBuf (t ++ [10, 0])) printBuf (t.length + 1) = t ++ [10] := by
  simp only [capacity, maxPrintfBuf, if_true] at hfit hbuf
  rw [contents_eq _ (by omega), show t ++ [10, 0] = (t ++ [10]) ++ [0] by simp, ← store_append,
    show t.length + 1 = (t ++ [10]).length by simp,
    load_store_apart _ _ (.inl (Nat.le_refl _)), load_store_same]

theorem text_kept_iff (hsinks : sinks ≠ []) (hbuf : printBuf + maxPrintfBuf ≤ 2 ^ 32)
    (hcall : vsnprintf printBuf maxPrintfBuf m = some printed)
    (h : Meets printBuf maxPrintfBuf m full printed) :
    Kept sinks false full (text vsnprintf printBuf m sinks) ↔
      ∃ t, full = some t ∧ t.length ≤ capacity false := by
  cases full with
  | some t =>
    rw [text_whole hcall h]
    simp only [Kept, Bool.false_eq_true, if_false, List.append_nil, send_eq_iff hsinks,
      Option.some.injEq, exists_eq_left']
    constructor
    · rintro ⟨hsent, -, -⟩
      have hlen := congrArg List.length hsent
      simp only [contents_length, List.length_take] at hlen
      omega
    · intro hfit
      refine ⟨?_, by simp, fun s hs => ?_⟩
      · rw [text_contents hbuf h hfit, List.take_of_length_le hfit]
      · obtain ⟨sink, -, rfl⟩ := List.mem_map.mp hs
        simp only [contents_length]
        exact Nat.le_trans hfit (by decide)
  | none =>
    refine ⟨fun hkept => ?_, by simp⟩
    cases h with
    | overflow stored args writes hlen =>
      rw [text, hcall] at hkept
      exact absurd (List.map_eq_nil_iff.mp hkept.1.2) hsinks

theorem line_kept_iff (hsinks : sinks ≠ []) (hbuf : printBuf + maxPrintfBuf ≤ 2 ^ 32)
    (hcall : vsnprintf printBuf (maxPrintfBuf - 1) m = some printed)
    (h : Meets printBuf (maxPrintfBuf - 1) m full printed) :
    Kept sinks true full (line vsnprintf printBuf m sinks) ↔
      ∃ t, full = some t ∧ t.length ≤ capacity true := by
  cases full with
  | some t =>
    rw [line_whole hcall h]
    simp only [Kept, if_true, send_eq_iff hsinks, Option.some.injEq, exists_eq_left']
    constructor
    · rintro ⟨-, hstored, -⟩
      have hend := hstored (t.length + 1) (by simp)
      simp only [capacity, if_true, maxPrintfBuf] at hend ⊢
      omega
    · intro hfit
      refine ⟨?_, ?_, fun s hs => ?_⟩
      · rw [line_mem hbuf h hfit, line_contents hbuf hfit, List.take_of_length_le hfit]
      · simp only [capacity, if_true, maxPrintfBuf] at hfit
        simp only [List.mem_cons, List.not_mem_nil, or_false, maxPrintfBuf]
        omega
      · obtain ⟨sink, -, rfl⟩ := List.mem_map.mp hs
        simp only [capacity, if_true, maxPrintfBuf, contents_length] at hfit ⊢
        omega
  | none =>
    refine ⟨fun hkept => ?_, by simp⟩
    cases h with
    | overflow stored args writes hlen =>
      rw [line, hcall] at hkept
      exact absurd hkept.1.1 (List.cons_ne_nil _ _)

end Calls

section Plain
variable {longBits p size printBuf : ℕ} {args : VaList} {m : Mem} {value : List UInt8}

theorem formatter_plain (longBits : ℕ) (args : VaList)
    (hp : Placed ⟨printBuf, size⟩ m p value) (hbuf : printBuf ≠ 0) (hformat : p ≠ 0)
    (hpos : 0 < size) (hlen : (value.length : ℤ) < intMax) (ht : 37 ∉ value) :
    ∃ r, formatter longBits p args printBuf size m = some r ∧
      Meets printBuf size m (some value) r ∧ r.args = 0 ∧
      ∀ a ∈ r.writes, printBuf ≤ a ∧ a < printBuf + size := by
  obtain ⟨⟨v, n, m', writes⟩, hr, rfl, rfl, rfl, hwrites⟩ :=
    vsnprintf_plain longBits args hp hbuf hformat hpos hlen ht
  exact ⟨_, hr, .whole value 0 writes hlen, rfl, hwrites⟩

theorem placed_store {str : ℕ} (h0 : 0 ∉ value) (hbuf : str + size ≤ 2 ^ 32)
    (hapart : Apart p (value.length + 1) str size) (hlen : value.length < 2 ^ 32) :
    Placed ⟨str, size⟩ (store (fun _ => 0) p value) p value :=
  ⟨⟨load_store_same _ _, h0, store_outside _ _ (.inr (Nat.le_refl _))⟩, hbuf, hapart, hlen⟩

end Plain

theorem logging_kept_iff {vsnprintf : Formatter} {printBuf : ℕ} {m : Mem}
    {full : Option (List UInt8)} {whole cut : Printed}
    (hbuf : printBuf + maxPrintfBuf ≤ 2 ^ 32)
    (hwhole : vsnprintf printBuf maxPrintfBuf m = some whole)
    (hcut : vsnprintf printBuf (maxPrintfBuf - 1) m = some cut)
    (hmeets : Meets printBuf maxPrintfBuf m full whole)
    (hmeets' : Meets printBuf (maxPrintfBuf - 1) m full cut) :
    (Kept [.tty] false full (print vsnprintf printBuf m) ↔
      ∃ t, full = some t ∧ t.length ≤ 127) ∧
    (Kept [.tty] true full (printLn vsnprintf printBuf m) ↔
      ∃ t, full = some t ∧ t.length ≤ 126) ∧
    (Kept [.log, .tty] false full (log vsnprintf printBuf m) ↔
      ∃ t, full = some t ∧ t.length ≤ 127) ∧
    (Kept [.log, .tty] true full (logLn vsnprintf printBuf m) ↔
      ∃ t, full = some t ∧ t.length ≤ 126) :=
  ⟨text_kept_iff (by simp) hbuf hwhole hmeets, line_kept_iff (by simp) hbuf hcut hmeets',
    text_kept_iff (by simp) hbuf hwhole hmeets, line_kept_iff (by simp) hbuf hcut hmeets'⟩

def noArguments : VaList := fun _ => 0

def greeting : List UInt8 := [72, 105]

theorem logging_kept_iff_greeting :
    Kept [.log, .tty] true (some greeting)
      (logLn (formatter 64 4096 noArguments) 8192 (store (fun _ => 0) 4096 greeting)) := by
  have hplaced {n : ℕ} (hn : n ≤ maxPrintfBuf) :
      Placed ⟨8192, n⟩ (store (fun _ => 0) 4096 greeting) 4096 greeting :=
    placed_store (by decide) (by simp only [maxPrintfBuf] at hn; omega) (.inl (by decide))
      (by decide)
  obtain ⟨whole, hwhole, hmeets, -⟩ := formatter_plain 64 noArguments
    (hplaced (Nat.le_refl _)) (by decide) (by decide) (by decide) (by decide) (by decide)
  obtain ⟨cut, hcut, hmeets', -⟩ := formatter_plain 64 noArguments
    (hplaced (Nat.sub_le maxPrintfBuf 1)) (by decide) (by decide) (by decide) (by decide)
    (by decide)
  exact (logging_kept_iff (by decide) hwhole hcut hmeets hmeets').2.2.2.mpr
    ⟨greeting, rfl, by decide⟩

def longText : List UInt8 := List.replicate 127 65

theorem logging_not_kept :
    ¬ Kept [.log, .tty] true (some longText)
      (logLn (formatter 64 4096 noArguments) 8192 (store (fun _ => 0) 4096 longText)) := by
  have hplaced : Placed ⟨8192, maxPrintfBuf - 1⟩ (store (fun _ => 0) 4096 longText) 4096 longText :=
    placed_store (by simp [longText]) (by decide) (.inl (by simp [longText])) (by simp [longText])
  obtain ⟨cut, hcut, hmeets, -⟩ := formatter_plain 64 noArguments hplaced (by decide) (by decide)
    (by decide) (by simp [longText, intMax]) (by simp [longText])
  rw [logLn, line_kept_iff (by decide) (by decide) hcut hmeets]
  rintro ⟨t, ht, hlen⟩
  obtain rfl := Option.some.inj ht
  simp [longText, capacity, maxPrintfBuf] at hlen

structure Verbatim (value : List UInt8) (printBuf : ℕ) (m : Mem) (r : Logged) : Prop where
  sent : r.sent = [Sink.log, Sink.tty].map fun sink => ⟨sink, value ++ [10]⟩
  args : r.printed.args = 0
  writes : ∀ a ∈ r.printed.writes, printBuf ≤ a ∧ a < printBuf + maxPrintfBuf
  stored : ∀ i ∈ r.stored, i < maxPrintfBuf
  mem : ChangesIn [(printBuf, maxPrintfBuf)] m r.mem

section Header
variable {longBits p printBuf : ℕ} {args : VaList} {m : Mem} {value : List UInt8}

theorem placed_line (hp : Placed ⟨printBuf, maxPrintfBuf⟩ m p value) :
    Placed ⟨printBuf, maxPrintfBuf - 1⟩ m p value := by
  obtain ⟨hstring, hbuffer, hapart, hlength⟩ := hp
  simp only [maxPrintfBuf] at hbuffer
  refine ⟨hstring, ?_, hapart.mono (Nat.le_refl _) (Nat.sub_le _ _), hlength⟩
  simp only [maxPrintfBuf]
  omega

theorem logLn_of_plain (longBits : ℕ) (args : VaList)
    (hp : Placed ⟨printBuf, maxPrintfBuf⟩ m p value) (hbuf : printBuf ≠ 0)
    (hformat : p ≠ 0) (hlen : (value.length : ℤ) < intMax) (ht : 37 ∉ value) :
    ∃ r, logLn (formatter longBits p args) printBuf m = some r ∧
      (Verbatim value printBuf m r ↔ value.length ≤ capacity true) := by
  obtain ⟨printed, hcall, hmeets, hargs, hwrites⟩ :=
    formatter_plain longBits args (placed_line hp) hbuf hformat (by decide) hlen ht
  refine ⟨_, line_whole hcall hmeets, fun h => ?_, fun hfit => ?_⟩
  · have hend := h.stored (value.length + 1) (by simp)
    simp only [capacity, if_true, maxPrintfBuf] at hend ⊢
    omega
  · rw [line_mem hp.buffer hmeets hfit]
    have hsmall : value.length ≤ 126 := hfit
    refine ⟨?_, hargs, fun a ha => ?_, ?_, ?_⟩
    · rw [send_eq_iff (by simp)]
      exact line_contents hp.buffer hfit
    · have := hwrites a ha
      simp only [maxPrintfBuf] at this ⊢
      omega
    · simp only [List.mem_cons, List.not_mem_nil, or_false, maxPrintfBuf]
      omega
    · refine .store (r := (printBuf, maxPrintfBuf)) (by simp) (Nat.le_refl _) ?_
      simp only [List.length_append, List.length_cons, List.length_nil, maxPrintfBuf]
      omega

theorem logLn_of_percent (hp : Placed ⟨printBuf, maxPrintfBuf⟩ m p value) (hbuf : printBuf ≠ 0)
    (hformat : p ≠ 0) (hlen : (value.length : ℤ) < intMax) (ht : 37 ∈ value) {r : Logged}
    (h : logLn (formatter longBits p args) printBuf m = some r) :
    ¬ Verbatim value printBuf m r := by
  intro hv
  obtain ⟨printed, hcall, h⟩ := Option.bind_eq_some_iff.mp h
  simp only [Nat.not_lt_zero, if_false, Option.some.injEq] at h
  subst h
  rcases vsnprintf_lags (placed_line hp) hbuf hformat (by decide) ht hcall with
    hargs | ⟨hlow, hhigh⟩
  · exact hargs hv.args
  · have hsent := congrArg List.length ((send_eq_iff (by simp)).mp hv.sent)
    simp only [contents_length, List.length_append, List.length_singleton, sizeT] at hsent
    unfold intMax at hlen
    omega

/-- `LogLn(hash_header.value)` -/
theorem logLn_verbatim_iff (longBits : ℕ) (args : VaList)
    (hp : Placed ⟨printBuf, maxPrintfBuf⟩ m p value) (hbuf : printBuf ≠ 0)
    (hformat : p ≠ 0) (hlen : (value.length : ℤ) < intMax) :
    (∃ r, logLn (formatter longBits p args) printBuf m = some r ∧ Verbatim value printBuf m r) ↔
      37 ∉ value ∧ value.length ≤ 126 := by
  constructor
  · rintro ⟨r, hr, hv⟩
    have ht : 37 ∉ value := fun ht => logLn_of_percent hp hbuf hformat hlen ht hr hv
    obtain ⟨r', hr', hiff⟩ := logLn_of_plain longBits args hp hbuf hformat hlen ht
    obtain rfl := Option.some.inj (hr.symm.trans hr')
    exact ⟨ht, hiff.mp hv⟩
  · rintro ⟨ht, hfit⟩
    obtain ⟨r, hr, hiff⟩ := logLn_of_plain longBits args hp hbuf hformat hlen ht
    exact ⟨r, hr, hiff.mpr hfit⟩

theorem logLn_verbatim_iff_greeting :
    ∃ r, logLn (formatter 64 4096 noArguments) 8192 (store (fun _ => 0) 4096 greeting) = some r ∧
      Verbatim greeting 8192 (store (fun _ => 0) 4096 greeting) r := by
  have hplaced : Placed ⟨8192, maxPrintfBuf⟩ (store (fun _ => 0) 4096 greeting) 4096 greeting :=
    placed_store (by decide) (by decide) (.inl (by decide)) (by decide)
  exact (logLn_verbatim_iff 64 noArguments hplaced (by decide) (by decide) (by decide)).mpr
    ⟨by decide, by decide⟩

def conversion : List UInt8 := [37, 120]

theorem logLn_not_verbatim :
    ¬ ∃ r, logLn (formatter 64 4096 noArguments) 8192
      (store (fun _ => 0) 4096 conversion) = some r ∧
        Verbatim conversion 8192 (store (fun _ => 0) 4096 conversion) r := by
  rintro ⟨r, hr, hv⟩
  have hplaced : Placed ⟨8192, maxPrintfBuf⟩ (store (fun _ => 0) 4096 conversion) 4096
      conversion := placed_store (by decide) (by decide) (.inl (by decide)) (by decide)
  exact logLn_of_percent hplaced (by decide) (by decide) (by decide) (by decide) hr hv

end Header
end Patchwork.Logger
