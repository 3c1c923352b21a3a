import Patchwork.Logger
import Patchwork.PrintedNumbers
import Patchwork.Restart

/-!
# The lines of the log

The formats that the plugin logs with arguments, as `Vsnprintf` prints them. A line
with numbers is always sent whole. A line with a configured string is cut, or runs
past the buffer, where the string is too long for it. What holds of any format at all
stands at the end.
-/

namespace Patchwork.LogLines
open ByteMemory Printf FormatText NumberText Numeral Rendering PrintedNumbers Logger Util

def words (s : String) : List Piece := (ascii s).map .literal

def decimalPiece : Piece := .directive ⟨[], .digits [], none, .none, .d⟩
def hexPiece : Piece := .directive ⟨[], .digits [], none, .none, .X⟩

theorem four_lt_ten : 4 < 10 := by decide

def hex4Piece : Piece := .directive ⟨[.zero], .digits [⟨4, four_lt_ten⟩], none, .none, .X⟩
def stringPiece : Piece := .directive ⟨[], .digits [], none, .none, .s⟩
def charPiece : Piece := .directive ⟨[], .digits [], none, .none, .c⟩

def reloadedLine : List Piece := words "PRX was reloaded from PRX ID: " ++ [decimalPiece]
def loadFailedLine : List Piece := words "Failed to load module of id: " ++ [decimalPiece]
def unloadFailedLine : List Piece := words "Failed to unload module of id: " ++ [decimalPiece]
def indirectLine : List Piece := words "Applying indirect patch to offset 0x" ++ [hexPiece]
def directLine : List Piece := words "Applying direct patch to offset 0x" ++ [hexPiece]
def branchLine : List Piece :=
  words "Generating relative branch from " ++ [hex4Piece] ++ words " to " ++ [hex4Piece]

def numberLines : List (List Piece) :=
  [reloadedLine, loadFailedLine, unloadFailedLine, indirectLine, directLine, branchLine]

def agentFormat : List Piece :=
  words "PatchworkLBP" ++ [charPiece] ++ words " " ++ [stringPiece] ++ words "." ++ [stringPiece] ++
    words " " ++ [stringPiece]

section Texts
variable {longBits : ℕ} {args : VaList} {string : ℕ → List UInt8} {ps ps' : List Piece} {j : ℕ}

theorem items_append (ps ps' : List Piece) (j : ℕ) :
    items args (ps ++ ps') j = items args ps j ++ items args ps' (taken args ps j) := by
  induction ps generalizing j with
  | nil => rfl
  | cons p ps ih => exact congrArg (p.item args j :: ·) (ih _)

theorem rendered_append (ps ps' : List Piece) (j : ℕ) :
    rendered longBits args string (ps ++ ps') j =
      rendered longBits args string ps j ++
        rendered longBits args string ps' (taken args ps j) := by
  rw [rendered, items_append, List.flatMap_append]
  rfl

theorem taken_append (ps ps' : List Piece) (j : ℕ) :
    taken args (ps ++ ps') j = taken args ps' (taken args ps j) := by
  induction ps generalizing j with
  | nil => rfl
  | cons p ps ih => exact ih _

@[simp] theorem rendered_words (s : String) (j : ℕ) :
    rendered longBits args string (words s) j = ascii s := by
  unfold words
  induction ascii s generalizing j with
  | nil => rfl
  | cons c cs ih => exact congrArg (c :: ·) (ih j)

@[simp] theorem taken_words (s : String) (j : ℕ) : taken args (words s) j = j := by
  unfold words
  induction ascii s generalizing j with
  | nil => rfl
  | cons c cs ih => exact ih j

theorem rendered_singleton (p : Piece) (j : ℕ) : rendered longBits args string [p] j =
    (p.item args j).text longBits args string := by
  simp [rendered, items]

end Texts

section Bounds
variable {value : BitVec 64} {base n : ℕ} {width : ℤ} {flags : Flags}

theorem intText_length_le (hb : 8 ≤ base) (hn : 0 < n) (hlt : magnitude value flags < base ^ n)
    (hnum : flags.num = false) (hquote : flags.quote = false) (hlow : 0 ≤ width)
    (hhigh : width ≤ intMax) (hsmall : n < 2 ^ 31) :
    (intText value base width (-1) flags).length ≤ max width.toNat (n + 1) := by
  have hdigits : (digits value base flags).length ≤ n := by
    rw [digits_length hb]
    exact numeral_length_le (by omega) hn hlt
  have hpos : 0 < (digits value base flags).length := by
    rw [digits_length hb]
    exact numeral_length_pos _ _
  have hsign : (signOf value flags).length ≤ 1 := by
    unfold signOf
    split_ifs <;> simp
  have hprefix : (hexPrefix value base flags).length = 0 := by simp [hexPrefix, hnum]
  have hsep : separators value base flags = 0 := by simp [separators, hquote]
  have hprecision : precision' value base (-1) flags = -1 := by simp [precision', hnum]
  have hcolumns : columns value base (-1) flags =
      (digits value base flags).length + (signOf value flags).length := by
    rw [columns, hprecision, hsep, hprefix]
    omega
  rw [intText_length, spadlen_eq hlow hhigh (by omega), hcolumns]
  unfold zpadlen
  rw [hprecision, hsep, hprefix]
  omega

theorem magnitude_intArg (longBits : ℕ) (slot : BitVec 64) :
    magnitude (intArg longBits .none slot) noFlags < 10 ^ 10 := by
  rw [magnitude_eq]
  have hrange : (intArg longBits .none slot).toInt = (slot.setWidth 32).toInt :=
    BitVec.toInt_signExtend_of_le (by decide)
  have hlow := BitVec.le_toInt (slot.setWidth 32)
  have hhigh := BitVec.toInt_lt (x := slot.setWidth 32)
  simp only [number, noFlags, Bool.false_eq_true, if_false, hrange]
  omega

theorem magnitude_uintArg (longBits : ℕ) (slot : BitVec 64) {flags : Flags}
    (h : flags.isUnsigned = true) : magnitude (uintArg longBits .none slot) flags < 16 ^ 8 := by
  have hlt := (slot.setWidth 32).isLt
  simp only [magnitude, h, true_or, if_true, uintArg, unsignedArg, BitVec.toNat_setWidth] at hlt ⊢
  omega

end Bounds

section Lines
variable (longBits : ℕ) (args : VaList) (string : ℕ → List UInt8) {j : ℕ}

theorem decimalPiece_length (j : ℕ) :
    ((decimalPiece.item args j).text longBits args string).length ≤ 11 := by
  change (intText (intArg longBits .none (args j)) 10 0 (-1) noFlags).length ≤ 11
  exact intText_length_le (by decide) (by decide) (magnitude_intArg longBits _) rfl rfl (by decide)
    (by decide) (by decide)

theorem hexPiece_length (j : ℕ) :
    ((hexPiece.item args j).text longBits args string).length ≤ 11 := by
  change (intText (uintArg longBits .none (args j)) 16 0 (-1)
    { noFlags with isUnsigned := true, up := true }).length ≤ 11
  exact (intText_length_le (by decide) (by decide) (magnitude_uintArg longBits _ rfl) rfl rfl
    (by decide) (by decide) (by decide)).trans (by decide)

theorem hex4Piece_length (j : ℕ) :
    ((hex4Piece.item args j).text longBits args string).length ≤ 11 := by
  change (intText (uintArg longBits .none (args j)) 16 4 (-1)
    { noFlags with zero := true, isUnsigned := true, up := true }).length ≤ 11
  exact (intText_length_le (by decide) (by decide) (magnitude_uintArg longBits _ rfl) rfl rfl
    (by decide) (by decide) (by decide)).trans (by decide)

variable {longBits args string}

theorem line_length {p : Piece} (s : String) (j : ℕ)
    (hp : ∀ j, ((p.item args j).text longBits args string).length ≤ 11) :
    (rendered longBits args string (words s ++ [p]) j).length ≤ (ascii s).length + 11 := by
  rw [rendered_append, rendered_words, rendered_singleton, List.length_append]
  exact Nat.add_le_add_left (hp _) _

theorem numberLines_length {ps : List Piece} (h : ps ∈ numberLines) (j : ℕ) :
    (rendered longBits args string ps j).length ≤ 126 := by
  have hdecimal := decimalPiece_length longBits args string
  have hhex := hexPiece_length longBits args string
  have hhex4 := hex4Piece_length longBits args string
  simp only [numberLines, List.mem_cons, List.not_mem_nil, or_false] at h
  rcases h with rfl | rfl | rfl | rfl | rfl | rfl
  · exact (line_length _ j hdecimal).trans (by decide)
  · exact (line_length _ j hdecimal).trans (by decide)
  · exact (line_length _ j hdecimal).trans (by decide)
  · exact (line_length _ j hhex).trans (by decide)
  · exact (line_length _ j hhex).trans (by decide)
  · have hfirst := line_length "Generating relative branch from " j hhex4
    have hsecond := line_length " to "
      (taken args (words "Generating relative branch from " ++ [hex4Piece]) j) hhex4
    have h₁ : (ascii "Generating relative branch from ").length = 32 := by decide
    have h₂ : (ascii " to ").length = 4 := by decide
    rw [branchLine, List.append_assoc (words _ ++ _), rendered_append, List.length_append]
    omega

end Lines

structure SendsLine (sinks : List Sink) (t : List UInt8) (args printBuf : ℕ) (m : Mem)
    (r : Logged) : Prop where
  sent : r.sent = sinks.map fun sink => ⟨sink, t ++ [10]⟩
  args : r.printed.args = args
  writes : ∀ a ∈ r.printed.writes, printBuf ≤ a ∧ a < printBuf + maxPrintfBuf
  stored : ∀ i ∈ r.stored, i < maxPrintfBuf
  mem : ChangesIn [(printBuf, maxPrintfBuf)] m r.mem

section Sent
variable {longBits printBuf q : ℕ} {args : VaList} {string : ℕ → List UInt8} {m : Mem}
  {ps : List Piece} {sinks : List Sink}

theorem line_ready (longBits : ℕ) (args : VaList) (sinks : List Sink)
    (h : Ready longBits printBuf (maxPrintfBuf - 1) q args string m ps) (hbuf : printBuf ≠ 0)
    (hend : printBuf + maxPrintfBuf ≤ 2 ^ 32)
    (hlen : ((rendered longBits args string ps 0).length : ℤ) < intMax) :
    ∃ r, line (formatter longBits q args) printBuf m sinks = some r ∧
      (SendsLine sinks (rendered longBits args string ps 0) (taken args ps 0) printBuf m r ↔
        (rendered longBits args string ps 0).length ≤ 126) := by
  obtain ⟨s, hcall, hholds, htaken⟩ := h.holds
  have hprints := hholds.prints h.buffer
  rw [htaken] at hprints
  generalize finish _ _ = r at hcall hprints
  obtain ⟨v, n, m', writes⟩ := r
  obtain ⟨hvalue, hargs, hmem, hwrites⟩ := hprints
  have hroom : room printBuf (maxPrintfBuf - 1) = maxPrintfBuf - 1 := if_neg hbuf
  dsimp only at hvalue hargs hmem hwrites
  rw [if_pos hlen] at hvalue
  rw [hroom, kept, if_neg (by decide)] at hmem
  subst hvalue hmem
  have hmeets : Meets printBuf (maxPrintfBuf - 1) m (some (rendered longBits args string ps 0)) _ :=
    .whole _ n writes hlen
  refine ⟨_, line_whole hcall hmeets, fun hs => ?_, fun hfit => ?_⟩
  · have hlast := hs.stored ((rendered longBits args string ps 0).length + 1) (by simp)
    simp only [maxPrintfBuf] at hlast
    omega
  · rw [line_mem hend hmeets hfit]
    refine ⟨?_, hargs, fun a ha => ?_, ?_, ?_⟩
    · refine List.map_congr_left fun sink _ => ?_
      rw [line_contents hend hfit]
    · have := hwrites a ha
      rw [hroom] at this
      simp only [maxPrintfBuf] at this ⊢
      omega
    · simp only [List.mem_cons, List.not_mem_nil, or_false, maxPrintfBuf]
      omega
    · refine .store (r := (printBuf, maxPrintfBuf)) (by simp) (Nat.le_refl _) ?_
      simp only [List.length_append, List.length_cons, List.length_nil, maxPrintfBuf]
      omega

theorem mem_items {i : Item} {j : ℕ} (h : i ∈ items args ps j) :
    ∃ p ∈ ps, ∃ k, i = p.item args k := by
  induction ps generalizing j with
  | nil => cases h
  | cons p ps ih =>
    rcases List.mem_cons.mp h with rfl | h
    · exact ⟨p, List.mem_cons_self, j, rfl⟩
    · obtain ⟨p', hp', hi⟩ := ih h
      exact ⟨p', List.mem_cons_of_mem _ hp', hi⟩

def takesString : Piece → Bool
  | .literal _ => false
  | .directive D => D.conv = .s

theorem words_takes_no_string (s : String) : ∀ p ∈ words s, takesString p = false := by
  intro p hp
  obtain ⟨c, -, rfl⟩ := List.mem_map.mp hp
  rfl

theorem supplied_of_numbers {d : Dest} (hps : ∀ p ∈ ps, takesString p = false) {i : Item} {j : ℕ}
    (h : i ∈ items args ps j) : Item.Supplied d m args string i := by
  obtain ⟨p, hp, k, rfl⟩ := mem_items h
  have hno := hps p hp
  cases p with
  | literal ch => trivial
  | directive D =>
    obtain ⟨flags, width, precision, modifier, conv⟩ := D
    cases conv with
    | s => simp [takesString] at hno
    | d | i | X | x | o | u | c | p | percent => trivial

theorem numberLines_formed : ∀ ps ∈ numberLines, (∀ p ∈ ps, p.Formed) ∧
    (∀ p ∈ ps, takesString p = false) ∧ (chars ps).length < 2 ^ 32 := by
  decide

/-- A line with numbers is sent whole, whatever the numbers are. -/
theorem numberLines_sent (longBits : ℕ) (args : VaList) (string : ℕ → List UInt8)
    (hps : ps ∈ numberLines) (hformat : q ≠ 0) (hbuf : printBuf ≠ 0)
    (hend : printBuf + maxPrintfBuf ≤ 2 ^ 32)
    (hlies : Lies ⟨printBuf, maxPrintfBuf - 1⟩ m q (chars ps)) :
    (∃ r, logLn (formatter longBits q args) printBuf m = some r ∧
      SendsLine [.log, .tty] (rendered longBits args string ps 0) (taken args ps 0) printBuf m r) ∧
    ∃ r, printLn (formatter longBits q args) printBuf m = some r ∧
      SendsLine [.tty] (rendered longBits args string ps 0) (taken args ps 0) printBuf m r := by
  obtain ⟨hformed, hnumbers, hlength⟩ := numberLines_formed ps hps
  have hfit : (rendered longBits args string ps 0).length ≤ 126 := numberLines_length hps 0
  have hroom : room printBuf (maxPrintfBuf - 1) = maxPrintfBuf - 1 := if_neg hbuf
  have hready : Ready longBits printBuf (maxPrintfBuf - 1) q args string m ps := by
    refine ⟨hformat, ?_, hformed, ?_, hlength, fun i hi => supplied_of_numbers hnumbers hi, ?_⟩
    · rw [hroom]
      simp only [maxPrintfBuf] at hend ⊢
      omega
    · rwa [hroom]
    · omega
  have hshort : ((rendered longBits args string ps 0).length : ℤ) < intMax := by
    unfold intMax
    omega
  obtain ⟨r, hr, hsent⟩ := line_ready longBits args [.log, .tty] hready hbuf hend hshort
  obtain ⟨r', hr', hsent'⟩ := line_ready longBits args [.tty] hready hbuf hend hshort
  exact ⟨⟨r, hr, hsent.mpr hfit⟩, r', hr', hsent'.mpr hfit⟩

theorem numberLines_sent_direct :
    (∃ r, logLn (formatter 64 4096 fun _ => 0x767C40) 8192
        (store (fun _ => 0) 4096 (chars directLine)) = some r ∧
      SendsLine [.log, .tty] (rendered 64 (fun _ => 0x767C40) (fun _ => []) directLine 0) 1 8192
        (store (fun _ => 0) 4096 (chars directLine)) r) ∧
    ∃ r, printLn (formatter 64 4096 fun _ => 0x767C40) 8192
        (store (fun _ => 0) 4096 (chars directLine)) = some r ∧
      SendsLine [.tty] (rendered 64 (fun _ => 0x767C40) (fun _ => []) directLine 0) 1 8192
        (store (fun _ => 0) 4096 (chars directLine)) r :=
  numberLines_sent 64 _ _ (by decide) (by decide) (by decide) (by decide)
    ⟨⟨load_store_same _ _, by decide, by decide⟩, .inl (by decide)⟩

def stringWords : List String :=
  ["Server URL: ", "Digest Key: ", "Selected patches for LBP", "User agent: "]

theorem stringPiece_text {j : ℕ} {t : List UInt8} (hp : pointerArg (args j) ≠ 0)
    (ht : string (pointerArg (args j)) = t) (hlen : t.length < 2 ^ 31) :
    (stringPiece.item args j).text longBits args string = t := by
  change stringText 0 (-1) noFlags
    (if pointerArg (args j) = 0 then [] else string (pointerArg (args j))) = t
  have hpad : (int32 (0 - t.length)).toNat = 0 := by
    rw [int32_eq (by omega) (by omega)]
    omega
  rw [if_neg hp, ht, stringText]
  simp only [if_true, hpad, noFlags, List.replicate_zero, List.nil_append, Bool.false_eq_true,
    if_false]

theorem rendered_stringLine (s : String) {t : List UInt8} (hp : pointerArg (args 0) ≠ 0)
    (ht : string (pointerArg (args 0)) = t) (hlen : t.length < 2 ^ 31) :
    rendered longBits args string (words s ++ [stringPiece]) 0 = ascii s ++ t := by
  rw [rendered_append, rendered_words, rendered_singleton, taken_words,
    stringPiece_text hp ht hlen]

theorem stringWords_formed : ∀ s ∈ stringWords, (∀ p ∈ words s ++ [stringPiece], p.Formed) ∧
    (chars (words s ++ [stringPiece])).length < 2 ^ 32 := by
  decide

theorem supplies_of_isCString {d : Dest} {p : ℕ} {t : List UInt8} (h : IsCString m p t)
    (hapart : Apart p (t.length + 1) d.str d.size) (hlen : t.length < 2 ^ 32) :
    Supplies d m p (-1) t :=
  ⟨⟨fun _ hi => h.char hi, h.nonzero, .inl h.stop⟩, hapart, hlen⟩

/-- A line with a string is sent whole where the words and the string are 126 characters at
most. -/
theorem stringLines_sent_iff (longBits : ℕ) (args : VaList) {s : String} {t : List UInt8}
    (hs : s ∈ stringWords) (hformat : q ≠ 0) (hbuf : printBuf ≠ 0)
    (hend : printBuf + maxPrintfBuf ≤ 2 ^ 32)
    (hlies : Lies ⟨printBuf, maxPrintfBuf - 1⟩ m q (chars (words s ++ [stringPiece])))
    (hp : pointerArg (args 0) ≠ 0) (ht : IsCString m (pointerArg (args 0)) t)
    (hapart : Apart (pointerArg (args 0)) (t.length + 1) printBuf (maxPrintfBuf - 1))
    (hlen : ((ascii s ++ t).length : ℤ) < intMax) :
    ∃ r, logLn (formatter longBits q args) printBuf m = some r ∧
      (SendsLine [.log, .tty] (ascii s ++ t) 1 printBuf m r ↔ (ascii s ++ t).length ≤ 126) := by
  obtain ⟨hformed, hlength⟩ := stringWords_formed s hs
  have hroom : room printBuf (maxPrintfBuf - 1) = maxPrintfBuf - 1 := if_neg hbuf
  have htaken : taken args (words s ++ [stringPiece]) 0 = 1 := by
    rw [taken_append, taken_words]
    rfl
  have hshort : (ascii s ++ t).length < 2 ^ 31 := by
    unfold intMax at hlen
    omega
  have htlen : t.length < 2 ^ 31 := by
    rw [List.length_append] at hshort
    omega
  have htext : rendered longBits args (fun _ => t) (words s ++ [stringPiece]) 0 = ascii s ++ t :=
    rendered_stringLine s hp rfl htlen
  have hready : Ready longBits printBuf (maxPrintfBuf - 1) q args (fun _ => t) m
      (words s ++ [stringPiece]) := by
    refine ⟨hformat, ?_, hformed, ?_, hlength, fun i hi => ?_, ?_⟩
    · rw [hroom]
      simp only [maxPrintfBuf] at hend ⊢
      omega
    · rwa [hroom]
    · rw [items_append, taken_words] at hi
      rcases List.mem_append.mp hi with hi | hi
      · exact supplied_of_numbers (words_takes_no_string s) hi
      · obtain rfl := List.mem_singleton.mp hi
        intro _
        rw [hroom]
        exact supplies_of_isCString ht hapart (Nat.lt_trans htlen (by decide))
    · rw [htext]
      omega
  have hsent := line_ready longBits args [.log, .tty] hready hbuf hend (by rwa [htext])
  rwa [htext, htaken] at hsent

def serverText : List UInt8 := ascii "http://lbp.lbpbonsai.com/lbp"

def serverMem : Mem :=
  store (store (fun _ => 0) 4096 (chars (words "Server URL: " ++ [stringPiece]))) 6144 serverText

theorem stringLines_sent_iff_server : ∃ r,
    logLn (formatter 64 4096 fun _ => 6144) 8192 serverMem = some r ∧
      (SendsLine [.log, .tty] (ascii "Server URL: " ++ serverText) 1 8192 serverMem r ↔
        (ascii "Server URL: " ++ serverText).length ≤ 126) :=
  stringLines_sent_iff 64 _ (by decide) (by decide) (by decide) (by decide)
    ⟨⟨by decide, by decide, by decide⟩, .inl (by decide)⟩ (by decide)
    ⟨by decide, by decide, by decide⟩ (.inl (by decide)) (by decide)

end Sent

section Agent
open Prx
variable {longBits q : ℕ} {m : Mem}

def agentStrings (S : Setting) (options : PatchworkConfigOptions) : List (List UInt8) :=
  [ascii S.major, ascii S.minor, ascii (if options.enableJoinKey ≠ 0 then "" else "NK")]

/-- The arguments of `Snprintf` in `start`: the character of `game_num_str` and the three
strings, apart from the buffer. -/
structure AgentArgs (S : Setting) (options : PatchworkConfigOptions) (args : VaList) (m : Mem) :
    Prop where
  char : UInt8.ofBitVec ((args 0).setWidth 8) = m S.frame.gameNumStr
  strings : ∀ i t, (agentStrings S options)[i]? = some t → pointerArg (args (i + 1)) ≠ 0 ∧
    IsCString m (pointerArg (args (i + 1))) t ∧
    Apart (pointerArg (args (i + 1))) (t.length + 1) S.frame.userAgent 64

def agentString (S : Setting) (options : PatchworkConfigOptions) (args : VaList) (p : ℕ) :
    List UInt8 :=
  if p = pointerArg (args 1) then ascii S.major
  else if p = pointerArg (args 2) then ascii S.minor
  else ascii (if options.enableJoinKey ≠ 0 then "" else "NK")

section Args
variable {S : Setting} {options : PatchworkConfigOptions} {args : VaList}

theorem AgentArgs.string (h : AgentArgs S options args m) {i : ℕ} {t : List UInt8}
    (hi : (agentStrings S options)[i]? = some t) :
    agentString S options args (pointerArg (args (i + 1))) = t := by
  have hmajor := (h.strings 0 _ rfl).2.1
  have hminor := (h.strings 1 _ rfl).2.1
  have ht := (h.strings i t hi).2.1
  unfold agentString
  by_cases h₁ : pointerArg (args (i + 1)) = pointerArg (args 1)
  · rw [if_pos h₁]
    exact hmajor.unique (h₁ ▸ ht)
  · by_cases h₂ : pointerArg (args (i + 1)) = pointerArg (args 2)
    · rw [if_neg h₁, if_pos h₂]
      exact hminor.unique (h₂ ▸ ht)
    · rw [if_neg h₁, if_neg h₂]
      match i, hi with
      | 0, _ => exact absurd rfl h₁
      | 1, _ => exact absurd rfl h₂
      | 2, hi => exact Option.some.inj hi

theorem ascii_append (s s' : String) : ascii (s ++ s') = ascii s ++ ascii s' := by
  simp [ascii]

theorem rendered_agentFormat (h : AgentArgs S options args m)
    (hlen : ∀ t ∈ agentStrings S options, t.length < 2 ^ 31) :
    rendered longBits args (agentString S options args) agentFormat 0 =
      userAgentText S options (m S.frame.gameNumStr) := by
  have hchar : (charPiece.item args 0).text longBits args (agentString S options args) =
      [m S.frame.gameNumStr] := congrArg (fun c => [c]) h.char
  have htaken : taken args [charPiece] 0 = 1 := rfl
  have hnext (j : ℕ) : taken args [stringPiece] j = j + 1 := rfl
  have hstring {i : ℕ} {t : List UInt8} (hi : (agentStrings S options)[i]? = some t) :
      (stringPiece.item args (i + 1)).text longBits args (agentString S options args) = t :=
    stringPiece_text (h.strings i t hi).1 (h.string hi) (hlen t (List.mem_of_getElem? hi))
  simp only [agentFormat, rendered_append, rendered_words, rendered_singleton, taken_words, htaken,
    hnext, hchar, hstring (i := 0) rfl, hstring (i := 1) rfl, hstring (i := 2) rfl, userAgentText,
    ascii_append, List.append_assoc]

theorem agentFormat_supplied (h : AgentArgs S options args m)
    (hlen : ∀ t ∈ agentStrings S options, t.length < 2 ^ 32) {i : Item}
    (hi : i ∈ items args agentFormat 0) :
    Item.Supplied ⟨S.frame.userAgent, 64⟩ m args (agentString S options args) i := by
  have hwords {s : String} {j : ℕ} (hi : i ∈ items args (words s) j) :
      Item.Supplied ⟨S.frame.userAgent, 64⟩ m args (agentString S options args) i :=
    supplied_of_numbers (words_takes_no_string s) hi
  have hstring {k : ℕ} {t : List UInt8} (ht : (agentStrings S options)[k]? = some t)
      (hi : i ∈ items args [stringPiece] (k + 1)) :
      Item.Supplied ⟨S.frame.userAgent, 64⟩ m args (agentString S options args) i := by
    obtain rfl := List.mem_singleton.mp hi
    obtain ⟨-, hchars, hapart⟩ := h.strings k t ht
    intro _
    have hsupplies : Supplies ⟨S.frame.userAgent, 64⟩ m (pointerArg (args (k + 1))) (-1) t :=
      supplies_of_isCString hchars hapart (hlen t (List.mem_of_getElem? ht))
    rwa [← h.string ht] at hsupplies
  have htaken : taken args [charPiece] 0 = 1 := rfl
  have hnext (j : ℕ) : taken args [stringPiece] j = j + 1 := rfl
  simp only [agentFormat, items_append, taken_append, taken_words, htaken, hnext,
    List.mem_append] at hi
  rcases hi with ((((((hi | hi) | hi) | hi) | hi) | hi) | hi) | hi
  · exact hwords hi
  · obtain rfl := List.mem_singleton.mp hi
    trivial
  · exact hwords hi
  · exact hstring (k := 0) rfl hi
  · exact hwords hi
  · exact hstring (k := 1) rfl hi
  · exact hwords hi
  · exact hstring (k := 2) rfl hi

theorem agentFormat_formed :
    (∀ p ∈ agentFormat, p.Formed) ∧ (chars agentFormat).length < 2 ^ 32 := by
  decide

/-- The call of `Snprintf` in `start` leaves the user agent, cut to its buffer. -/
theorem userAgent_printed (S : Setting) (options : PatchworkConfigOptions) (longBits : ℕ)
    (h : AgentArgs S options args m) (hformat : q ≠ 0) (hbuf : S.frame.userAgent ≠ 0)
    (hend : S.frame.userAgent + 64 ≤ 2 ^ 32)
    (hlies : Lies ⟨S.frame.userAgent, 64⟩ m q (chars agentFormat))
    (hlen : (userAgentText S options (m S.frame.gameNumStr)).length < 2 ^ 31) :
    ∃ r, vsnprintf longBits S.frame.userAgent 64 q args m = some r ∧ r.args = 4 ∧
      r.mem = Prx.snprintf S.frame.userAgent 64
        (userAgentText S options (m S.frame.gameNumStr)) m ∧
      ∀ a ∈ r.writes, S.frame.userAgent ≤ a ∧ a < S.frame.userAgent + 64 := by
  have hroom : room S.frame.userAgent 64 = 64 := if_neg hbuf
  have hstrings : ∀ t ∈ agentStrings S options, t.length < 2 ^ 31 := fun t ht => by
    simp only [userAgentText, ascii_append, List.length_append] at hlen
    simp only [agentStrings, List.mem_cons, List.not_mem_nil, or_false] at ht
    rcases ht with rfl | rfl | rfl <;> omega
  have hready : Ready longBits S.frame.userAgent 64 q args (agentString S options args) m
      agentFormat := by
    refine ⟨hformat, by rwa [hroom], agentFormat_formed.1, by rwa [hroom], agentFormat_formed.2,
      fun i hi => ?_, ?_⟩
    · rw [hroom]
      exact agentFormat_supplied h (fun t ht => Nat.lt_trans (hstrings t ht) (by decide)) hi
    · rw [rendered_agentFormat h hstrings]
      exact Nat.lt_trans hlen (by decide)
  obtain ⟨s, hr, hholds, htaken⟩ := hready.holds
  have hprints := hholds.prints hready.buffer
  generalize finish _ _ = r at hr hprints
  obtain ⟨-, hargs, hmem, hwrites⟩ := hprints
  rw [rendered_agentFormat h hstrings, hroom] at hmem
  rw [hroom] at hwrites
  exact ⟨r, hr, hargs.trans htaken, hmem, hwrites⟩

def agentArgs : VaList := fun k => [51, 0x2000, 0x2100, 0x2200].getD k 0

def agentMem : Mem := stores (fun _ => 0)
  [⟨0x1000, chars agentFormat⟩, ⟨0x2000, ascii "2"⟩, ⟨0x2100, ascii "0"⟩, ⟨0x20300, [51, 0]⟩]

theorem agentMem_args :
    AgentArgs Restart.updatingSetting ⟨0, 0, 0, 1, 0, 0⟩ agentArgs agentMem where
  char := by decide
  strings := by
    intro i t hi
    match i, hi with
    | 0, hi | 1, hi | 2, hi =>
      obtain rfl := Option.some.inj hi
      exact ⟨by decide, ⟨by decide, by decide, by decide⟩, .inl (by decide)⟩

theorem agentMem_lies : Lies ⟨0x20400, 64⟩ agentMem 0x1000 (chars agentFormat) :=
  ⟨⟨by decide, by decide, by decide⟩, .inl (by decide)⟩

theorem agentMem_digit : agentMem 0x20300 = 51 := by decide

theorem userAgent_printed_lbp3 : ∃ r,
    vsnprintf 64 Restart.updatingSetting.frame.userAgent 64 0x1000 agentArgs agentMem = some r ∧
      r.args = 4 ∧
      r.mem = Prx.snprintf Restart.updatingSetting.frame.userAgent 64
        (userAgentText Restart.updatingSetting ⟨0, 0, 0, 1, 0, 0⟩
          (agentMem Restart.updatingSetting.frame.gameNumStr)) agentMem ∧
      ∀ a ∈ r.writes, Restart.updatingSetting.frame.userAgent ≤ a ∧
        a < Restart.updatingSetting.frame.userAgent + 64 := by
  have hlen : (userAgentText Restart.updatingSetting ⟨0, 0, 0, 1, 0, 0⟩ 51).length < 2 ^ 31 := by
    decide
  rw [← agentMem_digit] at hlen
  exact userAgent_printed Restart.updatingSetting ⟨0, 0, 0, 1, 0, 0⟩ 64 agentMem_args (by decide)
    (by decide) (by decide) agentMem_lies hlen

end Args
end Agent

section Formats
open FormatReader
variable {longBits str size q printBuf : ℕ} {args : VaList} {string : ℕ → List UInt8} {m : Mem}
  {cs : List UInt8}

def fullText (longBits : ℕ) (args : VaList) (string : ℕ → List UInt8) (cs : List UInt8) :
    Option (List UInt8) :=
  let t := meaning longBits args string (stop (readFormat args cs)).items
  if overflows (readFormat args cs) = true ∨ intMax ≤ (t.length : ℤ) then none else some t

theorem formatter_meets (longBits : ℕ) (args : VaList)
    (h : Given longBits str size q args string m cs) (hstr : str ≠ 0) (hpos : 0 < size) :
    ∃ r, formatter longBits q args str size m = some r ∧
      Meets str size m (fullText longBits args string cs) r := by
  obtain ⟨s, hcall, hends⟩ := h.ends
  obtain ⟨hvalue, -, hmem, -⟩ := hends.holds.finish h.buffer (overflows (readFormat args cs))
  refine ⟨_, hcall, ?_⟩
  generalize finish _ _ = r at hvalue hmem
  obtain ⟨v, n, m', writes⟩ := r
  have hroom : room str size = size := if_neg hstr
  dsimp only at hvalue hmem
  rw [hroom, kept, if_neg (by omega)] at hmem
  subst hvalue hmem
  unfold fullText
  dsimp only
  split_ifs with hover
  · exact .overflow _ n writes (by rw [List.length_take]; exact Nat.min_le_left _ _)
  · exact .whole _ n writes (by omega)

/-- On any format the log functions send what they are for exactly if it has a text and the text
fits. -/
theorem formats_kept_iff (longBits : ℕ) (args : VaList)
    (h : Given longBits printBuf maxPrintfBuf q args string m cs) (hbuf : printBuf ≠ 0) :
    (Kept [.tty] false (fullText longBits args string cs)
        (print (formatter longBits q args) printBuf m) ↔
      ∃ t, fullText longBits args string cs = some t ∧ t.length ≤ 127) ∧
    (Kept [.tty] true (fullText longBits args string cs)
        (printLn (formatter longBits q args) printBuf m) ↔
      ∃ t, fullText longBits args string cs = some t ∧ t.length ≤ 126) ∧
    (Kept [.log, .tty] false (fullText longBits args string cs)
        (log (formatter longBits q args) printBuf m) ↔
      ∃ t, fullText longBits args string cs = some t ∧ t.length ≤ 127) ∧
    (Kept [.log, .tty] true (fullText longBits args string cs)
        (logLn (formatter longBits q args) printBuf m) ↔
      ∃ t, fullText longBits args string cs = some t ∧ t.length ≤ 126) := by
  have hend : printBuf + maxPrintfBuf ≤ 2 ^ 32 := by
    have := h.buffer
    rwa [room, if_neg hbuf] at this
  obtain ⟨whole, hwhole, hmeets⟩ := formatter_meets longBits args h hbuf (by decide)
  obtain ⟨cut, hcut, hmeets'⟩ := formatter_meets longBits args
    (h.mono (Nat.sub_le maxPrintfBuf 1)) hbuf (by decide)
  exact ⟨text_kept_iff (by simp) hend hwhole hmeets, line_kept_iff (by simp) hend hcut hmeets',
    text_kept_iff (by simp) hend hwhole hmeets, line_kept_iff (by simp) hend hcut hmeets'⟩

def percentFormat : List UInt8 := ascii "%s: 100%!"

def percentMem : Mem := store (store (fun _ => 0) 4096 percentFormat) 8192 [97, 98]

theorem percent_given : Given 64 16384 maxPrintfBuf 4096 (fun _ => 8192) (fun _ => [97, 98])
    percentMem percentFormat := by
  have hitems : (stop (readFormat (fun _ => 8192) percentFormat)).items =
      .conversion (Spec.initial 0) .s :: (ascii ": 100").map .literal := by rfl
  refine ⟨by decide, by decide, ⟨⟨by decide, by decide, by decide⟩, .inl (by decide)⟩,
    by decide, fun i hi => ?_, ?_⟩
  · rw [hitems, List.mem_cons] at hi
    rcases hi with rfl | hi
    · exact fun _ => ⟨⟨by decide, by decide, .inl (by decide)⟩, .inl (by decide), by decide⟩
    · obtain ⟨c, -, rfl⟩ := List.mem_map.mp hi
      trivial
  · rw [hitems]
    decide

theorem formats_kept_iff_percent : Kept [.log, .tty] true (some (ascii "ab: 100"))
    (logLn (formatter 64 4096 fun _ => 8192) 16384 percentMem) := by
  have htext : fullText 64 (fun _ => 8192) (fun _ => [97, 98]) percentFormat =
      some (ascii "ab: 100") := by decide
  rw [← htext]
  exact (formats_kept_iff 64 _ percent_given (by decide)).2.2.2.mpr ⟨_, htext, by decide⟩

end Formats
end Patchwork.LogLines
