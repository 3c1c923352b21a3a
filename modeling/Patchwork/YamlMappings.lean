import Patchwork.YamlWeights

/-!
# Mappings written without escapes

Keys between quotation marks, each with its lines of plain keys and flow sequences.
Such a text is read back if every scalar is one that can be written as it is, and
only if none was lost.
-/

namespace Patchwork.YamlMappings
open Yaml YamlWeights

def keyLine (k : List Char) : List Char := quoteMark :: k ++ [quoteMark, ':']

def sequenceLine (k : List Char) (vs : List (List Char)) : List Char :=
  ' ' :: ' ' :: k ++ ':' :: ' ' :: '[' :: [',', ' '].intercalate vs ++ [']']

abbrev Node := List Char × List (List Char × List (List Char))

def nodeLines (m : Node) : List (List Char) :=
  keyLine m.1 :: m.2.map fun t => sequenceLine t.1 t.2

def written (src : List Node) : List (List Char) := src.flatMap nodeLines

def pairOf (t : List Char × List (List Char)) : Scalar × List Scalar :=
  (⟨false, t.1⟩, t.2.map (Scalar.mk false))

def nodeOf (m : Node) : Scalar × List (Scalar × List Scalar) := (⟨true, m.1⟩, m.2.map pairOf)

/-- Every scalar of the node can be written as it is, and there is a pair. -/
structure Writable (m : Node) : Prop where
  key : IsQuotedKey m.1
  pairs : m.2 ≠ []
  scalars : ∀ t ∈ m.2, IsKey t.1 ∧ ∀ v ∈ t.2, IsPlain .flow [] v

section Read
variable {k s after : List Char} {vs : List (List Char)} {m : Node} {src : List Node}

theorem doubleQuoted_of_verbatim (h : IsVerbatim s) :
    doubleQuoted .text (s ++ quoteMark :: after) = some (s, after) := by
  induction s with
  | nil => rw [List.nil_append, doubleQuoted, if_pos rfl]
  | cons c cs ih =>
    obtain ⟨⟨hj, hq, hb⟩, hcs⟩ := List.forall_mem_cons.mp h
    rw [List.cons_append, doubleQuoted, if_neg hq, if_neg hb, if_pos hj, ih hcs]
    rfl

theorem entry_keyLine (h : IsQuotedKey k) : entry (keyLine k) = some ⟨0, ⟨true, k⟩, none⟩ := by
  have hindent : indentOf (keyLine k) = 0 := by
    rw [keyLine, List.cons_append, indentOf, List.takeWhile_cons_of_neg (by decide)]
    rfl
  have hread : keyScalar (keyLine k) = some (⟨true, k⟩, [':']) := by
    have hd : doubleQuoted .text (k ++ [quoteMark, ':']) = some (k, [':']) :=
      doubleQuoted_of_verbatim h.1
    have hcolon : (quoteMark == ':') = false := by decide
    simp [keyLine, keyScalar, hcolon, scalar, hd]
  have hlimit : (keyLine k).length - (skip [':']).length ≤ keyLimit := by
    have hlen : (keyLine k).length = k.length + 3 := by simp [keyLine]
    have hskip : (skip [':']).length = 1 := by decide
    have := h.2
    omega
  simp only [entry, hindent, List.drop_zero, hread, Option.bind_eq_bind, Option.bind_some,
    if_pos hlimit]
  rfl

theorem keyScalar_of_isKey (h : IsKey k) (hafter : follows .key after = false) :
    keyScalar (k ++ ':' :: after) = some (⟨false, k⟩, ':' :: after) := by
  rcases h.1 with rfl | hplain
  · simp [keyScalar, hafter]
  · have hmono : IsPlain .key (':' :: after) k := hplain.mono fun _ => rfl
    have hstop : Stops .key (':' :: after) :=
      ⟨by decide, fun before => by simp [isPlainChar, hafter]⟩
    have hread := scalar_of_plain hmono hstop
    cases k with
    | nil => exact hplain.elim
    | cons c cs =>
      have hcolon : ¬(c = ':' ∧ follows .key (cs ++ ':' :: after) = false) := by
        rintro ⟨rfl, hf⟩
        have hstart := hmono.1
        simp [startsPlain, hf] at hstart
      simpa [keyScalar, hcolon] using hread

theorem indentOf_sequenceLine (h : IsKey k) : indentOf (sequenceLine k vs) = 2 := by
  have hspaces : (sequenceLine k vs).takeWhile (· == ' ') = [' ', ' '] := by
    rcases h.1 with rfl | hplain
    · rfl
    · cases k with
      | nil => exact hplain.elim
      | cons c cs =>
        have hc : c ≠ ' ' := by
          rintro rfl
          exact absurd (startsPlain_ne hplain.1).2.2 (by decide)
        simp [sequenceLine, hc]
  rw [indentOf, hspaces]
  rfl

theorem spells_items (h : ∀ v ∈ vs, IsPlain .flow [] v) :
    List.Forall₂ Spells vs (vs.map (Scalar.mk false)) := by
  induction vs with
  | nil => exact .nil
  | cons v vs ih =>
    obtain ⟨hv, hvs⟩ := List.forall_mem_cons.mp h
    exact .cons (spells_of_plain hv) (ih hvs)

theorem entry_sequenceLine (hk : IsKey k) (hvs : ∀ v ∈ vs, IsPlain .flow [] v) :
    entry (sequenceLine k vs) = some ⟨2, ⟨false, k⟩, some (vs.map (Scalar.mk false))⟩ := by
  have hseq := flowSequence_of_spells (spells_items hvs)
  generalize hbody : '[' :: [',', ' '].intercalate vs ++ [']'] = body at hseq
  have hline : sequenceLine k vs = ' ' :: ' ' :: (k ++ ':' :: ' ' :: body) := by
    simp [sequenceLine, ← hbody]
  have hbracket : skip (' ' :: body) = body := by
    rw [← hbody]
    rfl
  have hend : isLineEnd (' ' :: body) = false := by
    rw [isLineEnd, isComment, hbracket, ← hbody]
    rfl
  have hread : keyScalar (k ++ ':' :: ' ' :: body) = some (⟨false, k⟩, ':' :: ' ' :: body) :=
    keyScalar_of_isKey hk rfl
  have hskip : skip (':' :: ' ' :: body) = ':' :: ' ' :: body := skip_of_not_white (by decide)
  have hlimit : (k ++ ':' :: ' ' :: body).length - (skip (':' :: ' ' :: body)).length ≤
      keyLimit := by
    have := hk.2
    rw [hskip, List.length_append]
    omega
  have hcolon : (':' == ':' && !follows .key (' ' :: body)) = true := rfl
  rw [entry, indentOf_sequenceLine hk, hline]
  simp only [List.drop_succ_cons, List.drop_zero, hread, Option.bind_eq_bind, Option.bind_some,
    if_pos hlimit]
  simp only [hskip, hcolon, hend, hbracket, hseq, if_true, Bool.false_eq_true, if_false,
    Option.bind_some]

def entryOf (t : List Char × List (List Char)) : Entry :=
  ⟨2, ⟨false, t.1⟩, some (t.2.map (Scalar.mk false))⟩

def nodeEntries (m : Node) : List Entry := ⟨0, ⟨true, m.1⟩, none⟩ :: m.2.map entryOf

section Entries
variable {line : List Char} {lines : List (List Char)} {e : Entry} {es : List Entry}
  {ts : List (List Char × List (List Char))}

theorem entries_cons (hcomment : isComment line = false) (hmarker : isMarker line = false)
    (he : entry line = some e) (hes : entries lines = some es) :
    entries (line :: lines) = some (e :: es) := by
  simp [entries, hcomment, hmarker, he, hes]

theorem isComment_sequenceLine (h : IsKey k) : isComment (sequenceLine k vs) = false := by
  rcases h.1 with rfl | hplain
  · rfl
  · cases k with
    | nil => exact hplain.elim
    | cons c cs =>
      have hskip : skip (sequenceLine (c :: cs) vs) = (sequenceLine (c :: cs) vs).drop 2 := by
        change skip (c :: (sequenceLine (c :: cs) vs).drop 3) = _
        exact skip_of_not_white (startsPlain_ne hplain.1).2.2
      have hc : c ≠ '#' := by
        rintro rfl
        exact absurd hplain.1 (by simp [startsPlain, isIndicator])
      rw [isComment, hskip]
      simp [sequenceLine, hc]

theorem entries_pairs (h : ∀ t ∈ ts, IsKey t.1 ∧ ∀ v ∈ t.2, IsPlain .flow [] v)
    (hes : entries lines = some es) :
    entries (ts.map (fun t => sequenceLine t.1 t.2) ++ lines) = some (ts.map entryOf ++ es) := by
  induction ts with
  | nil => exact hes
  | cons t ts ih =>
    obtain ⟨⟨hk, hvs⟩, hts⟩ := List.forall_mem_cons.mp h
    exact entries_cons (isComment_sequenceLine hk) rfl (entry_sequenceLine hk hvs) (ih hts)

theorem entries_written (h : ∀ m ∈ src, Writable m) :
    entries (written src ++ [[]]) = some (src.flatMap nodeEntries) := by
  induction src with
  | nil => rfl
  | cons m src ih =>
    obtain ⟨hm, hsrc⟩ := List.forall_mem_cons.mp h
    have hpairs := entries_pairs hm.scalars (ih hsrc)
    have hcomment : isComment (keyLine m.1) = false := by
      rw [isComment, keyLine, List.cons_append, skip_of_not_white (by decide)]
      rfl
    have hmarker : isMarker (keyLine m.1) = false := rfl
    rw [written, List.flatMap_cons, List.append_assoc, nodeLines, List.cons_append,
      List.flatMap_cons]
    exact entries_cons hcomment hmarker (entry_keyLine hm.key) hpairs

theorem block_pairs (h : ts ≠ []) : block 0 (ts.map entryOf) = some (ts.map pairOf) := by
  have hmap (ts : List (List Char × List (List Char))) :
      ((ts.map entryOf).mapM fun e => e.value.map fun vs => (e.key, vs)) =
        some (ts.map pairOf) := by
    induction ts with
    | nil => rfl
    | cons t ts ih =>
      rw [List.map_cons, List.mapM_cons, ih]
      rfl
  have hindent : ∀ e ∈ ts.map entryOf, e.indent = 2 := by
    intro e he
    obtain ⟨t, -, rfl⟩ := List.mem_map.mp he
    rfl
  cases ts with
  | nil => exact absurd rfl h
  | cons t ts => exact (if_pos ⟨Nat.zero_lt_two, hindent⟩).trans (hmap (t :: ts))

theorem nest_pairs {ms : Nested} (h : nest 0 es = some ([], ms)) :
    nest 0 (ts.map entryOf ++ es) = some (ts.map entryOf, ms) := by
  induction ts with
  | nil => exact h
  | cons t ts ih =>
    rw [List.map_cons, List.cons_append, nest, ih]
    rfl

theorem nest_written (h : ∀ m ∈ src, m.2 ≠ []) :
    nest 0 (src.flatMap nodeEntries) = some ([], src.map nodeOf) := by
  induction src with
  | nil => rfl
  | cons m src ih =>
    obtain ⟨hm, hsrc⟩ := List.forall_mem_cons.mp h
    rw [List.flatMap_cons, nodeEntries, List.cons_append, nest, nest_pairs (ih hsrc)]
    simp only [Option.bind_eq_bind, Option.bind_some, if_true, block_pairs hm]
    rfl

end Entries

def Unbroken (m : Node) : Prop := '\n' ∉ m.1 ∧ ∀ t ∈ m.2, '\n' ∉ t.1 ∧ ∀ v ∈ t.2, '\n' ∉ v

theorem break_notMem_of_isPlain {ctx : Context} (h : IsPlain ctx after s) : '\n' ∉ s := by
  have hsafe (before : Char) (behind : List Char) :
      (isWhite '\n' || isPlainChar ctx before '\n' behind) = false := by
    cases ctx <;> rfl
  cases s with
  | nil => exact List.not_mem_nil
  | cons c cs =>
    obtain ⟨hstart, hchars, -⟩ := h
    rw [List.mem_cons, not_or]
    constructor
    · rintro rfl
      exact absurd hstart (by simp [startsPlain, isNs, isNb, isWhite])
    · clear hstart
      induction cs generalizing c with
      | nil => exact List.not_mem_nil
      | cons d ds ih =>
        simp only [plainChars, Bool.and_eq_true] at hchars
        rw [List.mem_cons, not_or]
        refine ⟨?_, ih d hchars.2⟩
        rintro rfl
        rw [hsafe] at hchars
        exact absurd hchars.1 (by decide)

theorem break_notMem_of_isKey (h : IsKey k) : '\n' ∉ k := by
  rcases h.1 with rfl | hplain
  · exact List.not_mem_nil
  · exact break_notMem_of_isPlain hplain

theorem break_notMem_of_isQuotedKey (h : IsQuotedKey k) : '\n' ∉ k := fun hmem =>
  absurd (h.1 _ hmem).1 (by decide)

theorem Writable.unbroken (h : Writable m) : Unbroken m := by
  refine ⟨break_notMem_of_isQuotedKey h.key, fun t ht => ?_⟩
  obtain ⟨hk, hvs⟩ := h.scalars t ht
  exact ⟨break_notMem_of_isKey hk, fun v hv => break_notMem_of_isPlain (hvs v hv)⟩

theorem break_notMem_intercalate (h : ∀ v ∈ vs, '\n' ∉ v) :
    '\n' ∉ [',', ' '].intercalate vs := by
  induction vs with
  | nil => exact List.not_mem_nil
  | cons v vs ih =>
    obtain ⟨hv, hvs⟩ := List.forall_mem_cons.mp h
    cases vs with
    | nil => rwa [List.intercalate_singleton]
    | cons v' vs =>
      rw [List.intercalate_cons_cons]
      simp [hv, ih hvs]

theorem Unbroken.nodeLines (h : Unbroken m) : ∀ line ∈ nodeLines m, '\n' ∉ line := by
  have hmark : '\n' ≠ quoteMark := by decide
  refine List.forall_mem_cons.mpr ⟨by simp [keyLine, h.1, hmark], fun line hline => ?_⟩
  obtain ⟨t, ht, rfl⟩ := List.mem_map.mp hline
  obtain ⟨hk, hvs⟩ := h.2 t ht
  simp [sequenceLine, hk, break_notMem_intercalate hvs]

theorem splitOn_written (h : ∀ m ∈ src, Unbroken m) :
    (sheet (written src)).splitOn '\n' = written src ++ [[]] := by
  have hline : ∀ line ∈ written src, line.splitOn '\n' = [line] := by
    intro line hmem
    obtain ⟨m, hm, hlines⟩ := List.mem_flatMap.mp hmem
    refine List.splitOn_eq_singleton_of_beq_eq_false fun c hc => beq_false_of_ne ?_
    rintro rfl
    exact (h m hm).nodeLines line hlines hc
  rw [splitOn_sheet, List.flatMap_congr hline, List.flatMap_singleton']

/-- What can be written as it is, with keys that differ, is read back. -/
theorem mapping_written (hne : src ≠ []) (h : ∀ m ∈ src, Writable m)
    (hkeys : (src.map Prod.fst).Nodup) (hpairs : ∀ m ∈ src, (m.2.map Prod.fst).Nodup) :
    mapping (sheet (written src)) = some (src.map nodeOf) := by
  have hunique : Unique (src.map nodeOf) := by
    constructor
    · rwa [List.map_map]
    · intro m hm
      obtain ⟨m', hm', rfl⟩ := List.mem_map.mp hm
      rw [nodeOf, List.map_map]
      exact hpairs m' hm'
  obtain ⟨m, src, rfl⟩ := List.exists_cons_of_ne_nil hne
  have hnest := nest_written fun m' hm' => (h m' hm').pairs
  have hentries := entries_written h
  rw [List.flatMap_cons, nodeEntries, List.cons_append] at hnest hentries
  simp only [mapping, splitOn_written fun m' hm' => (h m' hm').unbroken, hentries, hnest,
    Option.bind_eq_bind, Option.bind_some, hunique, and_self, if_true]

end Read

def nodeWeight (m : Node) : ℕ := weigh m.1 + (m.2.map fun t => weigh t.1 + (t.2.map weigh).sum).sum

section Cost
variable {src : List Node} {ms : Nested}

theorem weigh_intercalate (vs : List (List Char)) :
    weigh ([',', ' '].intercalate vs) = (vs.map weigh).sum := by
  have hsep : weight ',' = 0 ∧ weight ' ' = 0 := by decide
  induction vs with
  | nil => rfl
  | cons v vs ih =>
    cases vs with
    | nil => simp
    | cons v' vs =>
      rw [List.intercalate_cons_cons]
      simp [weigh_append, ih, hsep]

theorem weigh_nodeLines (m : Node) : ((nodeLines m).map weigh).sum = nodeWeight m + 2 := by
  have hmarks : weight ':' = 0 ∧ weight ' ' = 0 ∧ weight '[' = 0 ∧ weight ']' = 0 := by decide
  have hkey : weigh (keyLine m.1) = weigh m.1 + 2 := by
    simp [keyLine, hmarks]
    omega
  have hline (t : List Char × List (List Char)) :
      weigh (sequenceLine t.1 t.2) = weigh t.1 + (t.2.map weigh).sum := by
    simp [sequenceLine, hmarks, weigh_intercalate]
  rw [nodeLines, List.map_cons, List.sum_cons, hkey, List.map_map, Function.comp_def,
    List.map_congr_left fun t _ => hline t, nodeWeight]
  omega

theorem weigh_written (src : List Node) :
    ((written src).map weigh).sum = (src.map nodeWeight).sum + 2 * src.length := by
  induction src with
  | nil => rfl
  | cons m src ih =>
    rw [written, List.flatMap_cons, List.map_append, List.sum_append, weigh_nodeLines]
    rw [written] at ih
    simp only [ih, List.map_cons, List.sum_cons, List.length_cons]
    omega

theorem isLoose_written {line : List Char} (h : line ∈ written src) :
    isLoose line = false ∧ line ≠ [] := by
  obtain ⟨m, -, hline⟩ := List.mem_flatMap.mp h
  rcases List.mem_cons.mp hline with rfl | hpair
  · exact ⟨rfl, by simp [keyLine]⟩
  · obtain ⟨t, -, rfl⟩ := List.mem_map.mp hpair
    exact ⟨rfl, by simp [sequenceLine]⟩

theorem clean_of_mapping (h : mapping (sheet (written src)) = some ms)
    (hweight : nestedWeight ms = (src.map nodeWeight).sum) (hlength : ms.length = src.length) :
    ms ≠ [] ∧ (∀ m ∈ ms, CleanNode m ∧ m.2 ≠ []) ∧
      ((∀ m ∈ src, Unbroken m) → ∀ m ∈ ms, m.1.quoted = true) := by
  cases src with
  | nil => cases h
  | cons m src =>
    obtain ⟨-, hclean, hquoted, hne, hpairs⟩ := mapping_cost h rfl
    have hlines : ∀ line ∈ written (m :: src), isLoose line = false ∧ line ≠ [] := fun _ =>
      isLoose_written
    have hcost := sheet_cost hlines
    rw [weigh_written, ← hweight, ← hlength] at hcost
    refine ⟨hne, fun m' hm' => ⟨hclean hcost m' hm', hpairs m' hm'⟩, fun hbreak => ?_⟩
    refine hquoted fun line hline => ?_
    rw [splitOn_written hbreak, List.mem_append, List.mem_singleton] at hline
    rcases hline with hwritten | rfl
    · exact (isLoose_written hwritten).1
    · rfl

end Cost

end Patchwork.YamlMappings
