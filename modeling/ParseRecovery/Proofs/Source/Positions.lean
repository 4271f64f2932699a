import Mathlib.Data.List.Basic
import ParseRecovery.Source.File
import ParseRecovery.Token

/-!
Where a span stands in a text. A span is located if it lies within the text, and its line and column are
those of its start (`Span.LocatedIn`). Places are counted in characters here; in a source file whose
characters take one byte each they are the places of the file, which finds the same line and column
(`SourceFile.locate_eq`). In any source file lines and columns go at most one beyond the number of
characters (`SourceFile.locate_line_le`, `SourceFile.locate_column_le`). Two spans are derived from
others without the text at hand: the one right after a span is located exactly if the span covers no line
break (`Span.LocatedIn.after_iff`), and the one around two spans exactly if the span that starts first has
the lesser column (`Span.LocatedIn.merge_iff_of_le`).
-/

namespace ParseRecovery

/-- The line breaks before a place. -/
def breaksBefore (text : List Char) (offset : Nat) : Nat :=
  (text.take offset).count '\n'

/-- How far a place is from the start of its line: from the last line break before it, or else from the
start of the text. -/
def lineOffset (text : List Char) (offset : Nat) : Nat :=
  (text.take offset).reverse.idxOf '\n'

/-- The characters from one place up to another. -/
def between (text : List Char) (i j : Nat) : List Char :=
  (text.drop i).take (j - i)

/-! ## Lines and columns along a text -/

section Places

variable {text : List Char} {c : Char} {i j n : Nat}

theorem take_eq_between (h : i ≤ j) : text.take j = text.take i ++ between text i j := by
  rw [between, ← List.take_add, Nat.add_sub_cancel' h]

theorem length_between (hj : j ≤ text.length) : (between text i j).length = j - i := by
  rw [between, List.length_take, List.length_drop]
  omega

theorem breaksBefore_add (h : i ≤ j) :
    breaksBefore text j = breaksBefore text i + (between text i j).count '\n' := by
  rw [breaksBefore, take_eq_between h, List.count_append, breaksBefore]

theorem breaksBefore_eq_iff (h : i ≤ j) :
    breaksBefore text j = breaksBefore text i ↔ '\n' ∉ between text i j := by
  rw [breaksBefore_add h, Nat.add_eq_left, List.count_eq_zero]

theorem breaksBefore_le (h : i ≤ j) : breaksBefore text i ≤ breaksBefore text j := by
  rw [breaksBefore_add h]
  exact Nat.le_add_right _ _

/-- Along a line the columns are counted up. -/
theorem lineOffset_add (h : i ≤ j) (hj : j ≤ text.length) (hline : '\n' ∉ between text i j) :
    lineOffset text j = lineOffset text i + (j - i) := by
  have hmem : '\n' ∉ (between text i j).reverse := fun hmem => hline (List.mem_reverse.mp hmem)
  rw [lineOffset, take_eq_between h, List.reverse_append, List.idxOf_append_of_notMem hmem,
    List.length_reverse, length_between hj, lineOffset, Nat.add_comm]

theorem breaksBefore_cons_break :
    breaksBefore ('\n' :: text) (n + 1) = breaksBefore text n + 1 := by
  simp [breaksBefore]

theorem breaksBefore_cons (h : c ≠ '\n') : breaksBefore (c :: text) (n + 1) = breaksBefore text n := by
  simp [breaksBefore, h]

theorem mem_reverse_take_iff : '\n' ∈ (text.take n).reverse ↔ breaksBefore text n ≠ 0 := by
  rw [List.mem_reverse, breaksBefore, ne_eq, List.count_eq_zero, not_not]

theorem lineOffset_cons_break : lineOffset ('\n' :: text) (n + 1) = lineOffset text n := by
  rw [lineOffset, List.take_succ_cons, List.reverse_cons, lineOffset]
  by_cases hmem : '\n' ∈ (text.take n).reverse
  · exact List.idxOf_append_of_mem hmem
  · rw [List.idxOf_append_of_notMem hmem, List.idxOf_cons_self, List.idxOf_of_notMem hmem]
    rfl

/-- A character in front of the text counts on its first line. -/
theorem lineOffset_cons (h : c ≠ '\n') :
    lineOffset (c :: text) (n + 1) =
      if breaksBefore text n = 0 then lineOffset text n + 1 else lineOffset text n := by
  rw [lineOffset, List.take_succ_cons, List.reverse_cons, lineOffset]
  split
  · rename_i hzero
    have hmem : '\n' ∉ (text.take n).reverse := fun hmem => mem_reverse_take_iff.mp hmem hzero
    rw [List.idxOf_append_of_notMem hmem, List.idxOf_cons_ne _ h, List.idxOf_of_notMem hmem]
    rfl
  · rename_i hzero
    exact List.idxOf_append_of_mem (mem_reverse_take_iff.mpr hzero)

end Places

/-! ## Lines and columns in a source file -/

theorem exists_splitLines_eq (text : List Char) : ∃ line rest, splitLines text = line :: rest := by
  cases text with
  | nil => exact ⟨_, _, rfl⟩
  | cons c text =>
    rw [splitLines]
    split
    · exact ⟨_, _, rfl⟩
    · split
      · exact ⟨_, _, rfl⟩
      · exact ⟨_, _, rfl⟩

theorem start_le_of_mem_placeLines {start : Nat} {lines : List (List Char)} {line : SourceLine}
    (h : line ∈ placeLines start lines) : start ≤ line.start := by
  induction lines generalizing start with
  | nil => cases h
  | cons chars rest ih =>
    rcases List.mem_cons.mp h with rfl | h
    · exact Nat.le_refl _
    · exact Nat.le_trans (Nat.le_add_right _ _) (ih h)

theorem charsWithin_zero (chars : List Char) : charsWithin 0 chars = 0 := by
  cases chars with
  | nil => rfl
  | cons c chars => exact if_neg (Nat.not_le.mpr c.utf8Size_pos)

/-- The line that a place is on, among lines: it is the last of those that start at or before the place,
and has so many characters up to there. -/
structure LineAt (lines : List SourceLine) (place number offset : Nat) : Prop where
  countP_eq : (lines.countP fun line => line.start ≤ place) = number + 1
  exists_line : ∃ line, lines[number]? = some line ∧ line.start + offset = place ∧
    charsWithin offset line.chars = offset

namespace LineAt

variable {start place number offset : Nat} {chars : List Char} {rest : List SourceLine}

/-- The start of the first line is on it, since the other lines start behind it. -/
theorem first (hrest : ∀ line ∈ rest, start < line.start) :
    LineAt (⟨start, chars⟩ :: rest) start 0 0 where
  countP_eq := by
    have hnone : rest.countP (fun line => decide (line.start ≤ start)) = 0 := by
      rw [List.countP_eq_zero]
      intro line hline hle
      exact absurd (of_decide_eq_true hle) (Nat.not_le.mpr (hrest line hline))
    simp only [List.countP_cons, hnone, Nat.le_refl, decide_true, if_true]
  exists_line := ⟨_, rfl, rfl, charsWithin_zero chars⟩

/-- A line in front. -/
theorem cons {line : SourceLine} (h : LineAt rest place number offset) (hle : line.start ≤ place) :
    LineAt (line :: rest) place (number + 1) offset where
  countP_eq := by simp only [List.countP_cons, h.countP_eq, hle, decide_true, if_true]
  exists_line := h.exists_line

/-- A character in front of the first line, which takes one byte. -/
theorem extend {c : Char} (hbyte : c.utf8Size = 1) (hle : start + 1 ≤ place)
    (h : LineAt (⟨start + 1, chars⟩ :: rest) place number offset) :
    LineAt (⟨start, c :: chars⟩ :: rest) place number
      (if number = 0 then offset + 1 else offset) where
  countP_eq := by
    have hcount := h.countP_eq
    have hle' : start ≤ place := Nat.le_of_succ_le hle
    simpa only [List.countP_cons, hle, hle'] using hcount
  exists_line := by
    obtain ⟨line, hline, hstart, hchars⟩ := h.exists_line
    cases number with
    | zero =>
      cases hline
      refine ⟨_, rfl, ?_, ?_⟩
      · rw [← hstart, if_pos rfl]
        dsimp only
        omega
      · rw [if_pos rfl, charsWithin, if_pos (by omega), hbyte, Nat.add_sub_cancel, hchars]
    | succ number => exact ⟨line, hline, hstart, hchars⟩

end LineAt

theorem lineAt_placeLines {text : List Char} (hbytes : ∀ c ∈ text, c.utf8Size = 1) (start : Nat)
    {n : Nat} (h : n ≤ text.length) :
    LineAt (placeLines start (splitLines text)) (start + n) (breaksBefore text n)
      (lineOffset text n) := by
  induction text generalizing start n with
  | nil =>
    cases Nat.le_zero.mp h
    exact .first (fun line hline => nomatch hline)
  | cons c text ih =>
    obtain ⟨hbyte, htext⟩ := List.forall_mem_cons.mp hbytes
    obtain ⟨line, rest, hsplit⟩ := exists_splitLines_eq text
    by_cases hbreak : c = '\n'
    · subst hbreak
      rw [splitLines, if_pos rfl, placeLines]
      cases n with
      | zero =>
        refine .first (fun line hline => Nat.lt_of_succ_le ?_)
        exact start_le_of_mem_placeLines hline
      | succ n =>
        rw [breaksBefore_cons_break, lineOffset_cons_break]
        have htail := ih htext (start + 1) (Nat.le_of_succ_le_succ h)
        rw [show start + 1 + n = start + (n + 1) by omega] at htail
        exact htail.cons (Nat.le_add_right _ _)
    · rw [splitLines, if_neg hbreak, hsplit, placeLines]
      have hlength : byteLength (c :: line) = 1 + byteLength line := by
        rw [byteLength, List.foldr_cons, hbyte, byteLength]
      cases n with
      | zero =>
        refine .first (fun line hline => ?_)
        have := start_le_of_mem_placeLines hline
        omega
      | succ n =>
        have htail := ih htext (start + 1) (Nat.le_of_succ_le_succ h)
        rw [hsplit, placeLines, show start + 1 + n = start + (n + 1) by omega] at htail
        rw [breaksBefore_cons hbreak, lineOffset_cons hbreak, hlength, ← Nat.add_assoc]
        exact htail.extend hbyte (by omega)

/-- A source file over characters of one byte each finds the line and the column of every place in it. -/
theorem SourceFile.locate_eq (file : SourceFile) (hbytes : ∀ c ∈ file.text.toList, c.utf8Size = 1)
    {offset : Nat} (h : offset ≤ file.text.toList.length) :
    file.locate offset =
      ⟨breaksBefore file.text.toList offset + 1, lineOffset file.text.toList offset + 1⟩ := by
  obtain ⟨hcount, line, hline, hstart, hchars⟩ := lineAt_placeLines hbytes 0 h
  rw [Nat.zero_add] at hcount hstart
  have hindex : file.lineIndexOf offset = breaksBefore file.text.toList offset := by
    rw [lineIndexOf, lines, hcount, Nat.add_sub_cancel]
  have hback : offset - line.start = lineOffset file.text.toList offset := by
    omega
  simp only [locate, hindex, lines, hline, Option.getD_some, hback, hchars]

/-! ## How far lines and columns go -/

/-- No character is lost between lines. -/
theorem flatten_splitLines (text : List Char) : (splitLines text).flatten = text := by
  induction text with
  | nil => rfl
  | cons c text ih =>
    obtain ⟨line, rest, hsplit⟩ := exists_splitLines_eq text
    rw [splitLines]
    split
    · rw [List.flatten_cons, ih, List.singleton_append]
    · rw [hsplit] at ih ⊢
      exact congrArg (c :: ·) ih

theorem length_splitLines_le (text : List Char) : (splitLines text).length ≤ text.length + 1 := by
  induction text with
  | nil => exact Nat.le_refl _
  | cons c text ih =>
    obtain ⟨line, rest, hsplit⟩ := exists_splitLines_eq text
    rw [splitLines]
    split
    · exact Nat.succ_le_succ ih
    · rw [hsplit] at ih ⊢
      exact Nat.le_succ_of_le ih

theorem length_placeLines (start : Nat) (lines : List (List Char)) :
    (placeLines start lines).length = lines.length := by
  induction lines generalizing start with
  | nil => rfl
  | cons line rest ih => exact congrArg (· + 1) (ih _)

theorem chars_mem_of_mem_placeLines {start : Nat} {lines : List (List Char)} {line : SourceLine}
    (h : line ∈ placeLines start lines) : line.chars ∈ lines := by
  induction lines generalizing start with
  | nil => cases h
  | cons chars rest ih =>
    rcases List.mem_cons.mp h with rfl | h
    · exact List.mem_cons_self
    · exact List.mem_cons_of_mem _ (ih h)

theorem charsWithin_le (offset : Nat) (chars : List Char) :
    charsWithin offset chars ≤ chars.length := by
  induction chars generalizing offset with
  | nil => exact Nat.le_refl _
  | cons c chars ih =>
    rw [charsWithin]
    split
    · exact Nat.succ_le_succ (ih _)
    · exact Nat.zero_le _

theorem length_le_byteLength (cs : List Char) : cs.length ≤ byteLength cs := by
  induction cs with
  | nil => exact Nat.le_refl _
  | cons c cs ih =>
    have hc := c.utf8Size_pos
    rw [byteLength] at ih
    rw [byteLength, List.foldr_cons, List.length_cons]
    omega

namespace SourceFile

variable (file : SourceFile) (offset : Nat)

/-- There is at most one line more than there are characters. -/
theorem locate_line_le : (file.locate offset).line ≤ file.text.toList.length + 1 := by
  have hcount := List.countP_le_length (p := fun line => decide (line.start ≤ offset))
    (l := file.lines)
  rw [lines, length_placeLines] at hcount
  have hlines := length_splitLines_le file.text.toList
  show file.lineIndexOf offset + 1 ≤ _
  rw [lineIndexOf, lines]
  omega

theorem locate_column_le : (file.locate offset).column ≤ file.text.toList.length + 1 := by
  show charsWithin _ (file.lines[file.lineIndexOf offset]?.getD ⟨0, []⟩).chars + 1 ≤ _
  refine Nat.succ_le_succ (Nat.le_trans (charsWithin_le _ _) ?_)
  cases hline : file.lines[file.lineIndexOf offset]? with
  | none => exact Nat.zero_le _
  | some line =>
    have hmem := chars_mem_of_mem_placeLines (List.mem_of_getElem? hline)
    have hsub := (List.sublist_flatten_of_mem hmem).length_le
    rwa [flatten_splitLines] at hsub

end SourceFile

/-! ## Spans -/

namespace Span

/-- The span lies within the text, and gives the line and the column of its start, counted from one. -/
structure LocatedIn (s : Span) (text : List Char) : Prop where
  start_le : s.start ≤ s.stop
  stop_le : s.stop ≤ text.length
  line_eq : s.line = breaksBefore text s.start + 1
  column_eq : s.column = lineOffset text s.start + 1

theorem locatedIn_iff {s : Span} {text : List Char} :
    s.LocatedIn text ↔ (s.start ≤ s.stop ∧ s.stop ≤ text.length) ∧
      s.line = breaksBefore text s.start + 1 ∧ s.column = lineOffset text s.start + 1 :=
  ⟨fun h => ⟨⟨h.start_le, h.stop_le⟩, h.line_eq, h.column_eq⟩,
    fun h => ⟨h.1.1, h.1.2, h.2.1, h.2.2⟩⟩

instance (s : Span) (text : List Char) : Decidable (s.LocatedIn text) :=
  decidable_of_iff _ locatedIn_iff.symm

/-- The characters that the span covers. -/
def covered (s : Span) (text : List Char) : List Char :=
  between text s.start s.stop

/-- To be located in a source file is to lie within it and be where the file finds the start. -/
theorem locatedIn_iff_locate {s : Span} {file : SourceFile}
    (hbytes : ∀ c ∈ file.text.toList, c.utf8Size = 1) :
    s.LocatedIn file.text.toList ↔ (s.start ≤ s.stop ∧ s.stop ≤ file.text.toList.length) ∧
      file.locate s.start = ⟨s.line, s.column⟩ := by
  rw [locatedIn_iff]
  refine and_congr_right fun ⟨hstart, hstop⟩ => ?_
  rw [file.locate_eq hbytes (Nat.le_trans hstart hstop), Location.mk.injEq]
  exact and_congr eq_comm eq_comm

namespace LocatedIn

variable {s a b : Span} {text : List Char}

/-- The span right after a located one is located exactly if no line break is covered. -/
theorem after_iff (h : s.LocatedIn text) (hfits : s.column + s.length < 0x100000000) :
    s.after.LocatedIn text ↔ '\n' ∉ s.covered text := by
  have hsum : s.columnSum = s.column + s.length := by
    rw [columnSum, Nat.mod_eq_of_lt (by omega)]
  have hcolumn : s.after.column = s.column + s.length := by
    rw [column_after (by rwa [hsum]), hsum]
  constructor
  · intro hafter
    -- otherwise the line of the end would be a later one
    rw [covered, ← breaksBefore_eq_iff h.start_le]
    have hline := hafter.line_eq
    rw [after, h.line_eq] at hline
    exact (Nat.succ.inj hline).symm
  · intro hnone
    refine ⟨Nat.le_refl _, h.stop_le, ?_, ?_⟩
    · show s.line = breaksBefore text s.stop + 1
      rw [h.line_eq, (breaksBefore_eq_iff h.start_le).mpr hnone]
    · show s.after.column = lineOffset text s.stop + 1
      rw [hcolumn, h.column_eq, lineOffset_add h.start_le h.stop_le hnone, length]
      omega

theorem line_le (ha : a.LocatedIn text) (hb : b.LocatedIn text) (h : a.start ≤ b.start) :
    a.line ≤ b.line := by
  rw [ha.line_eq, hb.line_eq]
  exact Nat.succ_le_succ (breaksBefore_le h)

/-- On one line the later span has the greater column. -/
theorem column_le (ha : a.LocatedIn text) (hb : b.LocatedIn text) (h : a.start ≤ b.start)
    (hline : a.line = b.line) : a.column ≤ b.column := by
  have hbreaks : breaksBefore text b.start = breaksBefore text a.start := by
    rw [ha.line_eq, hb.line_eq] at hline
    exact (Nat.succ.inj hline).symm
  rw [ha.column_eq, hb.column_eq, lineOffset_add h (Nat.le_trans hb.start_le hb.stop_le)
    ((breaksBefore_eq_iff h).mp hbreaks)]
  omega

/-- The span around two located ones is located exactly if the one that starts first has the lesser
column. -/
theorem merge_iff_of_le (ha : a.LocatedIn text) (hb : b.LocatedIn text) (h : a.start ≤ b.start) :
    (a.merge b).LocatedIn text ↔ a.column ≤ b.column := by
  rw [locatedIn_iff, merge, Nat.min_eq_left h, Nat.min_eq_left (ha.line_le hb h)]
  have hstart := ha.start_le
  have hwithin := Nat.max_le.mpr ⟨ha.stop_le, hb.stop_le⟩
  constructor
  · intro ⟨_, _, hcolumn⟩
    rw [← ha.column_eq] at hcolumn
    exact hcolumn ▸ Nat.min_le_right _ _
  · intro hcolumn
    refine ⟨⟨Nat.le_trans hstart (Nat.le_max_left _ _), hwithin⟩, ha.line_eq, ?_⟩
    rw [Nat.min_eq_left hcolumn, ha.column_eq]

end LocatedIn

theorem merge_comm (a b : Span) : a.merge b = b.merge a := by
  rw [merge, merge, Nat.min_comm, Nat.max_comm, Nat.min_comm a.line, Nat.min_comm a.column]

end Span

end ParseRecovery
