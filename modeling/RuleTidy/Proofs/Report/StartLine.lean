import RuleTidy.Proofs.Report.Emit
import RuleTidy.Proofs.Text.LineCut

/-! The line at which a span starts, in a report. Positions come from the table of the lines of a
text, and a report counts the lines that it shows by itself. Both mean the same line. -/

namespace RuleTidy.Report

open Source Text

def placeLine (file : Option String) (number : Nat) : List Char :=
  "  --> ".toList ++ (file.getD unknownFile).toList ++ ':' :: decimal number ++ ['\n']

theorem location_eq_placeLine {span : Span} (hfits : span.start.line.toNat < 0xFFFFFFFF) :
    location span = placeLine span.file (span.start.line.toNat + 1) := by
  have hone : (1 : UInt32).toNat = 1 := rfl
  have hnumber : (addSaturating span.start.line 1).toNat = span.start.line.toNat + 1 := by
    rw [toNat_addSaturating]
    omega
  unfold location
  rw [hnumber]
  rfl

theorem exists_emit_eq_append {d : Diagnostic} {span : Span} (h : span ∈ d.spans)
    (registry : Registry) (window : ContextWindow) :
    ∃ before after, (d.emit registry window).toList =
      before ++ (location span ++ snippet registry window span) ++ after := by
  obtain ⟨spans, others, hspans⟩ := List.append_of_mem h
  refine ⟨title d ++ spans.flatMap fun span => location span ++ snippet registry window span,
    (others.flatMap fun span => location span ++ snippet registry window span) ++ notes d, ?_⟩
  rw [Diagnostic.emit_eq_render, Diagnostic.render, String.toList_ofList, hspans,
    List.flatMap_append, List.flatMap_cons]
  simp only [List.append_assoc]

theorem Shows.exists_row {lines : List (List Char)} {first stop index : Nat} {body line : List Char}
    (h : Shows lines first stop body) (hfirst : first ≤ index) (hstop : index < stop)
    (hline : lines[index]? = some line) :
    ∃ (earlier later : List Row) (blanks : Nat),
      let row : Row := ⟨index, List.replicate blanks ' ' ++ decimal (index + 1), line⟩
      let rows := earlier ++ row :: later
      body = rows.flatMap Row.chars ∧ (∀ other ∈ rows, other.IsOf lines rows) ∧
        ∀ other ∈ earlier ++ later, other.index ≠ index := by
  obtain ⟨rows, rfl, hindex, hrows⟩ := h
  have hmem : index ∈ rows.map Row.index := by
    rw [hindex, List.mem_range'_1]
    omega
  obtain ⟨row, hrow, rfl⟩ := List.mem_map.1 hmem
  obtain ⟨earlier, later, rfl⟩ := List.append_of_mem hrow
  have hof := hrows row hrow
  obtain ⟨blanks, hfield⟩ := hof.number
  obtain rfl : line = row.line := Option.some.inj (hline.symm.trans hof.line)
  have hspelled : row = ⟨row.index, List.replicate blanks ' ' ++ decimal (row.index + 1), row.line⟩ :=
    hfield ▸ rfl
  have honce : ((earlier ++ row :: later).map Row.index).Nodup := by
    rw [hindex]
    exact List.nodup_range'
  rw [List.map_append, List.map_cons, List.perm_middle.nodup_iff, List.nodup_cons,
    ← List.map_append] at honce
  refine ⟨earlier, later, blanks, ?_⟩
  rw [← hspelled]
  exact ⟨rfl, hrows, fun other hother heq => honce.1 (heq ▸ List.mem_map_of_mem hother)⟩

section Start

variable {text : String} {n : Nat}

theorem line_position_of (cut : LineCut text.toList n) (hlength : text.length < 0xFFFFFFFF)
    (hn : n < text.length) :
    ((LineIndex.of text.toList).position n).line.toNat = cut.above.count '\n' := by
  have hcount : cut.above.count '\n' ≤ n := Nat.le_trans List.count_le_length cut.length_above_le
  rw [LineIndex.position_of, Position.ofOffset]
  dsimp only
  rw [cut.count_take, toNat_saturate, Nat.min_eq_left (by omega)]

/-- The report on a span that starts at a character names the line of that character, and one of the
rows below has its number. That row shows the line without its end. -/
theorem Diagnostic.exists_row_of_position {registry : Registry} {d : Diagnostic} {span : Span}
    (hlength : text.length < 0xFFFFFFFF)
    (hstored : registry.get? (Digest.of text) = some text) (hn : n < text.length)
    (hspan : span ∈ d.spans) (hsource : span.source = some (Digest.of text))
    (hstart : span.start = (LineIndex.of text.toList).position n) (window : ContextWindow) :
    ∃ (cut : LineCut text.toList n) (earlier later : List Row) (blanks : Nat)
      (before after : List Char),
      let index := span.start.line.toNat
      let row : Row := ⟨index, List.replicate blanks ' ' ++ decimal (index + 1), cut.line⟩
      let rows := earlier ++ row :: later
      index = cut.above.count '\n' ∧
        (d.emit registry window).toList =
          before ++ (placeLine span.file (index + 1) ++ rows.flatMap Row.chars) ++ after ∧
        (∀ other ∈ rows, other.IsOf (lines text.toList) rows) ∧
        ∀ other ∈ earlier ++ later, other.index ≠ index := by
  obtain ⟨cut⟩ : Nonempty (LineCut text.toList n) := LineCut.exists_of_lt hn
  have hcount : span.start.line.toNat = cut.above.count '\n' := by
    rw [hstart]
    exact line_position_of cut hlength hn
  have hline : (lines text.toList)[span.start.line.toNat]? = some cut.line := by
    rw [hcount]
    exact cut.getElem?_lines
  have hindex : span.start.line.toNat < (lines text.toList).length :=
    (List.getElem?_eq_some_iff.1 hline).1
  have hlines : (lines text.toList).length < 0xFFFFFFFF :=
    Nat.lt_of_le_of_lt (length_lines_le _) hlength
  obtain ⟨before, after, hemit⟩ := exists_emit_eq_append hspan registry window
  have hshows : Shows (lines text.toList) (windowStart span window)
      (windowStop span window (lines text.toList).length) (snippet registry window span) := by
    rw [snippet_eq hsource hstored hlines]
    exact shows_numberedLines (Nat.min_le_right _ _)
  -- the window holds the first line of a span, however narrow it is
  have hwindow : windowStart span window ≤ span.start.line.toNat ∧
      span.start.line.toNat < windowStop span window (lines text.toList).length := by
    unfold windowStart windowStop
    omega
  obtain ⟨earlier, later, blanks, hbody, hrows, hothers⟩ :=
    hshows.exists_row hwindow.1 hwindow.2 hline
  refine ⟨cut, earlier, later, blanks, before, after, hcount, ?_, hrows, hothers⟩
  rw [hemit, location_eq_placeLine (by omega), hbody]

end Start

def returnText : String := "ab\r\ncd"

def returnSpan : Span :=
  ⟨(LineIndex.of returnText.toList).position 2, .origin, none, some (Digest.of returnText)⟩

theorem Diagnostic.exists_row_of_position_return :
    returnText.length < 0xFFFFFFFF ∧
      (Registry.empty.register returnText).2.get? (Digest.of returnText) = some returnText ∧
      2 < returnText.length ∧
      ∃ (earlier later : List Row) (blanks : Nat) (before after : List Char),
        (Diagnostic.emit (Registry.empty.register returnText).2 ⟨0, 0⟩
            ⟨.error, "odd", none, [returnSpan], none⟩).toList =
          before ++ ("  --> <unknown>:1\n".toList ++ earlier.flatMap Row.chars ++
            (List.replicate blanks ' ' ++ "1| ab\n".toList) ++ later.flatMap Row.chars) ++ after ∧
        ∀ other ∈ earlier ++ later, other.index ≠ 0 := by
  have hlength : returnText.length < 0xFFFFFFFF := by decide
  have hstored : (Registry.empty.register returnText).2.get? (Digest.of returnText) =
      some returnText :=
    Registry.get?_register_self fun stored h => nomatch h
  have hn : 2 < returnText.length := by decide
  obtain ⟨cut, earlier, later, blanks, before, after, hcount, hemit, -, hothers⟩ :=
    Diagnostic.exists_row_of_position (d := ⟨.error, "odd", none, [returnSpan], none⟩) hlength
      hstored hn List.mem_cons_self rfl rfl ⟨0, 0⟩
  have hzero : returnSpan.start.line.toNat = 0 := by
    rw [returnSpan, LineIndex.position_of]
    decide
  have hline := cut.getElem?_lines
  rw [← hcount, hzero] at hline
  have hshown : cut.line = ['a', 'b'] := (Option.some.inj hline).symm
  rw [hzero] at hothers
  refine ⟨hlength, hstored, hn, earlier, later, blanks, before, after, ?_, hothers⟩
  have hplace : placeLine returnSpan.file 1 = "  --> <unknown>:1\n".toList := by decide
  have hrow : Row.chars ⟨0, List.replicate blanks ' ' ++ decimal 1, ['a', 'b']⟩ =
      List.replicate blanks ' ' ++ "1| ab\n".toList := by
    have hone : decimal 1 = ['1'] := by decide
    simp [Row.chars, hone]
  rw [hemit, hzero, hshown, hplace, List.flatMap_append, List.flatMap_cons, hrow]
  simp only [List.append_assoc]

end RuleTidy.Report
