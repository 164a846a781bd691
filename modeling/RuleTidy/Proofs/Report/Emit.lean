import Mathlib.Data.List.Basic
import RuleTidy.Proofs.Report.Rows
import RuleTidy.Proofs.Source.Registry
import RuleTidy.Report.Emit

/-! The source lines in a report. However large positions and windows are, the lines shown are those
of the window around the span that the text has, each fetched from the text and once. -/

namespace RuleTidy.Report

open Source Text

section Write

variable {lines : List (List Char)} {width : Nat}

theorem snippetRows_of_le {first last : Nat} (h : last ≤ first) :
    snippetRows lines first last = [] := by
  have hlength : (lines.take last).length ≤ first := Nat.le_trans (List.length_take_le last lines) h
  rw [snippetRows, List.drop_eq_nil_of_le hlength, List.zipIdx_nil]

theorem snippetRows_cons {first last : Nat} (h : first < last) (hlast : last ≤ lines.length) :
    snippetRows lines first last =
      (lines[first]?.getD [], first + 1) :: snippetRows lines (first + 1) last := by
  have hlength : first < (lines.take last).length := by
    rw [List.length_take]
    omega
  rw [snippetRows, List.drop_eq_getElem_cons hlength, List.zipIdx_cons, snippetRows,
    List.getElem_take, List.getElem?_eq_getElem (Nat.lt_of_lt_of_le h hlast), Option.getD_some]

theorem writeLines_eq (output : List Char) (index last : UInt32) (hlast : last.toNat ≤ lines.length) :
    writeLines lines width output index last =
      output ++ printRows width (snippetRows lines index.toNat last.toNat) := by
  fun_induction writeLines lines width output index last with
  | case1 output index h line number ih =>
      have hlt := UInt32.lt_iff_toNat_lt.1 h
      have hbits := last.toNat_lt
      have hone : (1 : UInt32).toNat = 1 := rfl
      have hnumber : number.toNat = index.toNat + 1 := by
        rw [toNat_addSaturating]
        omega
      rw [ih, hnumber, toNat_add_one_of_lt h, snippetRows_cons hlt hlast, printRows, printRows,
        List.flatMap_cons, List.append_assoc]
  | case2 output index h =>
      have hle : last.toNat ≤ index.toNat := Nat.le_of_not_lt (mt UInt32.lt_iff_toNat_lt.2 h)
      rw [snippetRows_of_le hle, printRows, List.flatMap_nil, List.append_nil]

theorem writeSpan_eq (registry : Registry) (window : ContextWindow) (output : List Char)
    (span : Span) :
    writeSpan registry window output span =
      output ++ (location span ++ snippet registry window span) := by
  unfold writeSpan snippet
  cases span.source.bind registry.get? with
  | none => simp
  | some text =>
      dsimp only
      have hlast : (lineRange span window (Text.lines text.toList).length).2 =
          (min (max (addSaturating span.stop.line window.after) (addSaturating span.start.line 1))
            (saturate (Text.lines text.toList).length)).toNat := (toNat_min _ _).symm
      have hle : (min (max (addSaturating span.stop.line window.after)
          (addSaturating span.start.line 1)) (saturate (Text.lines text.toList).length)).toNat ≤
            (Text.lines text.toList).length := by
        rw [toNat_min, toNat_saturate]
        omega
      rw [hlast, lineRange, ← List.append_assoc]
      split
      · next hempty =>
          rw [numberedLines, ← snippetRows, snippetRows_of_le (UInt32.le_iff_toNat_le.1 hempty)]
          simp
      · exact writeLines_eq _ _ _ hle

theorem Diagnostic.emit_eq_render (registry : Registry) (window : ContextWindow) (d : Diagnostic) :
    d.emit registry window = d.render registry window := by
  have hspans : d.spans.foldl (writeSpan registry window) (title d) =
      title d ++ d.spans.flatMap fun span => location span ++ snippet registry window span := by
    have hwrite : writeSpan registry window =
        fun output span => output ++ (location span ++ snippet registry window span) :=
      funext₂ (writeSpan_eq registry window)
    rw [hwrite, List.foldl_append_eq_append, List.flatMap]
  unfold emit render notes
  dsimp only
  rw [hspans]
  cases d.help <;> cases d.longMessage <;> simp

end Write

section Show

variable {lines : List (List Char)} {first stop : Nat}

structure Row where
  index : Nat
  field : List Char
  line : List Char

def Row.chars (row : Row) : List Char := row.field ++ "| ".toList ++ row.line ++ ['\n']

/-- A row among others shows the line that its number counts. The number stands to the right in a
field as wide as the largest number among the rows. -/
structure Row.IsOf (lines : List (List Char)) (rows : List Row) (row : Row) : Prop where
  line : lines[row.index]? = some row.line
  number : ∃ blanks, row.field = List.replicate blanks ' ' ++ decimal (row.index + 1)
  width : ∀ largest ∈ rows, (∀ other ∈ rows, other.index ≤ largest.index) →
    row.field.length = (decimal (largest.index + 1)).length

/-- A text that shows the lines from the index `first` up to `stop`, in their order and each once. -/
def Shows (lines : List (List Char)) (first stop : Nat) (body : List Char) : Prop :=
  ∃ rows : List Row, body = rows.flatMap Row.chars ∧
    rows.map Row.index = List.range' first (stop - first) ∧ ∀ row ∈ rows, row.IsOf lines rows

theorem length_decimal_le {m n : Nat} (h : m ≤ n) : (decimal m).length ≤ (decimal n).length := by
  have hlength : ∀ k, (decimal k).length ≤ (decimal n).length ↔ k < 10 ^ (decimal n).length :=
    fun k => Nat.length_toDigits_le_iff (by decide) Nat.length_toDigits_pos
  exact (hlength m).2 (Nat.lt_of_le_of_lt h ((hlength n).1 (Nat.le_refl _)))

theorem length_padded {width n : Nat} (h : (decimal n).length ≤ width) :
    (padded width n).length = width := by
  rw [padded, List.length_append, List.length_replicate, Nat.sub_add_cancel h]

theorem eq_stop_of_largest {rows : List Row}
    (hrows : rows.map Row.index = List.range' first (stop - first)) {largest : Row}
    (h : largest ∈ rows) (hlargest : ∀ other ∈ rows, other.index ≤ largest.index) :
    largest.index + 1 = stop := by
  have hmem : ∀ index, index ∈ rows.map Row.index ↔ first ≤ index ∧ index < stop := fun index => by
    rw [hrows, List.mem_range'_1]
    omega
  have hrange := (hmem largest.index).1 (List.mem_map_of_mem h)
  obtain ⟨last, hlast, heq⟩ := List.mem_map.1 ((hmem (stop - 1)).2 (by omega))
  have := hlargest last hlast
  omega

def rowOf (width : Nat) (line : List Char × Nat) : Row :=
  ⟨line.2, padded width (line.2 + 1), line.1⟩

theorem shows_numberedLines (h : stop ≤ lines.length) :
    Shows lines first stop (numberedLines lines first stop) := by
  have hnumbered : snippetRows lines first stop =
      (((lines.take stop).drop first).zipIdx first).map fun line => (line.1, line.2 + 1) :=
    List.zipIdx_succ
  have hindex : ((((lines.take stop).drop first).zipIdx first).map
      (rowOf (decimal stop).length)).map Row.index = List.range' first (stop - first) := by
    rw [List.map_map]
    change List.map Prod.snd _ = _
    rw [List.zipIdx_map_snd, List.length_drop, List.length_take, Nat.min_eq_left h]
  refine ⟨_, ?_, hindex, ?_⟩
  · rw [numberedLines, ← snippetRows, hnumbered, List.flatMap_map, List.flatMap_map]
    rfl
  · intro row hrow
    obtain ⟨⟨line, index⟩, hmem, rfl⟩ := List.mem_map.1 hrow
    obtain ⟨-, hstop, hline⟩ : first ≤ index ∧ index < stop ∧ lines[index]? = some line :=
      mem_snippetRows.1 (hnumbered ▸ List.mem_map_of_mem hmem)
    refine ⟨hline, ⟨_, rfl⟩, fun largest hmem hlargest => ?_⟩
    rw [eq_stop_of_largest hindex hmem hlargest]
    exact length_padded (length_decimal_le hstop)

end Show

section Window

variable (span : Span) (window : ContextWindow) (lineCount : Nat)

def windowStart : Nat := span.start.line.toNat - window.before.toNat

/-- The end of a span's window, which holds the first line of the span at least and no line that the
text does not have. -/
def windowStop : Nat :=
  min (max (span.stop.line.toNat + window.after.toNat) (span.start.line.toNat + 1)) lineCount

theorem lineRange_eq (h : lineCount < 0xFFFFFFFF) :
    lineRange span window lineCount = (windowStart span window, windowStop span window lineCount) := by
  have hone : (1 : UInt32).toNat = 1 := rfl
  refine Prod.ext (toNat_subSaturating _ _) ?_
  rw [lineRange, windowStop]
  dsimp only
  rw [toNat_max, toNat_addSaturating, toNat_addSaturating, toNat_saturate, hone]
  -- The greatest value is reached by sums only that are past the last line anyway.
  generalize 0xFFFFFFFF = greatest at h ⊢
  omega

end Window

variable {span : Span} {digest : Digest} {text : String}

theorem snippet_eq {registry : Registry} (hsource : span.source = some digest)
    (htext : registry.get? digest = some text) (hcount : (lines text.toList).length < 0xFFFFFFFF)
    (window : ContextWindow) :
    snippet registry window span = numberedLines (lines text.toList) (windowStart span window)
      (windowStop span window (lines text.toList).length) := by
  rw [snippet, hsource, Option.bind_some, htext]
  dsimp only
  rw [lineRange_eq span window _ hcount]

/-- A report has the snippets of its spans in their order between title and notes. A snippet shows the
lines of the window around its span, and none if there are none. -/
theorem Diagnostic.emit_shows (registry : Registry) (window : ContextWindow) :
    (∀ d : Diagnostic, (d.emit registry window).toList =
      title d ++ (d.spans.flatMap fun span => location span ++ snippet registry window span) ++
        notes d) ∧
    ∀ (span : Span) (digest : Digest) (text : String), span.source = some digest →
      registry.get? digest = some text → (lines text.toList).length < 0xFFFFFFFF →
        Shows (lines text.toList) (windowStart span window)
          (windowStop span window (lines text.toList).length) (snippet registry window span) ∧
        (windowStop span window (lines text.toList).length ≤ windowStart span window →
          snippet registry window span = []) := by
  refine ⟨fun d => ?_, fun span digest text hsource htext hcount => ?_⟩
  · rw [emit_eq_render, render, String.toList_ofList]
  · rw [snippet_eq hsource htext hcount window]
    refine ⟨shows_numberedLines (Nat.min_le_right _ _), fun hempty => ?_⟩
    rw [numberedLines, ← snippetRows, snippetRows_of_le hempty, List.flatMap_nil]

def tenLines : String := "a\nb\nc\nd\ne\nf\ng\nh\ni\nj\n"

def farSpan : Span := ⟨⟨8, 0⟩, ⟨0xFFFFFFFF, 0⟩, none, some (Digest.of tenLines)⟩

theorem Diagnostic.emit_shows_farSpan :
    (Registry.empty.register tenLines).2.get? (Digest.of tenLines) = some tenLines ∧
      (lines tenLines.toList).length < 0xFFFFFFFF ∧
      Shows (lines tenLines.toList) 0 10
        (snippet (Registry.empty.register tenLines).2 ⟨0xFFFFFFFF, 0xFFFFFFFF⟩ farSpan) := by
  have hstored : (Registry.empty.register tenLines).2.get? (Digest.of tenLines) = some tenLines :=
    Registry.get?_register_self fun stored h => nomatch h
  have hcount : (lines tenLines.toList).length = 10 := by decide
  have hfew : (lines tenLines.toList).length < 0xFFFFFFFF := by rw [hcount]; decide
  obtain ⟨hshows, -⟩ :=
    (emit_shows _ ⟨0xFFFFFFFF, 0xFFFFFFFF⟩).2 farSpan _ tenLines rfl hstored hfew
  rw [hcount] at hshows
  exact ⟨hstored, hfew, hshows⟩

end RuleTidy.Report
