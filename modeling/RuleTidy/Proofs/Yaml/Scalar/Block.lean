import RuleTidy.Proofs.Text.Lines
import RuleTidy.Proofs.Yaml.Cursor
import RuleTidy.Yaml.Scalar.Written
import RuleTidy.Yaml.Token.Block

/-! How a string stands in a literal block. Empty lines are written without indentation, so a block
is told row by row: a row is a line with content and the empty lines before it. -/

namespace RuleTidy.Yaml.Block

open Text Written

structure Row where
  empty : Nat
  line : List Char

namespace Row

def text (row : Row) : List Char := newlines (row.empty + 1) ++ row.line

def written (margin : List Char) (row : Row) : List Char :=
  newlines (row.empty + 1) ++ (margin ++ row.line)

end Row

theorem exists_rows {pieces : List (List Char)} (h : pieces.getLast? ≠ some []) :
    ∃ rows : List Row, pieces.flatMap (fun line => '\n' :: line) = rows.flatMap Row.text ∧
      (∀ margin, blockLines margin pieces = rows.flatMap (Row.written margin)) ∧
      (∀ row ∈ rows, row.line ≠ []) ∧
      ∀ line, line ≠ [] → (line ∈ pieces ↔ ∃ row ∈ rows, row.line = line) := by
  induction pieces with
  | nil => exact ⟨[], rfl, fun _ => rfl, by simp, by simp⟩
  | cons piece rest ih =>
      have hrest : rest.getLast? ≠ some [] := by
        cases rest with
        | nil => simp
        | cons next others => rwa [List.getLast?_cons_cons] at h
      obtain ⟨rows, htext, hwritten, hne, hmem⟩ := ih hrest
      -- an empty piece belongs to the row below it, so the last piece has to hold something
      by_cases hpiece : piece = []
      · subst hpiece
        cases rows with
        | nil =>
            have hnil : rest = [] := by
              cases rest with
              | nil => rfl
              | cons next others => simp at htext
            subst hnil
            exact absurd rfl h
        | cons row rows =>
            refine ⟨⟨row.empty + 1, row.line⟩ :: rows, ?_, fun margin => ?_,
              List.forall_mem_cons.2 (List.forall_mem_cons.1 hne), fun line hline => ?_⟩
            · rw [List.flatMap_cons, htext]
              rfl
            · have hhead : blockLines margin ([] :: rest) = '\n' :: blockLines margin rest := rfl
              rw [hhead, hwritten]
              rfl
            · simp [hline, hmem line hline]
      · refine ⟨⟨0, piece⟩ :: rows, ?_, fun margin => ?_, List.forall_mem_cons.2 ⟨hpiece, hne⟩,
          fun line hline => ?_⟩
        · rw [List.flatMap_cons, htext]
          rfl
        · have hhead : blockLines margin (piece :: rest) =
              '\n' :: (margin ++ piece) ++ blockLines margin rest := by
            simp [blockLines, hpiece]
          rw [hhead, hwritten]
          rfl
        · simp [hmem line hline, eq_comm]

structure IsLine (line : List Char) : Prop where
  nonempty : line ≠ []
  inLine : ∀ c ∈ line, isBreak c = false
  noSpaceEnd : line.getLast? ≠ some ' '

def mark (ended : Bool) : List Char := if ended then [] else ['-']

def ending (ended : Bool) : List Char := if ended then ['\n'] else []

/-- A string in rows, the last of which may be ended by a line feed. -/
structure Rows (value : List Char) (rows : List Row) (ended : Bool) : Prop where
  value_eq : '\n' :: value = rows.flatMap Row.text ++ ending ended
  isLine : ∀ row ∈ rows, IsLine row.line
  nonempty : rows ≠ []
  noTab : value.head? ≠ some '\t'
  mem_pieces : ∀ line, line ≠ [] → (line ∈ splitLines value ↔ ∃ row ∈ rows, row.line = line)

theorem literalBlock?_eq_some {value margin block : List Char}
    (h : literalBlock? value margin = some block) :
    ∃ rows ended, Rows value rows ended ∧
      block = '|' :: (mark ended ++ rows.flatMap (Row.written margin)) := by
  obtain ⟨body, ended, rfl, hbody⟩ : ∃ body ended, value = body ++ ending ended ∧
      (if body.isEmpty || body.getLast? = some '\n' || body.head? = some ' ' ||
          body.head? = some '\t' || body.contains '\r' || (splitLines body).any endsBlank then none
        else some ('|' :: (mark ended ++ blockLines margin (splitLines body)))) = some block := by
    unfold literalBlock? at h
    by_cases hlast : value.getLast? = some '\n'
    · rw [if_pos hlast] at h
      obtain ⟨body, rfl⟩ := List.getLast?_eq_some_iff.1 hlast
      rw [List.dropLast_concat] at h
      exact ⟨body, true, rfl, h⟩
    · rw [if_neg hlast] at h
      exact ⟨value, false, (List.append_nil value).symm, h⟩
  -- a line feed at the end is not part of the rows
  obtain ⟨hcan, hblock⟩ := Option.ite_none_left_eq_some.1 hbody
  simp only [Bool.or_eq_true, List.isEmpty_iff, decide_eq_true_eq, not_or, List.any_eq_true,
    and_assoc, not_exists, not_and, Bool.not_eq_true] at hcan
  obtain ⟨hne, hlast, -, htab, hreturn, hends⟩ := hcan
  obtain ⟨rows, htext, hwritten, hlines, hmem⟩ := exists_rows (getLast?_splitLines hne hlast)
  rw [flatMap_splitLines] at htext
  refine ⟨rows, ended, ⟨?_, fun row hrow => ?_, ?_, ?_, fun line hline => ?_⟩, ?_⟩
  · rw [← htext, List.cons_append]
  · have hline : row.line ∈ splitLines body :=
      (hmem row.line (hlines row hrow)).2 ⟨row, hrow, rfl⟩
    refine ⟨hlines row hrow, fun c hc => ?_, ?_⟩
    · have hfeed : c ≠ '\n' := fun heq => not_mem_of_mem_splitLines hline (heq ▸ hc)
      have hmark : c ≠ '\r' := by
        rintro rfl
        rw [List.contains_iff_mem.2 (mem_of_mem_splitLines hline hc)] at hreturn
        cases hreturn
      simp [isBreak, hfeed, hmark]
    · have hblank := hends row.line hline
      simp only [endsBlank, Bool.or_eq_false_iff, decide_eq_false_iff_not] at hblank
      exact hblank.1
  · rintro rfl
    cases htext
  · obtain ⟨c, rest, rfl⟩ := List.exists_cons_of_ne_nil hne
    exact htab
  · rw [← hmem line hline]
    cases ended with
    | false => rw [ending, if_neg Bool.false_ne_true, List.append_nil]
    | true =>
        have hpieces : splitLines (body ++ ending true) = splitLines body ++ [[]] :=
          splitLines_concat body
        simp [hpieces, hline]
  · rw [← Option.some.inj hblock, hwritten]

end RuleTidy.Yaml.Block
