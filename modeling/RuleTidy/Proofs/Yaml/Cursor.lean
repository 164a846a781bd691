import RuleTidy.Proofs.Text.Front
import RuleTidy.Yaml.Cursor

/-! Places in a text that is read: what is left behind a step, and behind blanks and line breaks. -/

namespace RuleTidy.Yaml

theorem isBreak_of_isSpace {c : Char} (h : isSpace c = true) : isBreak c = false := by
  simp only [isSpace, Bool.or_eq_true, decide_eq_true_eq] at h
  rcases h with rfl | rfl <;> rfl

theorem isSpace_of_isBreak {ch : Char} (h : isBreak ch = true) : isSpace ch = false := by
  cases hspace : isSpace ch with
  | false => rfl
  | true =>
      rw [isBreak_of_isSpace hspace] at h
      cases h

theorem isSpaceOrBreak_of_isSpace {c : Char} (h : isSpace c = true) : isSpaceOrBreak c = true := by
  rw [isSpaceOrBreak, h, Bool.true_or]

theorem isSpaceOrBreak_of_isBreak {c : Char} (h : isBreak c = true) : isSpaceOrBreak c = true := by
  rw [isSpaceOrBreak, h, Bool.or_true]

theorem isFlow_of_isSpaceOrBreak {c : Char} (h : isSpaceOrBreak c = true) : isFlow c = false := by
  simp only [isSpaceOrBreak, isSpace, isBreak, Bool.or_eq_true, decide_eq_true_eq] at h
  rcases h with (rfl | rfl) | (rfl | rfl) <;> rfl

namespace Cursor

theorem advance_advance (c : Cursor) (m n : Nat) :
    (c.advance m).advance n = c.advance (m + n) := by
  simp [advance, skip, List.drop_drop, Nat.add_assoc]

theorem skip_eq_advance {c : Cursor} (h : c.onlyBlanks = false) (n : Nat) :
    c.skip n = c.advance n := by
  rw [advance, ← h]
  rfl

theorem advance_zero {c : Cursor} (h : c.onlyBlanks = false) : c.advance 0 = c := by
  rw [← skip_eq_advance h]
  rfl

@[simp] theorem onlyBlanks_advance (c : Cursor) (n : Nat) : (c.advance n).onlyBlanks = false := rfl

@[simp] theorem column_advance (c : Cursor) (n : Nat) : (c.advance n).column = c.column + n := rfl

@[simp] theorem index_advance (c : Cursor) (n : Nat) : (c.advance n).index = c.index + n := rfl

theorem rest_advance {c : Cursor} {text rest : List Char} (h : c.rest = text ++ rest) :
    (c.advance text.length).rest = rest := by
  simp [advance, skip, h]

theorem rest_skipWhile (c : Cursor) (p : Char → Bool) :
    (c.skipWhile p).rest = c.rest.dropWhile p :=
  Text.drop_length_takeWhile p c.rest

theorem rest_skip {c : Cursor} {text rest : List Char} (h : c.rest = text ++ rest) :
    (c.skip text.length).rest = rest := by
  simp [skip, h]

theorem skipBreak_cases {c : Cursor} {ch : Char} {rest : List Char} (hrest : c.rest = ch :: rest)
    (hch : isBreak ch = true) :
    c.skipBreak.column = 0 ∧ (c.skipBreak.rest = rest ∨ rest = '\n' :: c.skipBreak.rest) := by
  simp only [isBreak, Bool.or_eq_true, decide_eq_true_eq] at hch
  rcases hch with rfl | rfl
  · simp [skipBreak, hrest]
  · cases rest with
    | nil => simp [skipBreak, hrest]
    | cons d tail =>
        by_cases hd : d = '\n'
        · subst hd
          simp [skipBreak, hrest]
        · simp [skipBreak, hrest, hd]

section Blanks

variable {c : Cursor} {run tail : List Char}

theorem skipBlanks_eq (hrest : c.rest = run ++ tail) (hrun : ∀ d ∈ run, isSpace d = true)
    (htail : ∀ d ∈ tail.head?, isSpace d = false) :
    c.skipBlanks true =
      if tail.head? = some '#' then
        if run.contains '\t' || run.contains ' ' then
          .ok ⟨(c.skip run.length).skipWhile (!isBreak ·), run.contains '\t', run.contains ' '⟩
        else (c.skip run.length).fail .commentNotSeparated
      else .ok ⟨c.skip run.length, run.contains '\t', run.contains ' '⟩ := by
  have hsame : (fun ch => decide (ch = ' ') || (true && decide (ch = '\t'))) = isSpace := by
    funext ch
    rw [Bool.true_and]
    rfl
  have htake : c.rest.takeWhile isSpace = run := by rw [hrest, Text.takeWhile_run hrun htail]
  unfold skipBlanks
  simp only [hsame, htake, peek, rest_skip hrest]

theorem skipBlanks_run (hrest : c.rest = run ++ tail) (hrun : ∀ d ∈ run, isSpace d = true)
    (htail : ∀ d ∈ tail.head?, isSpace d = false) (hhash : tail.head? ≠ some '#') :
    ∃ found, c.skipBlanks true = .ok found ∧ found.cursor = c.skip run.length := by
  refine ⟨⟨c.skip run.length, run.contains '\t', run.contains ' '⟩, ?_, rfl⟩
  rw [skipBlanks_eq hrest hrun htail, if_neg hhash]

theorem skipBlanks_comment (hrest : c.rest = run ++ '#' :: tail) (hne : run ≠ [])
    (hrun : ∀ d ∈ run, isSpace d = true) :
    ∃ found, c.skipBlanks true = .ok found ∧ ∀ d ∈ found.cursor.peek, isBreak d = true := by
  have hstart : ∀ d ∈ ('#' :: tail).head?, isSpace d = false := by simp [isSpace]
  have hseparated : (run.contains '\t' || run.contains ' ') = true := by
    obtain ⟨b, others, rfl⟩ := List.exists_cons_of_ne_nil hne
    have hb : isSpace b = true := hrun b List.mem_cons_self
    simp only [isSpace, Bool.or_eq_true, decide_eq_true_eq] at hb
    rcases hb with rfl | rfl <;> simp
  rw [skipBlanks_eq hrest hrun hstart, if_pos List.head?_cons, if_pos hseparated]
  refine ⟨_, rfl, fun d hd => ?_⟩
  rw [peek, rest_skipWhile] at hd
  simpa using Text.head?_dropWhile (!isBreak ·) (c.skip run.length).rest d hd

end Blanks

end Cursor

theorem exists_run {blanks : List Char} (h : ∀ d ∈ blanks, isSpaceOrBreak d = true) :
    ∃ run others, blanks = run ++ others ∧ (∀ d ∈ run, isSpace d = true) ∧
      ∀ d ∈ others.head?, isBreak d = true := by
  induction blanks with
  | nil => exact ⟨[], [], rfl, by simp, by simp⟩
  | cons b blanks ih =>
      obtain ⟨hb, hblanks⟩ := List.forall_mem_cons.1 h
      cases hspace : isSpace b with
      | true =>
          obtain ⟨run, others, rfl, hrun, hothers⟩ := ih hblanks
          exact ⟨b :: run, others, rfl, List.forall_mem_cons.2 ⟨hspace, hrun⟩, hothers⟩
      | false =>
          rw [isSpaceOrBreak, hspace, Bool.false_or] at hb
          exact ⟨[], b :: blanks, rfl, by simp, by simpa using hb⟩

def columnBehind (column : Nat) (blanks : List Char) : Nat :=
  blanks.foldl (fun column c => if isBreak c then 0 else column + 1) column

theorem columnBehind_append (column : Nat) (blanks others : List Char) :
    columnBehind column (blanks ++ others) = columnBehind (columnBehind column blanks) others :=
  List.foldl_append

theorem columnBehind_cons_of_isSpace {column : Nat} {b : Char} (blanks : List Char)
    (hb : isSpace b = true) :
    columnBehind column (b :: blanks) = columnBehind (column + 1) blanks := by
  simp [columnBehind, isBreak_of_isSpace hb]

theorem columnBehind_cons_of_isBreak {column : Nat} {b : Char} (blanks : List Char)
    (hb : isBreak b = true) : columnBehind column (b :: blanks) = columnBehind 0 blanks := by
  simp [columnBehind, hb]

theorem columnBehind_of_isSpace {column : Nat} {blanks : List Char}
    (h : ∀ c ∈ blanks, isSpace c = true) : columnBehind column blanks = column + blanks.length := by
  induction blanks generalizing column with
  | nil => rfl
  | cons c blanks ih =>
      obtain ⟨hc, hblanks⟩ := List.forall_mem_cons.1 h
      rw [columnBehind_cons_of_isSpace blanks hc, ih hblanks, List.length_cons, Nat.add_assoc,
        Nat.add_comm 1]

theorem columnBehind_of_isBreak {column : Nat} {blanks margin : List Char} {b : Char}
    (hb : isBreak b = true) (hmargin : ∀ d ∈ margin, isSpace d = true) :
    columnBehind column (blanks ++ b :: margin) = margin.length := by
  rw [columnBehind_append, columnBehind_cons_of_isBreak margin hb, columnBehind_of_isSpace hmargin,
    Nat.zero_add]

theorem exists_skipBreak {c : Cursor} {ch : Char} {blanks tail : List Char}
    (hrest : c.rest = ch :: (blanks ++ tail)) (hch : isBreak ch = true)
    (htail : ∀ d ∈ tail.head?, isSpaceOrBreak d = false) :
    ∃ others, others <:+ blanks ∧ c.skipBreak.rest = others ++ tail ∧
      columnBehind c.column (ch :: blanks) = columnBehind c.skipBreak.column others := by
  obtain ⟨hzero, hnext⟩ := Cursor.skipBreak_cases hrest hch
  rw [columnBehind_cons_of_isBreak blanks hch, hzero]
  rcases hnext with hnext | hnext
  · exact ⟨blanks, List.suffix_refl _, hnext, rfl⟩
  · cases blanks with
    | nil =>
        rw [List.nil_append] at hnext
        have hfeed : isSpaceOrBreak '\n' = false := htail '\n' (by simp [hnext])
        cases hfeed
    | cons d others =>
        obtain ⟨rfl, hbehind⟩ := List.cons.inj hnext
        exact ⟨others, List.suffix_cons _ _, hbehind.symm, columnBehind_cons_of_isBreak others rfl⟩

theorem exists_skipBlanks {c : Cursor} {ch : Char} {blanks tail : List Char}
    (hrest : c.rest = ch :: (blanks ++ tail)) (hch : isSpace ch = true)
    (hblanks : ∀ d ∈ blanks, isSpaceOrBreak d = true)
    (hline : tail = [] ∨ ∃ b ∈ blanks, isBreak b = true) :
    ∃ found others, c.skipBlanks true = .ok found ∧ found.cursor.endOr isBreak = true ∧
      others <:+ blanks ∧ found.cursor.rest = others ++ tail ∧
      columnBehind c.column (ch :: blanks) = columnBehind found.cursor.column others := by
  obtain ⟨run, others, rfl, hrun, hothers⟩ := exists_run hblanks
  have hend : ∀ d ∈ (others ++ tail).head?, isBreak d = true := by
    cases others with
    | cons b others => exact hothers
    | nil =>
        rcases hline with rfl | ⟨b, hb, hbreak⟩
        · simp
        · rw [List.append_nil] at hb
          rw [isBreak_of_isSpace (hrun b hb)] at hbreak
          cases hbreak
  have hhash : (others ++ tail).head? ≠ some '#' := by
    intro hhash
    cases hend '#' hhash
  have hspaces : ∀ d ∈ ch :: run, isSpace d = true := List.forall_mem_cons.2 ⟨hch, hrun⟩
  have hrest' : c.rest = ch :: run ++ (others ++ tail) := by simp [hrest]
  obtain ⟨found, hfound, hcursor⟩ :=
    Cursor.skipBlanks_run hrest' hspaces (fun d hd => isSpace_of_isBreak (hend d hd)) hhash
  have hbehind : found.cursor.rest = others ++ tail := by rw [hcursor, Cursor.rest_skip hrest']
  refine ⟨found, others, hfound, ?_, List.suffix_append run others, hbehind, ?_⟩
  · rw [Cursor.endOr, Cursor.peek, hbehind]
    simpa [Option.all_eq_true] using hend
  · rw [← List.cons_append, columnBehind_append, columnBehind_of_isSpace hspaces, hcursor]
    rfl

end RuleTidy.Yaml
