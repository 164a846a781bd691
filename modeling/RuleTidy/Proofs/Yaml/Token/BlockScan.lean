import RuleTidy.Proofs.Yaml.Token.Block

/-! When a string that was written as a literal block is read back. Two things keep it from that: a
space at the start of its first line with content, which the reader takes for indentation, and at
the margin of the text a line that ends the document. -/

namespace RuleTidy.Yaml.Block

open Text Written

variable {n : Nat} {c : Cursor} {parent : Int} {value behind : List Char} {first : Row}
  {more : List Row} {ended : Bool}

/-- Nothing in a string is taken for something else when it is read in a block. -/
def Intact (n : Nat) (value : List Char) : Prop :=
  (value.dropWhile (· = '\n')).head? ≠ some ' ' ∧
    (n = 0 → ∀ line ∈ splitLines value, isMarker line = false)

theorem Rows.value_first (h : Rows value (first :: more) ended) :
    value = newlines first.empty ++ (first.line ++ (more.flatMap Row.text ++ ending ended)) := by
  have hvalue := h.value_eq
  simp only [List.flatMap_cons, Row.text, newlines, List.replicate_succ, List.cons_append,
    List.cons.injEq, true_and, List.append_assoc] at hvalue
  exact hvalue

theorem Rows.head?_dropWhile (h : Rows value (first :: more) ended) :
    (value.dropWhile (· = '\n')).head? = first.line.head? := by
  have hline := h.isLine first List.mem_cons_self
  obtain ⟨ch, others, hcons⟩ := List.exists_cons_of_ne_nil hline.nonempty
  have hch : ch ≠ '\n' := by
    rintro rfl
    have hbreak := hline.inLine '\n' (by simp [hcons])
    cases hbreak
  rw [h.value_first, List.dropWhile_append_of_pos (by simp [newlines]), hcons]
  simp [hch]

theorem exists_text_first {m fuel k : Nat} {body : Cursor} {line tail : List Char}
    (hcolumn : body.column = m) (hrest : body.rest = line ++ tail) (hline : IsLine line)
    (hm : m ≠ 0) (htail : ∀ ch ∈ tail.head?, isBreak ch = true) :
    ∃ others, (lines true m (fuel + 1) { cursor := body, emptyLines := k }).text =
      newlines k ++ (line ++ others) := by
  let s : State := { cursor := body, emptyLines := k }
  have hfirst : s.text ++ (newlines (s.lineBreak.toNat + s.emptyLines) ++ line) =
      newlines k ++ line := by simp [s]
  rw [lines_succ (s := s) hcolumn hrest hline (fun hzero => absurd hzero hm) htail]
  split
  · exact ⟨[], by rw [hfirst, List.append_nil]⟩
  · obtain ⟨others, hothers⟩ := exists_text_lines (n := m) true fuel _
    exact ⟨others, by rw [hothers, hfirst, List.append_assoc]⟩

theorem scan_rows {j : Nat} {ch : Char} {others : List Char}
    (hvalue : Rows value (first :: more) ended) (hfirst : first.line = margin j ++ ch :: others)
    (hspace : ch ≠ ' ')
    (hrest : c.rest =
      '|' :: (mark ended ++ (first :: more).flatMap (Row.written (margin n))) ++ behind)
    (hparent : parent < n) :
    ∃ body : Cursor, body.column = n + j ∧
      body.rest = (ch :: others) ++ (more.flatMap (Row.written (margin n)) ++ behind) ∧
      let s := lines true (n + j) (c.rest.length + 1) { cursor := body, emptyLines := first.empty }
      ((∃ token after, scan true parent c = .ok (token, after) ∧
          token.kind = .scalar .literal (String.ofList value)) ↔
        s.text ++ tail (chomping ended) (n + j) s = value) := by
  let left := others ++ (more.flatMap (Row.written (margin n)) ++ behind)
  have hmargin : margin n ++ margin j = margin (n + j) := List.replicate_append_replicate
  have hrest' : c.rest = '|' :: (mark ended ++ (newlines (first.empty + 1) ++
      (margin (n + j) ++ ch :: left))) := by
    rw [hrest, ← hmargin]
    simp [left, Row.written, hfirst]
  have hbreak : isBreak ch = false :=
    (hvalue.isLine first List.mem_cons_self).inLine ch (by simp [hfirst])
  have htab : first.empty = 0 → n + j = 0 → ch ≠ '\t' := by
    rintro hempty hzero rfl
    obtain ⟨rfl, rfl⟩ := Nat.add_eq_zero_iff.1 hzero
    refine hvalue.noTab ?_
    rw [hvalue.value_first, hempty, hfirst]
    rfl
  obtain ⟨body, hbodyRest, hcolumn, hscan⟩ :=
    scan_first hrest' hspace hbreak htab (by omega : parent < ((n + j : Nat) : Int))
  refine ⟨body, hcolumn, hbodyRest, ?_⟩
  intro s
  rw [hscan]
  constructor
  · rintro ⟨token, after, heq, hkind⟩
    obtain ⟨rfl, rfl⟩ := Prod.mk.inj (Except.ok.inj heq)
    exact String.ofList_inj.1 (TokenKind.scalar.inj hkind).2
  · intro htext
    exact ⟨_, _, rfl, by rw [← htext]⟩

theorem head?_rows {rows : List Row} (hbehind : ∀ ch ∈ behind.head?, isBreak ch = true) :
    ∀ ch ∈ (rows.flatMap (Row.written (margin n)) ++ behind).head?, isBreak ch = true := by
  cases rows with
  | nil => exact hbehind
  | cons row rows => simp [Row.written, newlines, List.replicate_succ, isBreak]

theorem length_le_flatMap_written (rows : List Row) :
    rows.length ≤ (rows.flatMap (Row.written (margin n))).length := by
  induction rows with
  | nil => exact Nat.zero_le _
  | cons row rows ih =>
      simp only [List.flatMap_cons, Row.written, newlines, List.length_append,
        List.length_replicate, List.length_cons]
      omega

theorem outdents_newlines {tail : List Char} (h : Outdents n tail) (k : Nat) :
    Outdents n (newlines k ++ tail) := by
  induction k with
  | zero => exact h
  | succ k ih => exact .blank (k := 0) (Nat.zero_le n) (.inl rfl) ih

theorem ends_marker {row : Row} {rest : List Char} (hline : IsLine row.line)
    (hmarker : isMarker row.line = true) (hrest : ∀ ch ∈ rest.head?, isBreak ch = true) :
    Ends 0 (row.written (margin 0) ++ rest) := by
  have hline' : Outdents 0 (row.line ++ rest) := .marker rfl hline.inLine hmarker hrest
  refine .inr ⟨['\n'], _, ?_, .inl rfl, outdents_newlines hline' row.empty⟩
  simp [Row.written, newlines, margin, List.replicate_succ]

theorem dot_mem_of_isMarker {line : List Char} (h : isMarker line = true) : '.' ∈ line := by
  obtain ⟨rest, rfl, -⟩ := exists_of_isMarker h
  exact List.mem_cons_self

theorem text_ne_of_marker {fuel : Nat} {body : Cursor} {chomping : Chomping}
    (hvalue : Rows value (first :: more) ended) (hcolumn : body.column = 0)
    (hbody : body.rest = first.line ++ (more.flatMap (Row.written (margin 0)) ++ behind))
    (hmarker : ∃ row ∈ first :: more, isMarker row.line = true)
    (hbehind : ∀ ch ∈ behind.head?, isBreak ch = true) (hfuel : more.length < fuel) :
    let s := lines true 0 fuel { cursor := body, emptyLines := first.empty }
    s.text ++ tail chomping 0 s ≠ value := by
  intro s htext
  obtain ⟨hfirstLine, hmoreLines⟩ := List.forall_mem_cons.1 hvalue.isLine
  by_cases hfirst : isMarker first.line = true
  · have hstop : body.atMarker '.' = true := by
      rw [atMarker_eq hbody hfirstLine.inLine (head?_rows hbehind), hfirst]
    have hnone : s = { cursor := body, emptyLines := first.empty } :=
      lines_of_stops (.inr (.inr ⟨rfl, hstop⟩))
    have hdot : '.' ∈ tail chomping 0 s := by
      rw [hnone, List.nil_append, ← hnone, hvalue.value_first] at htext
      rw [htext]
      exact List.mem_append_right _ (List.mem_append_left _ (dot_mem_of_isMarker hfirst))
    cases mem_tail hdot
  · obtain ⟨row, hrow, hrowMarker⟩ := hmarker
    have hmore : row ∈ more := by
      rcases List.mem_cons.1 hrow with rfl | hmem
      · exact absurd hrowMarker hfirst
      · exact hmem
    -- what is read stops before the first such line, and the string goes on with its dots
    have hfind : (more.find? fun row => isMarker row.line).isSome = true := by
      rw [List.find?_isSome]
      exact ⟨row, hmore, hrowMarker⟩
    obtain ⟨stop, hstop⟩ := Option.isSome_iff_exists.1 hfind
    obtain ⟨hstopMarker, before, rest, rfl, hbefore⟩ := List.find?_eq_some_iff_append.1 hstop
    have hstopLine : IsLine stop.line := hmoreLines stop (by simp)
    have hrest : ∀ ch ∈ (rest.flatMap (Row.written (margin 0)) ++ behind).head?,
        isBreak ch = true := head?_rows hbehind
    have hbody' : body.rest = first.line ++ (before.flatMap (Row.written (margin 0)) ++
        (stop.written (margin 0) ++ (rest.flatMap (Row.written (margin 0)) ++ behind))) := by
      rw [hbody]
      simp
    have hbeforeLines : ∀ row ∈ before, IsLine row.line := fun row hrow =>
      hmoreLines row (List.mem_append_left _ hrow)
    have hbeforeMarkers : ∀ row ∈ before, isMarker row.line = false := fun row hrow => by
      simpa using hbefore row hrow
    have hless : before.length < fuel := by
      rw [List.length_append] at hfuel
      omega
    have hread : s.text = [] ++ (newlines (0 + first.empty) ++ first.line ++
        before.flatMap Row.text) :=
      (lines_rows (s := { cursor := body, emptyLines := first.empty }) hcolumn hbody' hfirstLine
        hbeforeLines (fun _ => ⟨by simpa using hfirst, hbeforeMarkers⟩)
        (ends_marker hstopLine hstopMarker hrest) hless).1
    have hdot : '.' ∈ tail chomping 0 s := by
      rw [hread, hvalue.value_first, List.flatMap_append, List.flatMap_cons, List.nil_append,
        Nat.zero_add] at htext
      simp only [List.append_assoc, List.append_cancel_left_eq] at htext
      rw [htext, Row.text]
      simp [dot_mem_of_isMarker hstopMarker]
    cases mem_tail hdot

/-- A string that was written as a block is read back wherever a block may end, exactly if nothing
in it is taken for something else. -/
theorem scan_written {rows : List Row} (hvalue : Rows value rows ended)
    (hrest : c.rest = '|' :: (mark ended ++ rows.flatMap (Row.written (margin n))) ++ behind)
    (hends : Ends n behind) (hparent : parent < n) :
    (∃ token after, scan true parent c = .ok (token, after) ∧
        token.kind = .scalar .literal (String.ofList value)) ↔ Intact n value := by
  obtain ⟨first, more, rfl⟩ := List.exists_cons_of_ne_nil hvalue.nonempty
  obtain ⟨hfirstLine, hmoreLines⟩ := List.forall_mem_cons.1 hvalue.isLine
  obtain ⟨j, ch, others, hfirst, hspace, hline⟩ := hfirstLine.exists_margin
  obtain ⟨body, hcolumn, hbody, hreads⟩ := scan_rows hvalue hfirst hspace hrest hparent
  have htail : ∀ d ∈ (more.flatMap (Row.written (margin n)) ++ behind).head?, isBreak d = true :=
    head?_rows (head?_of_ends hends)
  have hhead := hvalue.head?_dropWhile
  have hfuel : more.length < c.rest.length + 1 := by
    have hlength := length_le_flatMap_written (n := n) more
    rw [hrest]
    simp only [List.flatMap_cons, List.length_append, List.length_cons]
    omega
  refine hreads.trans ?_
  constructor
  · intro htext
    -- behind a wider margin, what is read lacks the space that the string has there
    obtain rfl : j = 0 := by
      cases j with
      | zero => rfl
      | succ j =>
          obtain ⟨rest, hread⟩ := exists_text_first hcolumn hbody hline (Nat.succ_ne_zero _) htail
          rw [hread, hvalue.value_first, hfirst] at htext
          simp only [List.append_assoc, List.append_cancel_left_eq] at htext
          exact absurd (List.cons.inj htext).1 hspace
    refine ⟨?_, ?_⟩
    · rw [hhead, hfirst]
      simpa [margin] using hspace
    · rintro rfl line hmem
      refine Bool.eq_false_iff.2 fun hmarker => ?_
      have hne : line ≠ [] := by
        rintro rfl
        cases hmarker
      obtain ⟨row, hrow, rfl⟩ := (hvalue.mem_pieces line hne).1 hmem
      have hbody' : body.rest =
          first.line ++ (more.flatMap (Row.written (margin 0)) ++ behind) := by
        rw [hbody, hfirst]
        rfl
      exact text_ne_of_marker hvalue hcolumn hbody' ⟨row, hrow, hmarker⟩ (head?_of_ends hends) hfuel
        htext
  · rintro ⟨hhead', hmarkers⟩
    obtain rfl : j = 0 := by
      cases j with
      | zero => rfl
      | succ j =>
          rw [hhead, hfirst] at hhead'
          exact absurd rfl hhead'
    have hmarkers' : n = 0 → ∀ row ∈ first :: more, isMarker row.line = false := by
      intro hn row hrow
      have hrowLine := hvalue.isLine row hrow
      exact hmarkers hn _ ((hvalue.mem_pieces _ hrowLine.nonempty).2 ⟨row, hrow, rfl⟩)
    have hbody' : body.rest = first.line ++ (more.flatMap (Row.written (margin n)) ++ behind) := by
      rw [hbody, hfirst]
      rfl
    have hcolumn' : body.column = n := hcolumn
    obtain ⟨hread, hclip⟩ :=
      lines_rows (s := { cursor := body, emptyLines := first.empty }) hcolumn' hbody' hfirstLine
        hmoreLines (fun hn => List.forall_mem_cons.1 (hmarkers' hn)) hends hfuel
    rw [Nat.add_zero, hread, tail_chomping hclip, hvalue.value_first]
    simp

end RuleTidy.Yaml.Block
