import RuleTidy.Proofs.Document.Run
import RuleTidy.Proofs.Text.Lines

/-! Removal takes whole lines. The range of an item is found by a search around offsets that can
stand anywhere, but whatever they are it starts at a line with a dash and stops between two lines or
at the end of the text. So no line is cut. -/

namespace RuleTidy.Document

open Source Text Yaml

def EndsLine (text : List Char) : Prop := ∀ c ∈ text.getLast?, c = '\n'

section EndsLine

variable {a b : List Char}

theorem endsLine_nil : EndsLine [] := nofun

theorem EndsLine.append (ha : EndsLine a) (hb : EndsLine b) : EndsLine (a ++ b) := by
  intro c hc
  rw [List.getLast?_append, Option.mem_def, Option.or_eq_some_iff] at hc
  rcases hc with hc | ⟨-, hc⟩
  · exact hb c hc
  · exact ha c hc

theorem EndsLine.of_append (h : EndsLine (a ++ b)) : EndsLine b := by
  intro c hc
  apply h
  rw [List.getLast?_append, Option.mem_def, hc, Option.some_or]

theorem endsLine_concat (line : List Char) : EndsLine (line ++ ['\n']) := by
  intro c hc
  simpa [eq_comm] using hc

theorem EndsLine.eq_nil (h : EndsLine a) (hnone : '\n' ∉ a) : a = [] := by
  cases hlast : a.getLast? with
  | none => exact List.getLast?_eq_none_iff.1 hlast
  | some c =>
      obtain rfl := h c hlast
      exact absurd (List.mem_of_getLast? hlast) hnone

end EndsLine

/-! Whole lines. -/

/-- A text is the rest of a line, or a line with its line feed and the text below. -/
@[elab_as_elim]
theorem line_induction {P : List Char → Prop} (text : List Char)
    (last : ∀ line, '\n' ∉ line → P line)
    (feed : ∀ line below, '\n' ∉ line → P below → P (line ++ '\n' :: below)) : P text := by
  induction hlength : text.length using Nat.strongRecOn generalizing text with
  | ind n ih =>
      by_cases hmem : '\n' ∈ text
      · obtain ⟨line, below, rfl, hline⟩ := List.eq_append_cons_of_mem hmem
        refine feed line below hline (ih below.length ?_ below rfl)
        rw [← hlength, List.length_append, List.length_cons]
        omega
      · exact last text hmem

theorem wholeLines_append_feed {line : List Char} (h : '\n' ∉ line) (below : List Char) :
    wholeLines (line ++ '\n' :: below) = (line ++ ['\n']) :: wholeLines below := by
  induction line with
  | nil => simp [wholeLines]
  | cons c rest ih =>
      rw [List.mem_cons, not_or] at h
      rw [List.cons_append, wholeLines, if_neg (Ne.symm h.1), ih h.2]
      rfl

theorem wholeLines_of_not_mem {line : List Char} (h : '\n' ∉ line) (hne : line ≠ []) :
    wholeLines line = [line] := by
  induction line with
  | nil => exact absurd rfl hne
  | cons c rest ih =>
      rw [List.mem_cons, not_or] at h
      rw [wholeLines, if_neg (Ne.symm h.1)]
      by_cases hrest : rest = []
      · rw [hrest, wholeLines]
      · rw [ih h.2 hrest]

theorem wholeLines_append {a : List Char} (h : EndsLine a) (b : List Char) :
    wholeLines (a ++ b) = wholeLines a ++ wholeLines b := by
  induction a using line_induction with
  | last line hline =>
      rw [h.eq_nil hline]
      rfl
  | feed line below hline ih =>
      have hbelow : EndsLine below := by
        rw [List.append_cons] at h
        exact h.of_append
      rw [List.append_assoc, List.cons_append, wholeLines_append_feed hline,
        wholeLines_append_feed hline, ih hbelow, List.cons_append]

theorem wholeLines_ne_nil {text : List Char} (h : text ≠ []) : wholeLines text ≠ [] := by
  intro hnil
  have hflat := flatten_wholeLines text
  rw [hnil] at hflat
  exact h hflat.symm

theorem exists_wholeLines_eq_cons {margin : List Char} (hmargin : '\n' ∉ margin) {c : Char}
    (hc : c ≠ '\n') (rest : List Char) :
    ∃ tail below, wholeLines (margin ++ c :: rest) = (margin ++ c :: tail) :: below := by
  have hline : ∀ tail, '\n' ∉ tail → '\n' ∉ margin ++ c :: tail := by
    intro tail htail
    simp [hmargin, htail, Ne.symm hc]
  by_cases hmem : '\n' ∈ rest
  · obtain ⟨tail, below, rfl, htail⟩ := List.eq_append_cons_of_mem hmem
    refine ⟨tail ++ ['\n'], wholeLines below, ?_⟩
    rw [← List.cons_append, ← List.append_assoc, wholeLines_append_feed (hline tail htail)]
    simp
  · exact ⟨rest, [], wholeLines_of_not_mem (hline rest hmem) (by simp)⟩

/-! Offsets between lines. -/

/-- An offset between two lines of a text, at its start or at its end. -/
def IsEdge (text : List Char) (n : Nat) : Prop := EndsLine (text.take n) ∨ text.length ≤ n

theorem IsEdge.wholeLines_eq {text : List Char} {n : Nat} (h : IsEdge text n) :
    wholeLines text = wholeLines (text.take n) ++ wholeLines (text.drop n) := by
  rcases h with hends | hend
  · rw [← wholeLines_append hends, List.take_append_drop]
  · rw [List.take_of_length_le hend, List.drop_eq_nil_of_le hend, wholeLines, List.append_nil]

theorem isEdge_lineEndAfter (text : List Char) (offset : Nat) :
    IsEdge text (lineEndAfter text offset) := by
  unfold lineEndAfter
  dsimp only
  split
  · next hfeed =>
      obtain ⟨line, below, hrest, hline⟩ :=
        List.eq_append_cons_of_mem (List.contains_iff_mem.1 hfeed)
      left
      rw [hrest, takeWhile_append_of_not_mem hline, List.takeWhile_cons_of_neg (by simp),
        List.append_nil, Nat.add_assoc, List.take_add, hrest, List.append_cons,
        List.take_left' (by simp), ← List.append_assoc]
      exact endsLine_concat _
  · exact .inr (Nat.le_refl _)

theorem isEdge_blankLength (text : List Char) : IsEdge text (blankLength (wholeLines text)) := by
  induction text using line_induction with
  | last line hline =>
      by_cases hne : line = []
      · exact .inr (by simp [hne])
      · rw [wholeLines_of_not_mem hline hne, blankLength, blankLength]
        split
        · exact .inr (Nat.le_refl _)
        · exact .inl endsLine_nil
  | feed line below hline ih =>
      rw [wholeLines_append_feed hline, blankLength]
      split
      · rw [List.append_cons, IsEdge, List.take_length_add_append]
        rcases ih with hends | hend
        · exact .inl ((endsLine_concat line).append hends)
        · exact .inr (by rw [List.length_append]; omega)
      · exact .inl endsLine_nil

theorem isEdge_skipBlankLines {text : List Char} {start : Nat} (h : IsEdge text start) :
    IsEdge text (skipBlankLines text start) := by
  unfold skipBlankLines
  rcases h with hends | hend
  · rcases isEdge_blankLength (text.drop start) with hblank | hblank
    · left
      rw [List.take_add]
      exact hends.append hblank
    · right
      rw [List.length_drop] at hblank
      omega
  · exact .inr (by omega)

/-! Where entries start. -/

/-- A text up to an offset is made of the whole lines above and of a part of the line that holds the
offset. -/
structure LineAt (text : List Char) (n : Nat) (above line : List Char) : Prop where
  text_eq : text = above ++ (line ++ text.drop n)
  length_above : above.length = lineStartBefore text n
  endsLine : EndsLine above
  not_mem : '\n' ∉ line

theorem exists_lineAt (text : List Char) (n : Nat) : ∃ above line, LineAt text n above line := by
  let back := (text.take n).reverse
  let line := (back.takeWhile (· ≠ '\n')).reverse
  let above := (back.dropWhile (· ≠ '\n')).reverse
  have hsplit : text.take n = above ++ line := by
    rw [← List.reverse_append, List.takeWhile_append_dropWhile, List.reverse_reverse]
  have hlength : above.length + line.length = min n text.length := by
    rw [← List.length_append, ← hsplit, List.length_take]
  have hcolumn : line.length = columnAfter (text.take n) := List.length_reverse
  refine ⟨above, line, ?_, ?_, ?_, ?_⟩
  · rw [← List.append_assoc, ← hsplit, List.take_append_drop]
  · rw [lineStartBefore]
    omega
  · intro c hc
    have hhead := List.head?_dropWhile_not (· ≠ '\n') back
    rw [Option.mem_def, List.getLast?_reverse] at hc
    rw [hc] at hhead
    simpa using hhead
  · intro hmem
    have hfeed := List.all_eq_true.1 List.all_takeWhile _ (List.mem_reverse.1 hmem)
    simp at hfeed

theorem LineAt.slice_eq {text above line : List Char} {n : Nat} (h : LineAt text n above line) :
    slice text (lineStartBefore text n) n = line := by
  have htake : text.take n = above ++ line := by
    have hwhole : text.take n ++ text.drop n = above ++ line ++ text.drop n := by
      rw [List.take_append_drop, List.append_assoc]
      exact h.text_eq
    exact List.append_cancel_right hwhole
  rw [slice, htake, ← h.length_above, List.drop_left]

/-- An offset at which a line starts that has a dash as its first character behind blanks. -/
structure StartsEntry (text : List Char) (start : Nat) : Prop where
  endsLine : EndsLine (text.take start)
  dash : ∃ margin rest, text.drop start = margin ++ '-' :: rest ∧ allBlank margin = true ∧
    '\n' ∉ margin

theorem startsEntry_of_append {text above margin rest : List Char}
    (htext : text = above ++ (margin ++ '-' :: rest)) (habove : EndsLine above)
    (hmargin : allBlank margin = true) (hnone : '\n' ∉ margin) :
    StartsEntry text above.length := by
  subst htext
  refine ⟨?_, margin, rest, List.drop_left, hmargin, hnone⟩
  rwa [List.take_left]

theorem exists_margin_of_trim {text rest : List Char} {c : Char} (h : trim text = c :: rest) :
    ∃ margin tail, text = margin ++ c :: tail ∧ allBlank margin = true := by
  obtain ⟨blanks, hblanks, -⟩ := trimEnd_append_blanks (trimStart text)
  have hstart : trimStart text = c :: (rest ++ blanks) := by
    rw [hblanks]
    exact congrArg (· ++ blanks) h
  refine ⟨text.takeWhile isBlank, rest ++ blanks, ?_, List.all_takeWhile⟩
  rw [← hstart, trimStart, List.takeWhile_append_dropWhile]

theorem startsEntry_of_trim {text above line rest : List Char}
    (htext : text = above ++ (line ++ rest)) (habove : EndsLine above) (hnone : '\n' ∉ line)
    (htrim : trim line = ['-']) : StartsEntry text above.length := by
  obtain ⟨margin, tail, rfl, hmargin⟩ := exists_margin_of_trim htrim
  rw [List.append_assoc, List.cons_append] at htext
  exact startsEntry_of_append htext habove hmargin fun hmem => hnone (List.mem_append_left _ hmem)

theorem LineAt.startsEntry_of_head? {text above line : List Char} {n : Nat}
    (h : LineAt text n above line) (hblank : allBlank line = true)
    (hdash : (text.drop n).head? = some '-') : StartsEntry text above.length := by
  obtain ⟨rest, hrest⟩ := List.head?_eq_some_iff.1 hdash
  have htext : text = above ++ (line ++ '-' :: rest) := by
    rw [← hrest]
    exact h.text_eq
  exact startsEntry_of_append htext h.endsLine hblank h.not_mem

theorem exists_of_lineAbove? {text characters : List Char} {start above : Nat}
    (h : lineAbove? text start = some (above, characters)) :
    ∃ before, text = before ++ (characters ++ '\n' :: text.drop start) ∧ before.length = above ∧
      EndsLine before ∧ '\n' ∉ characters := by
  unfold lineAbove? at h
  dsimp only at h
  split at h
  · next hlast =>
      obtain ⟨raw, hraw⟩ := List.getLast?_eq_some_iff.1 hlast
      rw [hraw, List.dropLast_concat] at h
      obtain ⟨rfl, rfl⟩ := Prod.mk.inj (Option.some.inj h)
      obtain ⟨before, line, hline⟩ := exists_lineAt raw raw.length
      have hraweq : raw = before ++ line := by
        have := hline.text_eq
        rwa [List.drop_length, List.append_nil] at this
      have hcharacters : raw.drop (lineStartBefore raw raw.length) = line := by
        rw [← hline.length_above]
        exact (congrArg (List.drop before.length) hraweq).trans List.drop_left
      refine ⟨before, ?_, hline.length_above, hline.endsLine, ?_⟩
      · rw [hcharacters, ← List.append_assoc, ← hraweq, List.append_cons, ← hraw,
          List.take_append_drop]
      · rw [hcharacters]
        exact hline.not_mem
  · cases h

theorem entryStart?_dash {text : List Char} {node : Node} {start : Nat}
    (h : entryStart? text node = some start) :
    ∃ written,
      (start = lineStartBefore text written ∧
        trim (slice text (lineStartBefore text written) written) = ['-']) ∨
      (start = lineStartBefore text written ∧
        allBlank (slice text (lineStartBefore text written) written) = true ∧
        (text.drop written).head? = some '-') ∨
      ∃ line, lineAbove? text (lineStartBefore text written) = some (start, line) ∧
        trim line = ['-'] := by
  obtain ⟨written, -, h⟩ := Option.bind_eq_some_iff.1 h
  refine ⟨written, ?_⟩
  dsimp only at h
  rcases ite_eq_iff.1 h with ⟨hdash, h⟩ | ⟨-, h⟩
  · obtain rfl := Option.some.inj h
    rcases Bool.or_eq_true_iff.1 hdash with hbefore | hhere
    · exact .inl ⟨rfl, of_decide_eq_true (Bool.and_eq_true_iff.1 hbefore).1⟩
    · obtain ⟨hblank, hnext⟩ := Bool.and_eq_true_iff.1 hhere
      refine .inr (.inl ⟨rfl, hblank, ?_⟩)
      split at hnext
      · next hrest => rw [hrest, List.head?_cons]
      · cases hnext
  · rcases ite_eq_iff.1 h with ⟨-, h⟩ | ⟨-, h⟩
    · cases h
    · obtain ⟨⟨above, line⟩, habove, h⟩ := Option.bind_eq_some_iff.1 h
      rcases ite_eq_iff.1 h with ⟨htrim, h⟩ | ⟨-, h⟩
      · obtain rfl := Option.some.inj h
        exact .inr (.inr ⟨line, habove, htrim⟩)
      · cases h

theorem startsEntry_of_entryStart? {text : List Char} {node : Node} {start : Nat}
    (h : entryStart? text node = some start) : StartsEntry text start := by
  obtain ⟨written, h⟩ := entryStart?_dash h
  obtain ⟨above, line, hline⟩ := exists_lineAt text written
  rw [hline.slice_eq] at h
  rcases h with ⟨rfl, htrim⟩ | ⟨rfl, hblank, hhead⟩ | ⟨characters, habove, htrim⟩
  · rw [← hline.length_above]
    exact startsEntry_of_trim hline.text_eq hline.endsLine hline.not_mem htrim
  · rw [← hline.length_above]
    exact hline.startsEntry_of_head? hblank hhead
  · obtain ⟨before, htext, rfl, hends, hnone⟩ := exists_of_lineAbove? habove
    exact startsEntry_of_trim htext hends hnone htrim

theorem isEdge_entryStop? {text : List Char} {items : List Node} {index start stop : Nat}
    {item : Node} (h : entryStop? text items index start item = some stop) : IsEdge text stop := by
  unfold entryStop? at h
  split at h
  · exact .inl (startsEntry_of_entryStart? h).endsLine
  · have hend := isEdge_lineEndAfter text (contentEnd text item)
    dsimp only at h
    obtain rfl := Option.some.inj h
    split
    · exact isEdge_skipBlankLines hend
    · exact hend

/-- A range that starts at a line with a dash and stops at an edge of the text is a block of whole
lines, and the lines around it are left when it is taken away. -/
theorem StartsEntry.exists_lines {text : List Char} {start stop : Nat} (h : StartsEntry text start)
    (hstop : IsEdge text stop) (hlt : start < stop) (hle : stop ≤ text.length) :
    ∃ above first others below, wholeLines text = above ++ (first :: others) ++ below ∧
      wholeLines (text.take start ++ text.drop stop) = above ++ below ∧
      above.flatten = text.take start ∧ (first :: others).flatten = slice text start stop ∧
      (trimStart first).head? = some '-' := by
  obtain ⟨hstart, margin, rest, hdrop, hmargin, hnone⟩ := h
  have htake : text.take stop = text.take start ++ slice text start stop := by
    have htwice : text.take start = (text.take stop).take start := by
      rw [List.take_take, Nat.min_eq_left (Nat.le_of_lt hlt)]
    rw [htwice, slice, List.take_append_drop]
  have hwhole : wholeLines text = wholeLines (text.take start) ++
      wholeLines (slice text start stop) ++ wholeLines (text.drop stop) := by
    rw [hstop.wholeLines_eq, htake, wholeLines_append hstart]
  have hblock : slice text start stop ≠ [] := by
    rw [← List.length_pos_iff, length_slice]
    omega
  obtain ⟨first, others, hlines⟩ := List.exists_cons_of_ne_nil (wholeLines_ne_nil hblock)
  rw [hlines] at hwhole
  refine ⟨wholeLines (text.take start), first, others, wholeLines (text.drop stop), hwhole,
    wholeLines_append hstart _, flatten_wholeLines _, ?_, ?_⟩
  · rw [← hlines, flatten_wholeLines]
  · -- the first line of the block is the first one from its start on
    obtain ⟨tail, more, hfirst⟩ := exists_wholeLines_eq_cons hnone (by decide : '-' ≠ '\n') rest
    rw [IsEdge.wholeLines_eq (.inl hstart), hdrop, hfirst, List.append_assoc] at hwhole
    obtain ⟨hdash, -⟩ := List.cons.inj (List.append_cancel_left hwhole)
    rw [← hdash, trimStart, List.dropWhile_append_of_pos (List.all_eq_true.1 hmargin)]
    rfl

/-- The text of a document that was just parsed, without one item: of its lines a block is gone that
starts with the line of the item's dash, and all other lines are left as they are. -/
theorem wholeLines_removeItem {registry registry' : Registry} {text : String}
    {file : Option String} {d after : Document} {path : Path} {index : Nat} {removed : Node}
    (hparse : Document.parse registry text file = (.ok d, registry'))
    (hremove : d.removeItem path index = .ok (removed, after)) :
    ∃ above first others below,
      wholeLines text.toList = above ++ (first :: others) ++ below ∧
      wholeLines after.render.toList = above ++ below ∧
      (trimStart first).head? = some '-' ∧
      after.edits =
        [⟨above.flatten.length, (above ++ (first :: others)).flatten.length, []⟩] := by
  obtain ⟨htext, hfresh⟩ := parse_eq_ok hparse
  obtain ⟨start, stop, info, items, edits, root, hlines, hedits, -, rfl⟩ :=
    removeItem_eq_ok.1 hremove
  have hle : stop ≤ text.toList.length := htext ▸ hlines.fitsIn.2
  obtain rfl : [(⟨start, stop, []⟩ : TextEdit)] = edits := by
    simpa [hfresh, TextEdit.record?] using hedits
  have hstarts := hlines.starts
  have hstops := hlines.stops
  rw [htext] at hstarts hstops
  obtain ⟨above, first, others, below, hwhole, hleft, habove, hblock, hdash⟩ :=
    (startsEntry_of_entryStart? hstarts).exists_lines (isEdge_entryStop? hstops) hlines.lt hle
  refine ⟨above, first, others, below, hwhole, ?_, hdash, ?_⟩
  · have hrender : (({ d with root, edits := [⟨start, stop, []⟩] } : Document).render).toList =
        TextEdit.apply text.toList ⟨start, stop, []⟩ := by
      rw [← htext, render, String.toList_ofList]
      rfl
    rw [hrender, TextEdit.apply, if_neg (Nat.not_lt.2 hle), List.append_nil, hleft]
  · have hlt := hlines.lt
    rw [List.flatten_append, List.length_append, habove, hblock, List.length_take, length_slice,
      Nat.min_eq_left (by omega), Nat.min_eq_left hle, Nat.add_sub_cancel' (Nat.le_of_lt hlt)]

/-- A last item whose dash stands alone on a line goes with the blank line behind it, for there is
one before it too. -/
theorem wholeLines_removeItem_lastItem :
    ∃ d registry' removed after,
      Document.parse .empty "k:\n  - é\n\n  -\n    b\n\nm: x" none = (.ok d, registry') ∧
      d.removeItem [.key "k"] 1 = .ok (removed, after) ∧
      after.render = "k:\n  - é\n\nm: x" ∧
      ∃ above first others below,
        wholeLines "k:\n  - é\n\n  -\n    b\n\nm: x".toList = above ++ (first :: others) ++ below ∧
        wholeLines after.render.toList = above ++ below ∧ (trimStart first).head? = some '-' := by
  have hrun : ((Document.parse .empty "k:\n  - é\n\n  -\n    b\n\nm: x" none).1.toOption.bind
      fun d => (d.removeItem [.key "k"] 1).toOption.map fun removal => removal.2.render) =
        some "k:\n  - é\n\nm: x" := by decide +kernel
  obtain ⟨d, registry', hparse, hrun⟩ := exists_parse_of_bind hrun
  obtain ⟨⟨removed, after⟩, hremove, hrender⟩ := Option.map_eq_some_iff.1 hrun
  rw [toOption_eq_some] at hremove
  obtain ⟨above, first, others, below, hwhole, hleft, hdash, -⟩ :=
    wholeLines_removeItem hparse hremove
  exact ⟨d, registry', removed, after, hparse, hremove, hrender, above, first, others, below,
    hwhole, hleft, hdash⟩

end RuleTidy.Document
