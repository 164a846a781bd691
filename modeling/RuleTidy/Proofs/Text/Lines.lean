import RuleTidy.Text.Lines

/-! The pieces of a text between its line feeds, the lines that are made of them, and the places at
which the lines start. -/

namespace RuleTidy.Text

theorem splitLines_ne_nil (text : List Char) : splitLines text ≠ [] := by
  cases text with
  | nil => simp [splitLines]
  | cons c rest =>
      unfold splitLines
      split
      · simp
      · split <;> simp

theorem flatMap_splitLines (text : List Char) :
    (splitLines text).flatMap (fun line => '\n' :: line) = '\n' :: text := by
  induction text with
  | nil => rfl
  | cons c rest ih =>
      unfold splitLines
      split
      · next hc => rw [List.flatMap_cons, ih, hc, List.singleton_append]
      · cases hlines : splitLines rest with
        | nil => exact absurd hlines (splitLines_ne_nil rest)
        | cons line lines =>
            rw [hlines, List.flatMap_cons, List.cons_append, List.cons.injEq] at ih
            rw [List.flatMap_cons, List.cons_append, List.cons_append, ih.2]

theorem not_mem_of_mem_splitLines {text line : List Char} (h : line ∈ splitLines text) :
    '\n' ∉ line := by
  induction text generalizing line with
  | nil => simp_all [splitLines]
  | cons c rest ih =>
      unfold splitLines at h
      split at h
      · rcases List.mem_cons.1 h with rfl | hmem
        · exact List.not_mem_nil
        · exact ih hmem
      · next hc =>
          cases hlines : splitLines rest with
          | nil => exact absurd hlines (splitLines_ne_nil rest)
          | cons first others =>
              rw [hlines] at h ih
              rcases List.mem_cons.1 h with rfl | hmem
              · have hfirst := ih List.mem_cons_self
                simp [hfirst, Ne.symm hc]
              · exact ih (List.mem_cons_of_mem _ hmem)

theorem mem_of_mem_splitLines {text line : List Char} (h : line ∈ splitLines text) {c : Char}
    (hc : c ∈ line) : c ∈ text := by
  have hjoin : c ∈ '\n' :: text := by
    rw [← flatMap_splitLines, List.mem_flatMap]
    exact ⟨line, h, List.mem_cons_of_mem _ hc⟩
  rcases List.mem_cons.1 hjoin with rfl | hmem
  · exact absurd hc (not_mem_of_mem_splitLines h)
  · exact hmem

theorem splitLines_concat (text : List Char) :
    splitLines (text ++ ['\n']) = splitLines text ++ [[]] := by
  induction text with
  | nil => rfl
  | cons c rest ih =>
      rw [List.cons_append, splitLines, splitLines, ih]
      split
      · rfl
      · cases hlines : splitLines rest with
        | nil => exact absurd hlines (splitLines_ne_nil rest)
        | cons line lines => rfl

theorem getLast?_splitLines {text : List Char} (hne : text ≠ [])
    (hlast : text.getLast? ≠ some '\n') : (splitLines text).getLast? ≠ some [] := by
  intro h
  obtain ⟨init, hinit⟩ := List.getLast?_eq_some_iff.1 h
  have hjoin := flatMap_splitLines text
  rw [hinit, List.flatMap_append] at hjoin
  have hfeed : ('\n' :: text).getLast? = some '\n' := by
    rw [← hjoin]
    simp
  obtain ⟨c, rest, rfl⟩ := List.exists_cons_of_ne_nil hne
  rw [List.getLast?_cons_cons] at hfeed
  exact hlast hfeed

theorem splitLines_append_feed (a b : List Char) :
    splitLines (a ++ '\n' :: b) = splitLines a ++ splitLines b := by
  induction a with
  | nil => rfl
  | cons c rest ih =>
      rw [List.cons_append, splitLines, splitLines, ih]
      split
      · rfl
      · cases hlines : splitLines rest with
        | nil => exact absurd hlines (splitLines_ne_nil rest)
        | cons line lines => rfl

theorem length_splitLines (text : List Char) :
    (splitLines text).length = text.count '\n' + 1 := by
  induction text with
  | nil => rfl
  | cons c rest ih =>
      rw [splitLines, List.count_cons]
      split
      · next hc => simp [ih, hc]
      · next hc =>
          cases hlines : splitLines rest with
          | nil => exact absurd hlines (splitLines_ne_nil rest)
          | cons line lines => simpa [hlines, hc] using ih

theorem splitLines_of_not_mem {line : List Char} (h : '\n' ∉ line) : splitLines line = [line] := by
  induction line with
  | nil => rfl
  | cons c rest ih =>
      rw [List.mem_cons, not_or] at h
      rw [splitLines, if_neg (Ne.symm h.1), ih h.2]

theorem lines_go_append (front : List (List Char)) {rest : List (List Char)} (h : rest ≠ []) :
    lines.go (front ++ rest) = front.map dropReturn ++ lines.go rest := by
  induction front with
  | nil => rfl
  | cons line front ih =>
      obtain ⟨next, others, hcons⟩ :=
        List.exists_cons_of_ne_nil (List.append_ne_nil_of_right_ne_nil front h)
      rw [List.cons_append, hcons, lines.go, ← hcons, ih, List.map_cons, List.cons_append]
      simp

theorem lines_append_feed (a b : List Char) :
    lines (a ++ '\n' :: b) = (splitLines a).map dropReturn ++ lines b := by
  rw [lines, splitLines_append_feed, lines_go_append _ (splitLines_ne_nil b), lines]

theorem lines_of_not_mem {line : List Char} (h : '\n' ∉ line) (hne : line ≠ []) :
    lines line = [line] := by
  rw [lines, splitLines_of_not_mem h, lines.go, if_neg (by simpa using hne)]

theorem length_lines_go_le (pieces : List (List Char)) :
    (lines.go pieces).length ≤ (pieces.flatMap fun line => '\n' :: line).length - 1 := by
  fun_induction lines.go pieces with
  | case1 => exact Nat.le_refl _
  | case2 last hempty => exact Nat.zero_le _
  | case3 last hempty =>
      rw [List.isEmpty_iff, ← List.length_eq_zero_iff] at hempty
      simp
      omega
  | case4 line rest hrest ih =>
      obtain ⟨next, others, rfl⟩ := List.exists_cons_of_ne_nil hrest
      simp only [List.flatMap_cons, List.length_append, List.length_cons] at ih ⊢
      omega

theorem length_lines_le (text : List Char) : (lines text).length ≤ text.length := by
  have hgo := length_lines_go_le (splitLines text)
  rwa [flatMap_splitLines, List.length_cons, Nat.add_sub_cancel] at hgo

theorem takeWhile_append_of_not_mem {tail : List Char} (h : '\n' ∉ tail) (rest : List Char) :
    (tail ++ rest).takeWhile (· ≠ '\n') = tail ++ rest.takeWhile (· ≠ '\n') := by
  refine List.takeWhile_append_of_pos fun c hc => ?_
  simpa using ne_of_mem_of_not_mem hc h

theorem columnAfter_cons (c : Char) (before : List Char) :
    columnAfter (c :: before) =
      if '\n' ∈ before then columnAfter before
      else if c = '\n' then before.length else before.length + 1 := by
  unfold columnAfter
  rw [List.reverse_cons]
  by_cases hmem : '\n' ∈ before
  · obtain ⟨tail, rest, hsplit, htail⟩ := List.eq_append_cons_of_mem (List.mem_reverse.2 hmem)
    rw [if_pos hmem, hsplit, List.append_assoc, takeWhile_append_of_not_mem htail,
      takeWhile_append_of_not_mem htail]
    rfl
  · rw [if_neg hmem, takeWhile_append_of_not_mem (mt List.mem_reverse.1 hmem)]
    by_cases hc : c = '\n' <;> simp [hc]

theorem columnAfter_le (before : List Char) : columnAfter before ≤ before.length := by
  have hle : (before.reverse.takeWhile (· ≠ '\n')).length ≤ before.reverse.length :=
    (List.takeWhile_sublist _).length_le
  rwa [List.length_reverse] at hle

theorem lineStart?_concat (before : List Char) (c : Char) (line : Nat) :
    lineStart? (before ++ [c]) line =
      if c = '\n' ∧ line = before.count '\n' + 1 then some (before.length + 1)
      else lineStart? before line := by
  induction before generalizing line with
  | nil =>
      cases line with
      | zero => simp [lineStart?]
      | succ line => cases line <;> by_cases hc : c = '\n' <;> simp [lineStart?, hc]
  | cons d rest ih =>
      cases line with
      | zero => simp [lineStart?]
      | succ line =>
          rw [List.cons_append, lineStart?, lineStart?, ih, ih]
          by_cases hd : d = '\n'
          · simp only [hd, if_true, List.count_cons_self, List.length_cons,
              Nat.add_right_cancel_iff]
            split <;> rfl
          · simp only [if_neg hd, List.count_cons_of_ne hd, List.length_cons]
            split <;> rfl

theorem lineStart?_le_iff {text : List Char} {line start : Nat}
    (h : lineStart? text line = some start) (n : Nat) :
    start ≤ n ↔ line ≤ (text.take n).count '\n' := by
  induction text generalizing line start n with
  | nil =>
      cases line with
      | zero =>
          obtain rfl : 0 = start := by simpa [lineStart?] using h
          simp
      | succ line => simp [lineStart?] at h
  | cons c rest ih =>
      cases line with
      | zero =>
          obtain rfl : 0 = start := by simpa [lineStart?] using h
          simp
      | succ line =>
          rw [lineStart?, Option.map_eq_some_iff] at h
          obtain ⟨s, hs, rfl⟩ := h
          cases n with
          | zero => simp
          | succ n =>
              rw [List.take_succ_cons, Nat.add_le_add_iff_right]
              by_cases hc : c = '\n'
              · rw [if_pos hc] at hs
                rw [ih hs, hc, List.count_cons_self, Nat.add_le_add_iff_right]
              · rw [if_neg hc] at hs
                rw [ih hs, List.count_cons_of_ne hc]

theorem lineStart?_count_take (text : List Char) (n : Nat) :
    lineStart? text ((text.take n).count '\n') = some (lineStartBefore text n) := by
  unfold lineStartBefore
  induction text generalizing n with
  | nil => simp [lineStart?]
  | cons c rest ih =>
      cases n with
      | zero => simp [lineStart?]
      | succ n =>
          have hcol := columnAfter_le (rest.take n)
          rw [List.length_take] at hcol
          rw [List.take_succ_cons, columnAfter_cons, List.length_cons, List.length_take]
          by_cases hmem : '\n' ∈ rest.take n
          · obtain ⟨k, hk⟩ := Nat.exists_eq_succ_of_ne_zero
              (Nat.pos_iff_ne_zero.1 (List.count_pos_iff.2 hmem))
            have hrest := ih n
            rw [hk] at hrest
            rw [if_pos hmem]
            by_cases hc : c = '\n'
            · rw [hc, List.count_cons_self, hk, lineStart?, if_pos rfl, hrest]
              simp
              omega
            · rw [List.count_cons_of_ne hc, hk, lineStart?, if_neg hc, hrest]
              simp
              omega
          · rw [if_neg hmem]
            by_cases hc : c = '\n'
            · rw [hc, List.count_cons_self, List.count_eq_zero.2 hmem]
              simp [lineStart?]
            · rw [List.count_cons_of_ne hc, List.count_eq_zero.2 hmem]
              simp [lineStart?, hc]

end RuleTidy.Text
