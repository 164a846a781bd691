import RuleTidy.Proofs.Text.Lines

/-! The line that holds a character of a text, found by cutting the text around it. What the lines of
a text and the starts of its lines say about that line follows from the cut. -/

namespace RuleTidy.Text

inductive LineEnd (line : List Char) : List Char → List Char → Prop
  | text : LineEnd line [] []
  | feed (below : List Char) (h : line.getLast? ≠ some '\r') : LineEnd line ['\n'] below
  | returnFeed (below : List Char) : LineEnd line ['\r', '\n'] below

theorem LineEnd.not_mem_dropLast {line ending below : List Char} (h : LineEnd line ending below)
    (hline : '\n' ∉ line) : '\n' ∉ (line ++ ending).dropLast := by
  cases h with
  | text => exact fun hmem => hline (by simpa using List.dropLast_subset _ hmem)
  | feed => simpa using hline
  | returnFeed => simp [hline]

/-- A text is cut before, in and behind the line that holds its character at offset `n`. -/
structure LineCut (text : List Char) (n : Nat) where
  above : List Char
  line : List Char
  ending : List Char
  below : List Char
  text_eq : text = above ++ (line ++ ending ++ below)
  above_ends : ∀ c ∈ above.getLast?, c = '\n'
  not_mem_line : '\n' ∉ line
  line_ends : LineEnd line ending below
  length_above_le : above.length ≤ n
  lt_length : n < above.length + (line ++ ending).length

namespace LineCut

variable {text : List Char} {n : Nat}

theorem exists_of_le_length {raw : List Char} (hraw : '\n' ∉ raw) (below : List Char)
    (hn : n ≤ raw.length) : Nonempty (LineCut (raw ++ '\n' :: below) n) := by
  by_cases hreturn : raw.getLast? = some '\r'
  · obtain ⟨line, rfl⟩ := List.getLast?_eq_some_iff.1 hreturn
    refine ⟨[], line, ['\r', '\n'], below, ?_, ?_, ?_, .returnFeed below, Nat.zero_le n, ?_⟩
    · simp
    · simp
    · exact fun h => hraw (List.mem_append_left _ h)
    · simp at hn ⊢
      omega
  · refine ⟨[], raw, ['\n'], below, ?_, ?_, hraw, .feed below hreturn, Nat.zero_le n, ?_⟩
    · simp
    · simp
    · simp
      omega

def prepend (a : List Char) (cut : LineCut text n) :
    LineCut (a ++ '\n' :: text) (a.length + 1 + n) where
  above := a ++ '\n' :: cut.above
  line := cut.line
  ending := cut.ending
  below := cut.below
  text_eq := by
    rw [List.append_assoc, List.cons_append, ← cut.text_eq]
  above_ends := by
    intro c hc
    cases h : cut.above.getLast? with
    | none => simpa [List.getLast?_append, List.getLast?_cons, h, eq_comm] using hc
    | some last =>
        refine cut.above_ends c ?_
        simpa [List.getLast?_append, List.getLast?_cons, h] using hc
  not_mem_line := cut.not_mem_line
  line_ends := cut.line_ends
  length_above_le := by
    have := cut.length_above_le
    simp
    omega
  lt_length := by
    have := cut.lt_length
    simp at this ⊢
    omega

theorem exists_of_lt (h : n < text.length) : Nonempty (LineCut text n) := by
  induction n using Nat.strongRecOn generalizing text with
  | ind n ih =>
      by_cases hfeed : '\n' ∈ text
      · obtain ⟨raw, below, rfl, hraw⟩ := List.eq_append_cons_of_mem hfeed
        by_cases hn : n ≤ raw.length
        · exact exists_of_le_length hraw below hn
        · obtain ⟨m, rfl⟩ := Nat.exists_eq_add_of_le (show raw.length + 1 ≤ n by omega)
          have hm : m < below.length := by
            simp at h
            omega
          obtain ⟨cut⟩ := ih m (by omega) hm
          exact ⟨cut.prepend raw⟩
      · refine ⟨[], text, [], [], ?_, ?_, hfeed, .text, Nat.zero_le n, ?_⟩
        · simp
        · simp
        · simpa using h

theorem above_eq (cut : LineCut text n) : cut.above = [] ∨ ∃ a, cut.above = a ++ ['\n'] := by
  cases h : cut.above.getLast? with
  | none => exact .inl (List.getLast?_eq_none_iff.1 h)
  | some c =>
      obtain ⟨a, ha⟩ := List.getLast?_eq_some_iff.1 h
      exact .inr ⟨a, by rw [ha, cut.above_ends c h]⟩

theorem lines_eq_cons (cut : LineCut text n) :
    ∃ others, lines (cut.line ++ cut.ending ++ cut.below) = cut.line :: others := by
  obtain ⟨above, line, ending, below, -, -, hline, hend, hle, hlt⟩ := cut
  dsimp only at hle hlt ⊢
  cases hend with
  | text =>
      have hne : line ≠ [] := by
        rintro rfl
        simp at hlt
        omega
      exact ⟨[], by simpa using lines_of_not_mem hline hne⟩
  | feed _ h =>
      refine ⟨lines below, ?_⟩
      rw [List.append_assoc, List.singleton_append, lines_append_feed, splitLines_of_not_mem hline]
      simp [dropReturn, h]
  | returnFeed =>
      refine ⟨lines below, ?_⟩
      have hraw : '\n' ∉ line ++ ['\r'] := by simp [hline]
      have hsplit : line ++ ['\r', '\n'] ++ below = (line ++ ['\r']) ++ '\n' :: below := by simp
      rw [hsplit, lines_append_feed, splitLines_of_not_mem hraw]
      simp [dropReturn]

theorem getElem?_lines (cut : LineCut text n) :
    (lines text)[cut.above.count '\n']? = some cut.line := by
  obtain ⟨others, hothers⟩ := cut.lines_eq_cons
  rw [congrArg lines cut.text_eq]
  rcases cut.above_eq with habove | ⟨a, habove⟩
  · rw [habove, List.nil_append, hothers]
    rfl
  · rw [habove, List.append_assoc, List.singleton_append, lines_append_feed, hothers]
    have hcount : (a ++ ['\n']).count '\n' = ((splitLines a).map dropReturn).length := by
      rw [List.length_map, length_splitLines, List.count_append]
      rfl
    rw [hcount, List.getElem?_append_right (Nat.le_refl _), Nat.sub_self]
    rfl

theorem count_take (cut : LineCut text n) : (text.take n).count '\n' = cut.above.count '\n' := by
  have hbefore : text.take n = cut.above ++ (cut.line ++ cut.ending).take (n - cut.above.length) := by
    have := cut.lt_length
    rw [congrArg (List.take n) cut.text_eq, List.take_append, List.take_append,
      List.take_of_length_le cut.length_above_le,
      Nat.sub_eq_zero_of_le (show n - cut.above.length ≤ _ by omega), List.take_zero,
      List.append_nil]
  have hinside : (cut.line ++ cut.ending).take (n - cut.above.length) =
      (cut.line ++ cut.ending).dropLast.take (n - cut.above.length) := by
    have := cut.lt_length
    rw [List.dropLast_eq_take, List.take_take, Nat.min_eq_left (by omega)]
  have hnone : '\n' ∉ (cut.line ++ cut.ending).take (n - cut.above.length) := by
    rw [hinside]
    exact fun h => cut.line_ends.not_mem_dropLast cut.not_mem_line (List.mem_of_mem_take h)
  rw [hbefore, List.count_append, List.count_eq_zero.2 hnone, Nat.add_zero]

end LineCut

end RuleTidy.Text
