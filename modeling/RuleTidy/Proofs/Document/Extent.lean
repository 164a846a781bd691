import Mathlib.Logic.Basic
import RuleTidy.Document.Extent

/-! The offsets at which edits start and stop lie in the text. -/

namespace RuleTidy.Document

open Source Text Yaml

theorem lineStartBefore_le (text : List Char) (n : Nat) : lineStartBefore text n ≤ text.length := by
  unfold lineStartBefore
  omega

theorem length_trimEnd_le (text : List Char) : (trimEnd text).length ≤ text.length := by
  obtain ⟨blanks, h, _⟩ := trimEnd_append_blanks text
  have hlen := congrArg List.length h
  rw [List.length_append] at hlen
  omega

theorem headerColumn?_lt {chars : List Char} {column : Nat}
    (h : headerColumn? chars = some column) :
    column < chars.length := by
  unfold headerColumn? at h
  have hmem := List.mem_of_find?_eq_some h
  simpa using hmem

theorem headerStart?_le {text : List Char} {content start : Nat}
    (h : headerStart? text content = some start) : start ≤ content := by
  unfold headerStart? at h
  split at h
  · exact Nat.le_of_eq (Option.some.inj h).symm
  · obtain ⟨column, hcolumn, rfl⟩ := Option.map_eq_some_iff.1 h
    have hlt := headerColumn?_lt hcolumn
    have htrim := length_trimEnd_le (text.take content)
    rw [List.length_drop] at hlt
    rw [List.length_take] at htrim
    omega

theorem lineAbove?_le {text line : List Char} {start above : Nat}
    (h : lineAbove? text start = some (above, line)) : above ≤ text.length := by
  simp only [lineAbove?] at h
  split at h
  · obtain ⟨rfl, -⟩ := Prod.mk.inj (Option.some.inj h)
    refine Nat.le_trans (lineStartBefore_le _ _) ?_
    simp only [List.length_dropLast, List.length_take]
    omega
  · contradiction

theorem entryStart?_cases {text : List Char} {node : Node} {start : Nat}
    (h : entryStart? text node = some start) :
    ∃ written, writtenStart? text node = some written ∧
      (start = lineStartBefore text written ∨
        ∃ line, lineAbove? text (lineStartBefore text written) = some (start, line) ∧
          trim line = ['-']) := by
  unfold entryStart? at h
  obtain ⟨written, hwritten, h⟩ := Option.bind_eq_some_iff.1 h
  refine ⟨written, hwritten, ?_⟩
  dsimp only at h
  rcases ite_eq_iff.1 h with ⟨-, h⟩ | ⟨-, h⟩
  · exact .inl (Option.some.inj h).symm
  · rcases ite_eq_iff.1 h with ⟨-, h⟩ | ⟨-, h⟩
    · contradiction
    · obtain ⟨⟨above, line⟩, habove, h⟩ := Option.bind_eq_some_iff.1 h
      rcases ite_eq_iff.1 h with ⟨hdash, h⟩ | ⟨-, h⟩
      · obtain rfl := Option.some.inj h
        exact .inr ⟨line, habove, hdash⟩
      · contradiction

theorem entryStart?_le {text : List Char} {node : Node} {start : Nat}
    (h : entryStart? text node = some start) : start ≤ text.length := by
  obtain ⟨written, -, rfl | ⟨line, habove, -⟩⟩ := entryStart?_cases h
  · exact lineStartBefore_le text written
  · exact lineAbove?_le habove

theorem length_takeWhile_lt {α : Type} {p : α → Bool} {a : α} {l : List α} (ha : a ∈ l)
    (hp : p a = false) : (l.takeWhile p).length < l.length := by
  induction l with
  | nil => contradiction
  | cons b rest ih =>
      rcases List.mem_cons.1 ha with rfl | ha
      · simp [hp]
      · rw [List.takeWhile_cons]
        split
        · exact Nat.succ_lt_succ (ih ha)
        · exact Nat.zero_lt_succ _

theorem lineEndAfter_le (text : List Char) (offset : Nat) :
    lineEndAfter text offset ≤ text.length := by
  simp only [lineEndAfter]
  split
  · rename_i hbreak
    have hlt : ((text.drop offset).takeWhile (· ≠ '\n')).length < (text.drop offset).length :=
      length_takeWhile_lt (by simpa using hbreak) (by simp)
    rw [List.length_drop] at hlt
    omega
  · exact Nat.le_refl _

theorem flatten_wholeLines (text : List Char) : (wholeLines text).flatten = text := by
  induction text with
  | nil => rfl
  | cons c rest ih =>
      unfold wholeLines
      split
      · simp [ih]
      · cases h : wholeLines rest with
        | nil => simpa [h] using ih
        | cons line lines => simpa [h] using ih

theorem blankLength_le (lines : List (List Char)) : blankLength lines ≤ lines.flatten.length := by
  induction lines with
  | nil => exact Nat.le_refl _
  | cons line rest ih =>
      unfold blankLength
      split
      · rw [List.flatten_cons, List.length_append]
        omega
      · exact Nat.zero_le _

theorem skipBlankLines_le {text : List Char} {start : Nat} (h : start ≤ text.length) :
    skipBlankLines text start ≤ text.length := by
  have hle := blankLength_le (wholeLines (text.drop start))
  rw [flatten_wholeLines, List.length_drop] at hle
  unfold skipBlankLines
  omega

end RuleTidy.Document
