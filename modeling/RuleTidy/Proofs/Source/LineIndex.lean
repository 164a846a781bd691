import RuleTidy.Proofs.Text.Lines
import RuleTidy.Source.LineIndex

/-! The table of the lines of a text agrees with the text. Its entries are where the lines start, and
the places that it names are those that are found by counting line feeds. -/

namespace RuleTidy.Source

open Text

theorem byteLength_append (a b : List Char) :
    Utf8.byteLength (a ++ b) = Utf8.byteLength a + Utf8.byteLength b := by
  induction a with
  | nil => simp [Utf8.byteLength]
  | cons c rest ih => rw [List.cons_append, Utf8.byteLength, Utf8.byteLength, ih, Nat.add_assoc]

/-- Bisection finds where a table is divided into entries that satisfy `p` and entries that do
not. -/
theorem partitionPoint_eq {p : Nat → Bool} {table : Array Nat} {k low high : Nat}
    (hbelow : ∀ i < k, table[i]?.any p) (habove : ∀ i, k ≤ i → ¬ table[i]?.any p)
    (hlow : low ≤ k) (hhigh : k ≤ high) : partitionPoint p table low high = k := by
  fun_induction partitionPoint p table low high with
  | case1 low high hlt middle hmiddle ih =>
      have hk : middle < k := Nat.lt_of_not_le fun hle => habove middle hle hmiddle
      exact ih hk hhigh
  | case2 low high hlt middle hmiddle ih =>
      have hk : k ≤ middle := Nat.le_of_not_lt fun hlt => hmiddle (hbelow middle hlt)
      exact ih hlow hk
  | case3 low high hle => omega

namespace LineIndex

/-- A table has the lines that start in the beginning of a text. -/
structure Covers (text before : List Char) (index : LineIndex) : Prop where
  size : index.chars.size = before.count '\n' + 1
  chars : ∀ i : Nat, index.chars[i]? = lineStart? before i
  bytes : index.bytes = index.chars.map fun n => Utf8.byteLength (text.take n)

variable {text before : List Char} {index : LineIndex}

theorem covers_nil (text : List Char) : Covers text [] ⟨#[0], #[0]⟩ where
  size := rfl
  chars := by
    intro i
    cases i <;> simp [lineStart?]
  bytes := by simp [Utf8.byteLength]

theorem Covers.concat {c : Char} (h : Covers text before index) (hc : c ≠ '\n') :
    Covers text (before ++ [c]) index where
  size := by
    rw [h.size, List.count_append, List.count_singleton, if_neg (by simpa using hc), Nat.add_zero]
  chars := by
    intro i
    rw [h.chars, lineStart?_concat, if_neg fun hi => hc hi.1]
  bytes := h.bytes

theorem Covers.concat_feed (h : Covers text before index)
    (hbegins : before ++ ['\n'] <+: text) :
    Covers text (before ++ ['\n'])
      ⟨index.bytes.push (Utf8.byteLength before + 1), index.chars.push (before.length + 1)⟩ where
  size := by
    rw [Array.size_push, h.size, List.count_append]
    rfl
  chars := by
    intro i
    rw [Array.getElem?_push, h.chars, h.size, lineStart?_concat]
    simp
  bytes := by
    have htake : text.take (before.length + 1) = before ++ ['\n'] := by
      rw [List.prefix_iff_eq_take.1 hbegins]
      simp
    rw [Array.map_push, htake, ← h.bytes, byteLength_append]
    rfl

theorem covers_extend (h : Covers text before index) {rest : List Char}
    (htext : before ++ rest = text) :
    Covers text text (index.extend (Utf8.byteLength before) before.length rest) := by
  induction rest generalizing before index with
  | nil =>
      rw [List.append_nil] at htext
      rw [htext] at h
      exact h
  | cons c rest ih =>
      have hbefore : before ++ [c] ++ rest = text := by
        rw [← htext, List.append_assoc]
        rfl
      have hbytes : Utf8.byteLength before + c.utf8Size = Utf8.byteLength (before ++ [c]) := by
        rw [byteLength_append]
        rfl
      have hchars : before.length + 1 = (before ++ [c]).length := by simp
      rw [extend, hbytes, hchars]
      refine ih ?_ hbefore
      by_cases hc : c = '\n'
      · subst hc
        rw [if_pos rfl]
        simpa using h.concat_feed ⟨rest, hbefore⟩
      · rw [if_neg hc]
        exact h.concat hc

theorem covers_of (text : List Char) : Covers text text (of text) :=
  covers_extend (covers_nil text) rfl

theorem partitionPoint_of (text : List Char) (n : Nat) :
    partitionPoint (· ≤ n) (of text).chars 0 (of text).chars.size =
      (text.take n).count '\n' + 1 := by
  have h := covers_of text
  have hcount : (text.take n).count '\n' ≤ text.count '\n' := (List.take_sublist n text).count_le _
  have hstart : ∀ i start, (of text).chars[i]? = some start →
      (start ≤ n ↔ i ≤ (text.take n).count '\n') := by
    intro i start hi
    rw [h.chars] at hi
    exact lineStart?_le_iff hi n
  refine partitionPoint_eq ?_ ?_ (Nat.zero_le _) (by rw [h.size]; omega)
  · intro i hi
    have hsize : i < (of text).chars.size := by
      rw [h.size]
      omega
    have hget := Array.getElem?_eq_getElem hsize
    rw [hget, Option.any_some, decide_eq_true_eq, hstart i _ hget]
    omega
  · intro i hi hany
    obtain ⟨start, hget, hle⟩ := (Option.any_eq_true _ _).1 hany
    have := (hstart i start hget).1 (of_decide_eq_true hle)
    omega

theorem position_of (text : List Char) (n : Nat) :
    (of text).position n = Position.ofOffset text n := by
  have hcolumn : n - lineStartBefore text n = columnAfter (text.take n) + (n - text.length) := by
    have hle := columnAfter_le (text.take n)
    rw [List.length_take] at hle
    rw [lineStartBefore]
    omega
  rw [position, partitionPoint_of, Nat.add_sub_cancel, (covers_of text).chars,
    lineStart?_count_take, Option.getD_some, hcolumn]
  rfl

theorem bytes_of (text : List Char) (line : Nat) :
    (of text).bytes[line]? = (lineStart? text line).map fun n => Utf8.byteLength (text.take n) := by
  rw [(covers_of text).bytes, Array.getElem?_map, (covers_of text).chars]

theorem lineStart_of (text : List Char) (p : Position) :
    (of text).lineStart text p = Utf8.byteLength (text.take (p.lineOffset text)) := by
  rw [lineStart, bytes_of, Position.lineOffset]
  cases lineStart? text p.line.toNat with
  | none => simp
  | some start => rfl

theorem dropBytes?_byteLength (before rest : List Char) :
    dropBytes? (before ++ rest) (Utf8.byteLength before) = some rest := by
  induction before with
  | nil => cases rest <;> rfl
  | cons c before ih =>
      have hsize := c.utf8Size_pos
      obtain ⟨k, hk⟩ := Nat.exists_eq_add_of_le hsize
      rw [List.cons_append, Utf8.byteLength]
      have hsum : c.utf8Size + Utf8.byteLength before = k + Utf8.byteLength before + 1 := by omega
      rw [hsum, dropBytes?, if_pos (by omega), ← hsum, Nat.add_sub_cancel_left, ih]

theorem offset_of (text : List Char) (p : Position) :
    (of text).offset text p = Utf8.byteLength (text.take (p.offset text)) := by
  rw [offset, bytes_of, Position.offset]
  cases lineStart? text p.line.toNat with
  | none => simp
  | some start =>
      have hdrop := dropBytes?_byteLength (text.take start) (text.drop start)
      rw [List.take_append_drop] at hdrop
      dsimp only [Option.map_some]
      rw [hdrop, Option.getD_some, List.length_drop]
      split
      · next hlt =>
          rw [Nat.min_eq_left (by omega), List.take_add, byteLength_append]
      · next hle =>
          rw [Nat.min_eq_right (by omega), List.take_length]

end LineIndex

end RuleTidy.Source
