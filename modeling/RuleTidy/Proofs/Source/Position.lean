import RuleTidy.Proofs.Source.LineIndex

/-! From characters to positions and on to bytes. In a text whose lines and columns all fit into a
position, the way by the table of lines leads to the byte at which the character stands, and
positions are in the order of the characters. -/

namespace RuleTidy.Source

open Text

namespace Position

theorem compare_eq_lt {p q : Position} :
    p.compare q = .lt ↔
      p.line.toNat < q.line.toNat ∨
        p.line.toNat = q.line.toNat ∧ p.column.toNat < q.column.toNat := by
  unfold compare
  rw [Ordering.then_eq_lt, Std.compare_eq_lt, Std.compare_eq_lt, Std.compare_eq_iff_eq,
    UInt32.lt_iff_toNat_lt, UInt32.lt_iff_toNat_lt, UInt32.toNat_inj]

variable {text : List Char} {m n : Nat}

theorem toNat_line_ofOffset (hfits : text.length < 0xFFFFFFFF) (n : Nat) :
    (ofOffset text n).line.toNat = (text.take n).count '\n' := by
  have hcount : (text.take n).count '\n' ≤ text.length :=
    Nat.le_trans List.count_le_length (List.length_take_le' n text)
  rw [ofOffset, toNat_saturate]
  omega

theorem lineStartBefore_add_columnAfter (text : List Char) (n : Nat) :
    lineStartBefore text n + columnAfter (text.take n) = min n text.length := by
  have hcolumn := columnAfter_le (text.take n)
  rw [List.length_take] at hcolumn
  unfold lineStartBefore
  omega

theorem toNat_column_ofOffset (hfits : text.length < 0xFFFFFFFF) (hn : n ≤ text.length) :
    (ofOffset text n).column.toNat = columnAfter (text.take n) := by
  have hcolumn := lineStartBefore_add_columnAfter text n
  rw [ofOffset, toNat_saturate]
  omega

theorem le_column_ofOffset (hfits : text.length < 0xFFFFFFFF) (hn : text.length ≤ n) :
    text.length ≤ lineStartBefore text n + (ofOffset text n).column.toNat := by
  have hcolumn := lineStartBefore_add_columnAfter text n
  rw [ofOffset, toNat_saturate]
  omega

theorem offset_ofOffset (hfits : text.length < 0xFFFFFFFF) (n : Nat) :
    (ofOffset text n).offset text = min n text.length := by
  rw [offset, toNat_line_ofOffset hfits, lineStart?_count_take]
  dsimp only
  rcases Nat.le_total n text.length with hn | hn
  · rw [toNat_column_ofOffset hfits hn, lineStartBefore_add_columnAfter]
    omega
  · have hend := le_column_ofOffset hfits hn
    omega

theorem compare_ofOffset (hfits : text.length < 0xFFFFFFFF) (hmn : m < n) (hn : n ≤ text.length) :
    (ofOffset text m).compare (ofOffset text n) = .lt := by
  have hlines : (text.take m).count '\n' ≤ (text.take n).count '\n' :=
    (List.take_sublist_take_left (Nat.le_of_lt hmn)).count_le _
  rw [compare_eq_lt, toNat_line_ofOffset hfits, toNat_line_ofOffset hfits,
    toNat_column_ofOffset hfits (by omega), toNat_column_ofOffset hfits hn]
  rcases Nat.lt_or_eq_of_le hlines with hlt | heq
  · exact .inl hlt
  · -- on one line, both columns count from the same start
    have hstart : lineStartBefore text m = lineStartBefore text n := by
      have hm := lineStart?_count_take text m
      rw [heq, lineStart?_count_take] at hm
      exact (Option.some.inj hm).symm
    have hcolumn := lineStartBefore_add_columnAfter text m
    have hcolumn' := lineStartBefore_add_columnAfter text n
    exact .inr ⟨heq, by omega⟩

end Position

theorem byteLength_eq_utf8ByteSize (text : List Char) :
    Utf8.byteLength text = (String.ofList text).utf8ByteSize := by
  induction text with
  | nil => rfl
  | cons c rest ih =>
      rw [String.ofList_cons, String.utf8ByteSize_append, String.utf8ByteSize_singleton, ← ih]
      rfl

namespace LineIndex

/-- In a text with fewer than `2 ^ 32 - 1` characters, the byte found for the position of an offset
is where the characters before it end. It is never inside a character, for an offset past the end it
is the end of the text, and up to there positions increase with the offsets. -/
theorem offset_position {text : String} (hfits : text.length < 0xFFFFFFFF) (n : Nat) :
    let index := of text.toList
    let byte := index.offset text.toList (index.position n)
    byte = (String.ofList (text.toList.take n)).utf8ByteSize ∧
      (text.length ≤ n → byte = text.utf8ByteSize) ∧
      (String.Pos.Raw.mk byte).IsValid text ∧
      ∀ m, n < m → m ≤ text.length → (index.position n).compare (index.position m) = .lt := by
  intro index byte
  have hlength : text.toList.length < 0xFFFFFFFF := by rwa [String.length_toList]
  have hbyte : byte = (String.ofList (text.toList.take n)).utf8ByteSize := by
    rw [← byteLength_eq_utf8ByteSize]
    simp only [byte, index]
    rw [offset_of, position_of, Position.offset_ofOffset hlength, ← List.take_take,
      List.take_length]
  refine ⟨hbyte, fun hn => ?_, ?_, fun m hnm hm => ?_⟩
  · rw [hbyte, List.take_of_length_le (by rwa [String.length_toList]), String.ofList_toList]
  · rw [String.Pos.Raw.isValid_iff_exists_append]
    refine ⟨String.ofList (text.toList.take n), String.ofList (text.toList.drop n), ?_, ?_⟩
    · rw [← String.ofList_append, List.take_append_drop, String.ofList_toList]
    · rw [hbyte]
      rfl
  · rw [position_of, position_of]
    exact Position.compare_ofOffset hlength hnm (by rwa [String.length_toList])

/-- The third character stands behind characters of two bytes and of one, the fifth is all of an
empty line, and past the end there is none. -/
theorem offset_position_emptyLine :
    let text := "é\n→\n\nb"
    let index := of text.toList
    text.length < 0xFFFFFFFF ∧ index.offset text.toList (index.position 2) = 3 ∧
      (String.Pos.Raw.mk (index.offset text.toList (index.position 4))).IsValid text ∧
      index.offset text.toList (index.position 9) = text.utf8ByteSize ∧
      (index.position 3).compare (index.position 4) = .lt := by
  intro text index
  have hfits : text.length < 0xFFFFFFFF := by decide +kernel
  obtain ⟨hthird, -, -, -⟩ := offset_position hfits 2
  obtain ⟨-, -, -, horder⟩ := offset_position hfits 3
  obtain ⟨-, -, hvalid, -⟩ := offset_position hfits 4
  obtain ⟨-, hpast, -, -⟩ := offset_position hfits 9
  refine ⟨hfits, ?_, hvalid, hpast (by decide +kernel), horder 4 (by decide) (by decide +kernel)⟩
  rw [hthird]
  decide +kernel

end LineIndex

end RuleTidy.Source
