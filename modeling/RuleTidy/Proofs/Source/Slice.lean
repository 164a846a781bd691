import Mathlib.Data.List.Basic
import RuleTidy.Proofs.Source.LineIndex
import RuleTidy.Source.Slice

/-! What offsets in bytes cut out and find. An offset behind whole characters is never refused, and
the search for a word from the end meets all its places if the word cannot overlap itself. -/

namespace RuleTidy.Source

open Text

section Cut

theorem takeBytes?_byteLength (before rest : List Char) :
    takeBytes? (before ++ rest) (Utf8.byteLength before) = some before := by
  induction before with
  | nil => cases rest <;> rfl
  | cons c before ih =>
      have hsize := c.utf8Size_pos
      obtain ⟨k, hk⟩ := Nat.exists_eq_add_of_le hsize
      have hsum : c.utf8Size + Utf8.byteLength before = k + Utf8.byteLength before + 1 := by omega
      rw [List.cons_append, Utf8.byteLength, hsum, takeBytes?, if_pos (by omega), ← hsum,
        Nat.add_sub_cancel_left, ih, Option.map_some]

theorem byteLength_reverse (text : List Char) :
    Utf8.byteLength text.reverse = Utf8.byteLength text := by
  induction text with
  | nil => rfl
  | cons c rest ih =>
      rw [List.reverse_cons, byteLength_append, ih, Utf8.byteLength, Utf8.byteLength,
        Utf8.byteLength, Nat.add_zero, Nat.add_comm]

theorem byteLength_pos {text : List Char} (h : text ≠ []) : 0 < Utf8.byteLength text := by
  cases text with
  | nil => exact absurd rfl h
  | cons c rest => exact Nat.add_pos_left c.utf8Size_pos _

end Cut

section First

variable {p : Char → Bool}

theorem firstOffset?_eq_none {text : List Char} (h : ∀ c ∈ text, p c = false) :
    firstOffset? p text = none := by
  induction text with
  | nil => rfl
  | cons c rest ih =>
      have hc := h c List.mem_cons_self
      have hrest := ih fun d hd => h d (List.mem_cons_of_mem c hd)
      simp [firstOffset?, hc, hrest]

theorem firstOffset?_append {before : List Char} {c : Char} (hbefore : ∀ d ∈ before, p d = false)
    (hc : p c = true) (rest : List Char) :
    firstOffset? p (before ++ c :: rest) = some (Utf8.byteLength before) := by
  induction before with
  | nil => simp [firstOffset?, hc, Utf8.byteLength]
  | cons d before ih =>
      have hd := hbefore d List.mem_cons_self
      have hrest := ih fun e he => hbefore e (List.mem_cons_of_mem d he)
      simp [firstOffset?, hd, hrest, Utf8.byteLength]

end First

section Word

variable {word reversed before : List Char} {busy n : Nat}

/-- No beginning of a word is one of its ends, but for the whole word. -/
def Unbordered (word : List Char) : Prop :=
  ∀ n < word.length, 0 < n → word.take n ≠ word.drop (word.length - n)

theorem exists_of_mem_wordOffsets (h : n ∈ wordOffsets word busy reversed) :
    ∃ before, n = Utf8.byteLength before ∧ word.reverse ++ before <:+ reversed.drop busy := by
  fun_induction wordOffsets word busy reversed with
  | case1 => cases h
  | case2 busy c rest ih => exact ih h
  | case3 c rest hword ih =>
      obtain ⟨before, hbefore⟩ := List.isPrefixOf_iff_prefix.1 hword
      rcases List.mem_cons.1 h with rfl | h
      · refine ⟨before, ?_, hbefore ▸ List.suffix_rfl⟩
        rw [← hbefore, ← List.length_reverse, List.drop_left]
      · obtain ⟨before, hn, hplace⟩ := ih h
        exact ⟨before, hn, hplace.trans
          ((List.drop_suffix _ rest).trans (List.suffix_cons c rest))⟩
  | case4 c rest hword ih =>
      obtain ⟨before, hn, hplace⟩ := ih h
      exact ⟨before, hn, hplace.trans (List.suffix_cons c rest)⟩

theorem pairwise_wordOffsets (hword : word ≠ []) (busy : Nat) (reversed : List Char) :
    (wordOffsets word busy reversed).Pairwise (· > ·) := by
  fun_induction wordOffsets word busy reversed with
  | case1 => exact List.Pairwise.nil
  | case2 busy c rest ih => exact ih
  | case3 c rest hplace ih =>
      refine List.Pairwise.cons (fun n hn => ?_) ih
      obtain ⟨before, rfl, hsuffix⟩ := exists_of_mem_wordOffsets hn
      have hpos : 0 < Utf8.byteLength word.reverse :=
        byteLength_pos (mt List.reverse_eq_nil_iff.1 hword)
      have hlength : word.length = word.length - 1 + 1 :=
        (Nat.sub_add_cancel (List.length_pos_iff.2 hword)).symm
      obtain ⟨front, hfront⟩ := hsuffix
      rw [hlength, List.drop_succ_cons, ← hfront, byteLength_append, byteLength_append]
      omega
  | case4 c rest hplace ih => exact ih

theorem tail_prefix_of_prefix_cons {c : Char} {left rest : List Char} (h : left <+: c :: rest) :
    left.tail <+: rest := by
  cases left with
  | nil => exact List.nil_prefix
  | cons d left => exact (List.cons_prefix_cons.1 h).2

/-- A word that cannot overlap itself is found wherever it stands. While a place found before is
passed over, what is left of it comes next. -/
theorem mem_wordOffsets (hword : Unbordered word) (hbusy : busy < word.length)
    (hleft : (word.take busy).reverse <+: reversed)
    (hplace : word.reverse ++ before <:+ reversed) :
    Utf8.byteLength before ∈ wordOffsets word busy reversed := by
  have hnonempty : word.reverse ++ before ≠ [] := by
    intro hnil
    rw [List.reverse_eq_nil_iff.1 (List.append_eq_nil_iff.1 hnil).1] at hbusy
    exact absurd hbusy (Nat.not_lt_zero busy)
  fun_induction wordOffsets word busy reversed with
  | case1 => exact absurd (List.suffix_nil.1 hplace) hnonempty
  | case2 busy c rest ih =>
      have hrest : (word.take busy).reverse <+: rest := by
        have htail := tail_prefix_of_prefix_cons hleft
        rwa [List.tail_reverse, List.dropLast_take hbusy] at htail
      rcases List.suffix_cons_iff.1 hplace with heq | hplace
      · -- a place that starts among the characters passed over would overlap the one before
        have hend : (word.take (busy + 1)).reverse <+: word.reverse :=
          List.prefix_of_prefix_length_le hleft (heq ▸ List.prefix_append _ _) <| by
              rw [List.length_reverse, List.length_reverse]
              exact List.length_take_le' _ _
        have hborder := List.suffix_iff_eq_drop.1 (List.reverse_prefix.1 hend)
        rw [List.length_take, Nat.min_eq_left (Nat.le_of_lt hbusy)] at hborder
        exact absurd hborder (hword _ hbusy (Nat.succ_pos busy))
      · exact ih (by omega) hrest hplace
  | case3 c rest hfound ih =>
      rcases List.suffix_cons_iff.1 hplace with heq | hplace
      · rw [← heq, ← List.length_reverse, List.drop_left]
        exact List.mem_cons_self
      · refine List.mem_cons_of_mem _ (ih (by omega) ?_ hplace)
        have htail := tail_prefix_of_prefix_cons (List.isPrefixOf_iff_prefix.1 hfound)
        rwa [List.tail_reverse, List.dropLast_eq_take] at htail
  | case4 c rest hfound ih =>
      rcases List.suffix_cons_iff.1 hplace with heq | hplace
      · exact absurd (List.isPrefixOf_iff_prefix.2 (heq ▸ List.prefix_append _ _)) hfound
      · exact ih hbusy List.nil_prefix hplace

theorem find?_eq_some_of_pairwise {offsets : List Nat} {p : Nat → Bool}
    (h : offsets.Pairwise (· > ·)) (hn : n ∈ offsets) (hp : p n = true)
    (hgreatest : ∀ m ∈ offsets, p m = true → m ≤ n) : offsets.find? p = some n := by
  cases hfind : offsets.find? p with
  | none => exact absurd hp (List.find?_eq_none.1 hfind n hn)
  | some m =>
      obtain ⟨hm, front, rest, heq, hfront⟩ := List.find?_eq_some_iff_append.1 hfind
      subst heq
      have hle : m ≤ n := hgreatest m (by simp) hm
      rcases List.mem_append.1 hn with hn | hn
      · have hnot := hfront n hn
        rw [hp] at hnot
        cases hnot
      · rcases List.mem_cons.1 hn with rfl | hn
        · rfl
        · have hlt := (List.pairwise_cons.1 (List.pairwise_append.1 h).2.1).1 n hn
          omega

end Word

end RuleTidy.Source
