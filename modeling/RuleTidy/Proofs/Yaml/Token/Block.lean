import RuleTidy.Proofs.Chain
import RuleTidy.Proofs.Yaml.Scalar.Block

/-! What is read of a literal block. Its indentation is that of its first row, so a row that starts
with a space moves all others. -/

namespace RuleTidy.Yaml.Block

open Written

variable {n : Nat} {c : Cursor}

/-! Single steps. -/

theorem rest_skip_spaces {tail : List Char} (h : c.rest = List.replicate n ' ' ++ tail) :
    (c.skip n).rest = tail := by
  have hlength : (List.replicate n ' ').length = n := List.length_replicate
  rw [← hlength]
  exact Cursor.rest_skip h

theorem skipBreak_newline {rest : List Char} (h : c.rest = '\n' :: rest) :
    c.skipBreak.rest = rest ∧ c.skipBreak.column = 0 := by
  simp [Cursor.skipBreak, h]

theorem nextIs_isBreak {ch : Char} {tail : List Char} (h : c.rest = ch :: tail) :
    c.nextIs isBreak = isBreak ch := by
  simp [Cursor.nextIs, Cursor.peek, h]

theorem takeWhile_spaces {k : Nat} {tail : List Char} (h : tail.head? ≠ some ' ') :
    (List.replicate k ' ' ++ tail).takeWhile (fun ch => decide (ch = ' ')) =
      List.replicate k ' ' := by
  refine Text.takeWhile_run (fun d hd => ?_) (fun d hd => ?_)
  · simp [List.eq_of_mem_replicate hd]
  · have hne : d ≠ ' ' := by
      rintro rfl
      exact h hd
    simp [hne]

theorem skipFirstIndentation_succ {fuel breaks widest : Nat} {tail : List Char}
    (hcolumn : c.column = 0) (hrest : c.rest = List.replicate n ' ' ++ tail)
    (htail : tail.head? ≠ some ' ') :
    skipFirstIndentation (fuel + 1) c breaks widest =
      if (c.skip n).nextIs isBreak then
        skipFirstIndentation fuel (c.skip n).skipBreak (breaks + 1) (max widest n)
      else (c.skip n, breaks, max widest n) := by
  have htake : (c.rest.takeWhile (fun ch => decide (ch = ' '))).length = n := by
    rw [hrest, takeWhile_spaces htail, List.length_replicate]
  have hafter : (c.skip n).column = n := by simp [Cursor.skip, hcolumn]
  rw [skipFirstIndentation]
  simp only [Cursor.skipWhile, htake, hafter]

theorem skipIndentation_succ {fuel breaks k : Nat} {tail : List Char} (hcolumn : c.column = 0)
    (hrest : c.rest = List.replicate k ' ' ++ tail)
    (htail : k = n ∨ k < n ∧ tail.head? ≠ some ' ') :
    skipIndentation n (fuel + 1) c breaks =
      if (c.skip k).nextIs isBreak then skipIndentation n fuel (c.skip k).skipBreak (breaks + 1)
      else (c.skip k, breaks) := by
  have htake : ((c.rest.takeWhile (fun ch => decide (ch = ' '))).take (n - c.column)).length =
      k := by
    rw [hcolumn, Nat.sub_zero, hrest]
    rcases htail with rfl | ⟨hlt, htail⟩
    · rw [List.takeWhile_append_of_pos (by simp), List.take_left' List.length_replicate,
        List.length_replicate]
    · rw [takeWhile_spaces htail, List.length_take, List.length_replicate]
      omega
  rw [skipIndentation]
  simp only [htake]

/-! Empty lines, and the row after them. -/

theorem skipFirstIndentation_row {fuel k breaks widest : Nat} {ch : Char} {tail : List Char}
    (hcolumn : c.column = 0) (hrest : c.rest = newlines k ++ (List.replicate n ' ' ++ ch :: tail))
    (hspace : ch ≠ ' ') (hbreak : isBreak ch = false) (hfuel : k < fuel) :
    ∃ after, skipFirstIndentation fuel c breaks widest = (after, breaks + k, max widest n) ∧
      after.rest = ch :: tail ∧ after.column = n := by
  induction k generalizing c fuel breaks widest with
  | zero =>
      obtain ⟨fuel, rfl⟩ := Nat.exists_eq_succ_of_ne_zero (Nat.ne_of_gt hfuel)
      have hskip : (c.skip n).rest = ch :: tail := rest_skip_spaces hrest
      refine ⟨c.skip n, ?_, hskip, by simp [Cursor.skip, hcolumn]⟩
      rw [skipFirstIndentation_succ hcolumn hrest (by simpa using hspace), nextIs_isBreak hskip,
        hbreak]
      rfl
  | succ k ih =>
      obtain ⟨fuel, rfl⟩ := Nat.exists_eq_succ_of_ne_zero (Nat.ne_of_gt (Nat.zero_lt_of_lt hfuel))
      have hnext : c.rest = '\n' :: (newlines k ++ (List.replicate n ' ' ++ ch :: tail)) := hrest
      obtain ⟨hrest', hcolumn'⟩ := skipBreak_newline hnext
      obtain ⟨after, hafter, hfound⟩ : ∃ after,
          skipFirstIndentation fuel c.skipBreak (breaks + 1) (max widest 0) =
            (after, breaks + 1 + k, max (max widest 0) n) ∧
          after.rest = ch :: tail ∧ after.column = n :=
        ih hcolumn' hrest' (Nat.lt_of_succ_lt_succ hfuel)
      have hskip : (c.skip 0).rest = '\n' :: (newlines k ++ (List.replicate n ' ' ++ ch :: tail)) :=
        hnext
      refine ⟨after, ?_, hfound⟩
      rw [Nat.max_zero] at hafter
      rw [skipFirstIndentation_succ (n := 0) hcolumn hnext (by simp), nextIs_isBreak hskip,
        Nat.max_zero, ← Nat.add_assoc, Nat.add_right_comm, ← hafter]
      rfl

theorem skipIndentation_row {fuel k breaks : Nat} {ch : Char} {tail : List Char}
    (hcolumn : c.column = 0) (hrest : c.rest = newlines k ++ (List.replicate n ' ' ++ ch :: tail))
    (hbreak : isBreak ch = false) (hfuel : k < fuel) :
    ∃ after, skipIndentation n fuel c breaks = (after, breaks + k) ∧
      after.rest = ch :: tail ∧ after.column = n := by
  induction k generalizing c fuel breaks with
  | zero =>
      obtain ⟨fuel, rfl⟩ := Nat.exists_eq_succ_of_ne_zero (Nat.ne_of_gt hfuel)
      have hskip : (c.skip n).rest = ch :: tail := rest_skip_spaces hrest
      refine ⟨c.skip n, ?_, hskip, by simp [Cursor.skip, hcolumn]⟩
      rw [skipIndentation_succ hcolumn hrest (.inl rfl), nextIs_isBreak hskip, hbreak]
      rfl
  | succ k ih =>
      obtain ⟨fuel, rfl⟩ := Nat.exists_eq_succ_of_ne_zero (Nat.ne_of_gt (Nat.zero_lt_of_lt hfuel))
      have hnext : c.rest = '\n' :: (newlines k ++ (List.replicate n ' ' ++ ch :: tail)) := hrest
      obtain ⟨hrest', hcolumn'⟩ := skipBreak_newline hnext
      obtain ⟨after, hafter, hfound⟩ : ∃ after,
          skipIndentation n fuel c.skipBreak (breaks + 1) = (after, breaks + 1 + k) ∧
          after.rest = ch :: tail ∧ after.column = n :=
        ih hcolumn' hrest' (Nat.lt_of_succ_lt_succ hfuel)
      have hskip : (c.skip 0).rest = '\n' :: (newlines k ++ (List.replicate n ' ' ++ ch :: tail)) :=
        hnext
      have hspaces : 0 = n ∨ 0 < n ∧ c.rest.head? ≠ some ' ' :=
        (Nat.eq_zero_or_pos n).imp Eq.symm fun hpos => ⟨hpos, by simp [hnext]⟩
      refine ⟨after, ?_, hfound⟩
      rw [skipIndentation_succ (k := 0) hcolumn rfl hspaces, nextIs_isBreak hskip, ← Nat.add_assoc,
        Nat.add_right_comm, ← hafter]
      rfl

/-! The end of a block. -/

def LineEnd (feed : List Char) : Prop := feed = ['\n'] ∨ feed = ['\r', '\n']

theorem skipBreak_lineEnd {feed rest : List Char} (hfeed : LineEnd feed)
    (h : c.rest = feed ++ rest) :
    c.nextIs isBreak = true ∧ c.skipBreak.rest = rest ∧ c.skipBreak.column = 0 := by
  rcases hfeed with rfl | rfl <;>
    simp [Cursor.nextIs, Cursor.peek, Cursor.skipBreak, h, isBreak]

def isMarker : List Char → Bool
  | '.' :: '.' :: '.' :: rest => rest.head?.all isSpace
  | _ => false

/-- What may stand behind the last line of a block: lines without content, and then the end of the
text, a line that is indented less than the block, or one that ends the document. -/
inductive Outdents (n : Nat) : List Char → Prop where
  | text : Outdents n []
  | dedent {k : Nat} {ch : Char} {tail : List Char} (hless : k < n) (hspace : ch ≠ ' ')
      (hbreak : isBreak ch = false) : Outdents n (List.replicate k ' ' ++ ch :: tail)
  | marker {line tail : List Char} (hmargin : n = 0) (hline : ∀ ch ∈ line, isBreak ch = false)
      (hmarker : isMarker line = true) (htail : ∀ ch ∈ tail.head?, isBreak ch = true) :
      Outdents n (line ++ tail)
  | blank {k : Nat} {feed tail : List Char} (hle : k ≤ n) (hfeed : LineEnd feed)
      (htail : Outdents n tail) : Outdents n (List.replicate k ' ' ++ (feed ++ tail))

def Ends (n : Nat) (behind : List Char) : Prop :=
  behind = [] ∨ ∃ feed tail, behind = feed ++ tail ∧ LineEnd feed ∧ Outdents n tail

def Stops (n : Nat) (c : Cursor) : Prop :=
  c.column ≠ n ∨ c.atEnd = true ∨ n = 0 ∧ c.atMarker '.' = true

theorem exists_of_isMarker {line : List Char} (h : isMarker line = true) :
    ∃ rest, line = '.' :: '.' :: '.' :: rest ∧ rest.head?.all isSpace = true := by
  unfold isMarker at h
  split at h
  · exact ⟨_, rfl, h⟩
  · cases h

theorem not_dot_of_isBreak {ch : Char} (h : isBreak ch = true) : ch ≠ '.' := by
  rintro rfl
  cases h

theorem atMarker_eq {line tail : List Char} (hrest : c.rest = line ++ tail)
    (hline : ∀ ch ∈ line, isBreak ch = false) (htail : ∀ ch ∈ tail.head?, isBreak ch = true) :
    c.atMarker '.' = isMarker line := by
  have hdot : ∀ ch ∈ tail.head?, ch ≠ '.' := fun ch hch => not_dot_of_isBreak (htail ch hch)
  unfold Cursor.atMarker
  rw [hrest]
  rcases line with _ | ⟨a, _ | ⟨b, _ | ⟨d, rest⟩⟩⟩
  · rcases tail with _ | ⟨e, _ | ⟨f, _ | ⟨g, tail⟩⟩⟩ <;> simp_all [isMarker]
  · rcases tail with _ | ⟨e, _ | ⟨f, tail⟩⟩ <;> simp_all [isMarker]
  · rcases tail with _ | ⟨e, tail⟩ <;> simp_all [isMarker]
  · by_cases hmark : a = '.' ∧ b = '.' ∧ d = '.'
    · obtain ⟨rfl, rfl, rfl⟩ := hmark
      rcases rest with _ | ⟨e, rest⟩
      · rcases tail with _ | ⟨e, tail⟩
        · rfl
        · simp [isMarker, isSpaceOrBreak, htail e rfl]
      · have he : isBreak e = false := hline e (by simp)
        simp [isMarker, isSpaceOrBreak, he]
    · have hnone : isMarker (a :: b :: d :: rest) = false := by
        unfold isMarker
        split
        · next heq => simp_all
        · rfl
      rw [Classical.not_and_iff_not_or_not, Classical.not_and_iff_not_or_not] at hmark
      rw [hnone]
      rcases hmark with ha | hb | hd
      · simp [ha]
      · simp [hb]
      · simp [hd]

theorem skipIndentation_outdents {fuel breaks : Nat} {rest : List Char} (h : Outdents n rest)
    (hcolumn : c.column = 0) (hrest : c.rest = rest) (hfuel : rest.length < fuel) :
    ∃ after total, skipIndentation n fuel c breaks = (after, total) ∧ Stops n after ∧
      ¬(after.atEnd = true ∧ max n 1 ≤ after.column) := by
  induction h generalizing c fuel breaks with
  | text =>
      obtain ⟨fuel, rfl⟩ := Nat.exists_eq_succ_of_ne_zero (Nat.ne_of_gt hfuel)
      have hend : c.atEnd = true := by simp [Cursor.atEnd, hrest]
      have hnext : (c.skip 0).nextIs isBreak = false := by
        simp [Cursor.nextIs, Cursor.peek, Cursor.skip, hrest]
      have hspaces : 0 = n ∨ 0 < n ∧ c.rest.head? ≠ some ' ' :=
        (Nat.eq_zero_or_pos n).imp Eq.symm fun hpos => ⟨hpos, by simp [hrest]⟩
      refine ⟨c, breaks, ?_, .inr (.inl hend), ?_⟩
      · rw [skipIndentation_succ (k := 0) hcolumn rfl hspaces, hnext]
        rfl
      · omega
  | @dedent k ch tail hless hspace hbreak =>
      obtain ⟨fuel, rfl⟩ := Nat.exists_eq_succ_of_ne_zero (Nat.ne_of_gt (Nat.zero_lt_of_lt hfuel))
      have hskip : (c.skip k).rest = ch :: tail := rest_skip_spaces hrest
      have hcolumn' : (c.skip k).column = k := by simp [Cursor.skip, hcolumn]
      refine ⟨c.skip k, breaks, ?_, .inl (by omega), ?_⟩
      · rw [skipIndentation_succ hcolumn hrest (.inr ⟨hless, by simpa using hspace⟩),
          nextIs_isBreak hskip, hbreak]
        rfl
      · simp [Cursor.atEnd, hskip]
  | @marker line tail hmargin hline hmarker htail =>
      obtain ⟨fuel, rfl⟩ := Nat.exists_eq_succ_of_ne_zero (Nat.ne_of_gt (Nat.zero_lt_of_lt hfuel))
      have hstop : c.atMarker '.' = true := by rw [atMarker_eq hrest hline htail, hmarker]
      obtain ⟨rest, rfl, -⟩ := exists_of_isMarker hmarker
      have hskip : (c.skip 0).rest = '.' :: ('.' :: '.' :: rest ++ tail) := hrest
      refine ⟨c, breaks, ?_, .inr (.inr ⟨hmargin, hstop⟩), by simp [Cursor.atEnd, hrest]⟩
      rw [skipIndentation_succ (k := 0) hcolumn rfl (.inl hmargin.symm), nextIs_isBreak hskip]
      rfl
  | @blank k feed tail hle hfeed htail ih =>
      obtain ⟨fuel, rfl⟩ := Nat.exists_eq_succ_of_ne_zero (Nat.ne_of_gt (Nat.zero_lt_of_lt hfuel))
      have hskip : (c.skip k).rest = feed ++ tail := rest_skip_spaces hrest
      obtain ⟨hnext, hrest', hcolumn'⟩ := skipBreak_lineEnd hfeed hskip
      have hspaces : k = n ∨ k < n ∧ (feed ++ tail).head? ≠ some ' ' :=
        (Nat.eq_or_lt_of_le hle).imp id fun hlt =>
          ⟨hlt, by rcases hfeed with rfl | rfl <;> simp⟩
      have hlength : 0 < feed.length := by rcases hfeed with rfl | rfl <;> simp
      simp only [List.length_append, List.length_replicate] at hfuel
      have hless : tail.length < fuel := by omega
      obtain ⟨after, total, hafter, hstops⟩ := ih hcolumn' hrest' hless
      refine ⟨after, total, ?_, hstops⟩
      rw [skipIndentation_succ hcolumn hrest hspaces, hnext, if_pos rfl]
      exact hafter

/-! The lines of a block. -/

theorem lines_of_stops {literal : Bool} {fuel : Nat} {s : State} (h : Stops n s.cursor) :
    lines literal n fuel s = s := by
  cases fuel with
  | zero => rfl
  | succ fuel =>
      have hcond : (decide (s.cursor.column ≠ n) || s.cursor.atEnd ||
          (decide (n = 0) && s.cursor.atMarker '.')) = true := by
        rcases h with h | h | ⟨hn, h⟩
        · simp [h]
        · simp [h]
        · simp [hn, h]
      rw [lines]
      simp only [hcond, if_true]

theorem exists_text_lines (literal : Bool) (fuel : Nat) (s : State) :
    ∃ more, (lines literal n fuel s).text = s.text ++ more := by
  induction fuel generalizing s with
  | zero => exact ⟨[], (List.append_nil _).symm⟩
  | succ fuel ih =>
      rw [lines]
      split
      · exact ⟨[], (List.append_nil _).symm⟩
      · dsimp only
        split
        · exact ⟨_, List.append_assoc _ _ _⟩
        · obtain ⟨more, hmore⟩ := ih _
          exact ⟨_, hmore.trans (by simp only [List.append_assoc]; rfl)⟩

theorem lines_succ {fuel : Nat} {s : State} {line tail : List Char} (hcolumn : s.cursor.column = n)
    (hrest : s.cursor.rest = line ++ tail) (hline : IsLine line)
    (hmarker : n = 0 → isMarker line = false) (htail : ∀ ch ∈ tail.head?, isBreak ch = true) :
    let after := s.cursor.skip line.length
    let text := s.text ++ (newlines (s.lineBreak.toNat + s.emptyLines) ++ line)
    let skipped := skipIndentation n (tail.length + 1) after.skipBreak 0
    lines true n (fuel + 1) s =
      if tail = [] then ⟨after, text, false, 0, s.cursor.nextIs isSpace⟩
      else lines true n fuel ⟨skipped.1, text, true, skipped.2, s.cursor.nextIs isSpace⟩ := by
  intro after text skipped
  have hend : s.cursor.atEnd = false := by
    simp [Cursor.atEnd, hrest, hline.nonempty]
  have hnot : (decide (n = 0) && s.cursor.atMarker '.') = false := by
    rw [atMarker_eq hrest hline.inLine htail]
    by_cases hn : n = 0
    · simp [hmarker hn]
    · simp [hn]
  have htake : s.cursor.rest.takeWhile (!isBreak ·) = line := by
    rw [hrest]
    exact Text.takeWhile_run (by simpa using hline.inLine) (by simpa using htail)
  have hafter : after.rest = tail := Cursor.rest_skip hrest
  have hatEnd : after.atEnd = decide (tail = []) := by
    rw [Cursor.atEnd, hafter]
    cases tail <;> rfl
  rw [lines]
  simp only [hcolumn, hend, hnot, htake, after] at hafter hatEnd ⊢
  simp only [hafter, hatEnd]
  simp [text, skipped, after, join]

def margin (n : Nat) : List Char := List.replicate n ' '

theorem head?_of_ends {behind : List Char} (h : Ends n behind) :
    ∀ ch ∈ behind.head?, isBreak ch = true := by
  rcases h with rfl | ⟨feed, tail, rfl, rfl | rfl, -⟩ <;> simp [isBreak]

theorem lines_end {fuel : Nat} {s : State} {line behind : List Char}
    (hcolumn : s.cursor.column = n) (hrest : s.cursor.rest = line ++ behind) (hline : IsLine line)
    (hmarker : n = 0 → isMarker line = false) (hends : Ends n behind) :
    (lines true n (fuel + 1) s).text =
        s.text ++ (newlines (s.lineBreak.toNat + s.emptyLines) ++ line) ∧
      tail .clip n (lines true n (fuel + 1) s) = newlines 1 := by
  have hafter : (s.cursor.skip line.length).rest = behind := Cursor.rest_skip hrest
  rw [lines_succ hcolumn hrest hline hmarker (head?_of_ends hends)]
  rcases hends with rfl | ⟨feed, rest, rfl, hfeed, houtdents⟩
  · have hlength : 0 < line.length := List.length_pos_iff.2 hline.nonempty
    have hend : (s.cursor.skip line.length).atEnd = true := by simp [Cursor.atEnd, hafter]
    have hlong : max n 1 ≤ (s.cursor.skip line.length).column := by
      simp only [Cursor.skip, hcolumn]
      omega
    simp only [tail, hend, hlong, decide_true, Bool.and_self, Bool.toNat_false, Bool.toNat_true,
      Nat.zero_add, if_true, and_self]
  · have hne : feed ++ rest ≠ [] := by rcases hfeed with rfl | rfl <;> simp
    obtain ⟨-, hrest', hcolumn'⟩ := skipBreak_lineEnd hfeed hafter
    have hless : rest.length < (feed ++ rest).length + 1 := by
      rw [List.length_append]
      omega
    obtain ⟨after, total, hskip, hstops, hunended⟩ : ∃ after total,
        skipIndentation n ((feed ++ rest).length + 1) (s.cursor.skip line.length).skipBreak 0 =
          (after, total) ∧ Stops n after ∧ ¬(after.atEnd = true ∧ max n 1 ≤ after.column) :=
      skipIndentation_outdents houtdents hcolumn' hrest' hless
    have hopen : (after.atEnd && decide (max n 1 ≤ after.column)) = false := by
      rw [← Bool.not_eq_true, Bool.and_eq_true, decide_eq_true_eq]
      exact hunended
    simp only [if_neg hne, hskip]
    rw [lines_of_stops hstops]
    simp only [tail, hopen, Bool.toNat_true, Bool.toNat_false, Nat.add_zero, and_self]

theorem lines_rows {fuel : Nat} {rows : List Row} {s : State} {line behind : List Char}
    (hcolumn : s.cursor.column = n)
    (hrest : s.cursor.rest = line ++ (rows.flatMap (Row.written (margin n)) ++ behind))
    (hline : IsLine line) (hrows : ∀ row ∈ rows, IsLine row.line)
    (hmarker : n = 0 → isMarker line = false ∧ ∀ row ∈ rows, isMarker row.line = false)
    (hends : Ends n behind) (hfuel : rows.length < fuel) :
    (lines true n fuel s).text = s.text ++
        (newlines (s.lineBreak.toNat + s.emptyLines) ++ line ++ rows.flatMap Row.text) ∧
      tail .clip n (lines true n fuel s) = newlines 1 := by
  induction rows generalizing fuel s line with
  | nil =>
      obtain ⟨fuel, rfl⟩ := Nat.exists_eq_succ_of_ne_zero (Nat.ne_of_gt hfuel)
      rw [List.flatMap_nil, List.append_nil]
      exact lines_end hcolumn hrest hline (fun hn => (hmarker hn).1) hends
  | cons row rows ih =>
      obtain ⟨fuel, rfl⟩ := Nat.exists_eq_succ_of_ne_zero (Nat.ne_of_gt (Nat.zero_lt_of_lt hfuel))
      obtain ⟨hrow, hrows⟩ := List.forall_mem_cons.1 hrows
      obtain ⟨ch, others, hcons⟩ := List.exists_cons_of_ne_nil hrow.nonempty
      have hch : isBreak ch = false := hrow.inLine ch (by simp [hcons])
      let left := rows.flatMap (Row.written (margin n)) ++ behind
      -- the break behind `line` is skipped together with the empty lines and the margin of `row`
      let next := newlines row.empty ++ (margin n ++ ch :: (others ++ left))
      have htail : (row :: rows).flatMap (Row.written (margin n)) ++ behind = '\n' :: next := by
        simp [Row.written, newlines, List.replicate_succ, hcons, left, next]
      rw [htail] at hrest
      have hafter := Cursor.rest_skip hrest
      obtain ⟨hrest', hcolumn'⟩ := skipBreak_newline hafter
      have hless : row.empty < next.length + 1 + 1 := by
        simp only [next, newlines, List.length_append, List.length_replicate]
        omega
      obtain ⟨inner, hskip, hinner, hinnerColumn⟩ : ∃ inner,
          skipIndentation n (next.length + 1 + 1) (s.cursor.skip line.length).skipBreak 0 =
            (inner, 0 + row.empty) ∧ inner.rest = ch :: (others ++ left) ∧ inner.column = n :=
        skipIndentation_row hcolumn' hrest' hch hless
      have hinner' : inner.rest = row.line ++ left := by rw [hinner, hcons, List.cons_append]
      have hmarker' : n = 0 → isMarker row.line = false ∧ ∀ row ∈ rows, isMarker row.line = false :=
        fun hn => List.forall_mem_cons.1 (hmarker hn).2
      have hbreak : ∀ ch ∈ ('\n' :: next).head?, isBreak ch = true := by simp [isBreak]
      rw [lines_succ hcolumn hrest hline (fun hn => (hmarker hn).1) hbreak,
        if_neg (List.cons_ne_nil _ _), List.length_cons, hskip]
      let between : State := ⟨inner, s.text ++ (newlines (s.lineBreak.toNat + s.emptyLines) ++ line),
        true, 0 + row.empty, s.cursor.nextIs isSpace⟩
      obtain ⟨htext, htail'⟩ :=
        ih (s := between) hinnerColumn hinner' hrow hrows hmarker' (Nat.lt_of_succ_lt_succ hfuel)
      refine ⟨htext.trans ?_, htail'⟩
      simp [between, Row.text, Nat.add_comm 1]

/-! The whole block. -/

def chomping (ended : Bool) : Chomping := if ended then .clip else .strip

theorem header_mark {start : Nat} {ended : Bool} {rest : List Char}
    (hrest : c.rest = mark ended ++ '\n' :: rest) :
    ∃ after, header start c = .ok (⟨chomping ended, 0⟩, after) ∧ after.rest = '\n' :: rest := by
  obtain ⟨text, index, line, column, onlyBlanks⟩ := c
  obtain rfl : text = mark ended ++ '\n' :: rest := hrest
  cases ended <;> exact ⟨_, rfl, rfl⟩

theorem scan_first {parent : Int} {ended : Bool} {k m : Nat} {ch : Char} {rest : List Char}
    (hrest : c.rest = '|' :: (mark ended ++ (newlines (k + 1) ++ (margin m ++ ch :: rest))))
    (hspace : ch ≠ ' ') (hbreak : isBreak ch = false) (htab : k = 0 → m = 0 → ch ≠ '\t')
    (hparent : parent < m) :
    ∃ body : Cursor, body.rest = ch :: rest ∧ body.column = m ∧
      let s := lines true m (c.rest.length + 1) { cursor := body, emptyLines := k }
      let value := String.ofList (s.text ++ tail (chomping ended) m s)
      scan true parent c = .ok (⟨.scalar .literal value, body.index, s.cursor.index⟩, s.cursor) := by
  have hbar : c.rest = ['|'] ++ (mark ended ++ '\n' :: (newlines k ++ (margin m ++ ch :: rest))) :=
    hrest
  have hinside : (c.advance 1).rest = _ := Cursor.rest_advance hbar
  obtain ⟨head, hhead, hheadRest⟩ : ∃ head, header c.index (c.advance 1) =
      .ok (⟨chomping ended, 0⟩, head) ∧ head.rest = _ := header_mark hinside
  obtain ⟨blanks, hblanks, hcursor⟩ : ∃ blanks, head.skipBlanks true = .ok blanks ∧
      blanks.cursor = head.skip ([] : List Char).length :=
    Cursor.skipBlanks_run hheadRest (by simp) (by simp [isSpace]) (by simp)
  have hline : blanks.cursor.rest = '\n' :: (newlines k ++ (margin m ++ ch :: rest)) := by
    rw [hcursor]
    exact hheadRest
  have hend : blanks.cursor.endOr isBreak = true := by
    simp [Cursor.endOr, Cursor.peek, hline, isBreak]
  obtain ⟨hfirst, hcolumn⟩ := skipBreak_newline hline
  -- a tab right behind the header is refused, and only the first line can begin with one
  have hnoTab : blanks.cursor.skipBreak.peek ≠ some '\t' := by
    rw [Cursor.peek, hfirst]
    rcases k with _ | k
    · rcases m with _ | m
      · simpa [newlines, margin] using htab rfl rfl
      · simp [newlines, margin, List.replicate_succ]
    · simp [newlines, List.replicate_succ]
  have hfuel : k < c.rest.length + 1 := by
    rw [hrest]
    simp only [List.length_cons, List.length_append, newlines, List.length_replicate]
    omega
  obtain ⟨body, hbody, hbodyRest, hbodyColumn⟩ : ∃ body,
      skipFirstIndentation (c.rest.length + 1) blanks.cursor.skipBreak 0 0 =
        (body, 0 + k, max 0 m) ∧ body.rest = ch :: rest ∧ body.column = m :=
    skipFirstIndentation_row hcolumn hfirst hspace hbreak hfuel
  -- the indentation is that of the first row, which is inside the parent
  have hindent : (if parent > 0 then max (max m (parent + 1).toNat) 1
      else max m (parent + 1).toNat) = m := by
    split <;> omega
  have hbodyEnd : body.atEnd = false := by simp [Cursor.atEnd, hbodyRest]
  refine ⟨body, hbodyRest, hbodyColumn, ?_⟩
  unfold scan
  simp only [hhead, hblanks, hend, hnoTab, hbody, hindent, hbodyEnd, hbodyColumn, bind, Except.bind,
    Nat.lt_irrefl, Nat.zero_max, Nat.zero_add, gt_iff_lt, Bool.not_true, Bool.false_eq_true,
    if_false, if_true]
  rfl

theorem IsLine.exists_margin {line : List Char} (h : IsLine line) :
    ∃ j ch others, line = margin j ++ ch :: others ∧ ch ≠ ' ' ∧ IsLine (ch :: others) := by
  induction line with
  | nil => exact absurd rfl h.nonempty
  | cons first rest ih =>
      have hlast := h.noSpaceEnd
      by_cases hfirst : first = ' '
      · subst hfirst
        have hrest : rest ≠ [] := by
          rintro rfl
          exact hlast rfl
        obtain ⟨second, tail, rfl⟩ := List.exists_cons_of_ne_nil hrest
        rw [List.getLast?_cons_cons] at hlast
        obtain ⟨j, ch, others, heq, hline⟩ :=
          ih ⟨hrest, (List.forall_mem_cons.1 h.inLine).2, hlast⟩
        exact ⟨j + 1, ch, others, by rw [heq]; rfl, hline⟩
      · exact ⟨0, first, rest, rfl, hfirst, h⟩

theorem mem_tail {chomping : Chomping} {s : State} {ch : Char} (h : ch ∈ tail chomping n s) :
    ch = '\n' := by
  unfold tail at h
  cases chomping with
  | clip => exact List.eq_of_mem_replicate h
  | strip => cases h
  | keep => exact List.eq_of_mem_replicate h

theorem tail_chomping {ended : Bool} {s : State} (h : tail .clip n s = newlines 1) :
    tail (chomping ended) n s = ending ended := by
  cases ended with
  | true => exact h
  | false => rfl

end RuleTidy.Yaml.Block
