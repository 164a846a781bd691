import RuleTidy.Proofs.Text.Digit
import RuleTidy.Proofs.Yaml.Token.Gap
import RuleTidy.Yaml.Scalar.Written

/-! Quoted scalars are read as the strings that they were written for. -/

namespace RuleTidy.Yaml

open Text

namespace Quoted

def encode (single : Bool) (c : Char) : List Char :=
  if single then if c = '\'' then ['\'', '\''] else [c] else Written.escapeChar c

def written (single : Bool) (text : List Char) : List Char :=
  closingQuote single :: text.flatMap (encode single) ++ [closingQuote single]

theorem written_single (text : List Char) : written true text = Written.singleQuoted text := rfl

theorem written_double (text : List Char) : written false text = Written.doubleQuoted text := rfl

def Holds (single : Bool) (text : List Char) : Prop :=
  single = true → ∀ c ∈ text, isBreak c = false

def isRaw (single : Bool) (c : Char) : Bool := if single then isSpace c else c = ' '

theorem isSpace_of_isRaw {single : Bool} {c : Char} (h : isRaw single c = true) :
    isSpace c = true := by
  cases single with
  | true => exact h
  | false =>
      obtain rfl : c = ' ' := by simpa [isRaw] using h
      rfl

theorem encode_of_isRaw {single : Bool} {c : Char} (h : isRaw single c = true) :
    encode single c = [c] := by
  cases single with
  | true =>
      have hne : c ≠ '\'' := by
        rintro rfl
        exact absurd h (by decide)
      simp [encode, hne]
  | false =>
      obtain rfl : c = ' ' := by simpa [isRaw] using h
      decide

theorem toNat_lt_of_isControl {c : Char} (h : Written.isControl c = true) : c.toNat < 160 := by
  simp only [Written.isControl, Bool.or_eq_true, Bool.and_eq_true, decide_eq_true_eq] at h
  rcases h with h | h
  · exact Nat.lt_trans (UInt32.lt_iff_toNat_lt.1 h) (by decide)
  · exact UInt32.lt_iff_toNat_lt.1 h.2

theorem charOfCode?_toNat (c : Char) : charOfCode? c.toNat = some c := by
  have hvalid : c.toNat.isValidChar := c.valid
  rw [charOfCode?, dif_pos hvalid]
  rfl

theorem escape_control {c : Char} (h : Written.isControl c = true) (rest : List Char) :
    escape ('\\' :: 'u' :: (hexDigits 4 c.toNat).map Char.toUpper ++ rest) = .ok (c, 6) := by
  have hread : hexNumber? ((hexDigits 4 c.toNat).map Char.toUpper) = some c.toNat :=
    hexNumber?_hexDigits _ (by decide) (Nat.lt_trans (toNat_lt_of_isControl h) (by decide))
  have hlength : ((hexDigits 4 c.toNat).map Char.toUpper).length = 4 := by
    rw [List.length_map, length_hexDigits]
  have htake : (((hexDigits 4 c.toNat).map Char.toUpper) ++ rest).take 4 =
      (hexDigits 4 c.toNat).map Char.toUpper := List.take_left' hlength
  simp only [escape, List.cons_append, Escape.ofChar?, htake, hlength, if_true, hread,
    charOfCode?_toNat]

/-- An escape of a character: a backslash and what stands for the character after it. -/
structure IsEscape (c : Char) (written : List Char) : Prop where
  starts : ∃ selector digits, written = '\\' :: selector :: digits ∧ isBreak selector = false
  stands : ∀ rest, escape (written ++ rest) = .ok (c, written.length)

theorem isEscape_simple {c selector : Char} (hbreak : isBreak selector = false)
    (h : Escape.ofChar? selector = some (.char c)) : IsEscape c ['\\', selector] where
  starts := ⟨selector, [], rfl, hbreak⟩
  stands rest := by simp [escape, h]

theorem escapeChar_cases (c : Char) :
    (Written.escapeChar c = [c] ∧ c ≠ '\\' ∧ c ≠ '"' ∧ c ≠ '\t' ∧ isBreak c = false) ∨
      IsEscape c (Written.escapeChar c) := by
  unfold Written.escapeChar
  split
  · exact .inr (isEscape_simple rfl rfl)
  · exact .inr (isEscape_simple rfl rfl)
  · exact .inr (isEscape_simple rfl rfl)
  · exact .inr (isEscape_simple rfl rfl)
  · exact .inr (isEscape_simple rfl rfl)
  · rename_i hbackslash hquote hfeed htab hreturn
    by_cases hcontrol : Written.isControl c = true
    · rw [if_pos hcontrol]
      have hlength : ((hexDigits 4 c.toNat).map Char.toUpper).length = 4 := by
        rw [List.length_map, length_hexDigits]
      refine .inr ⟨⟨'u', _, rfl, rfl⟩, fun rest => ?_⟩
      rw [escape_control hcontrol, List.length_cons, List.length_cons, hlength]
    · rw [if_neg hcontrol]
      refine .inl ⟨rfl, hbackslash, hquote, htab, ?_⟩
      simpa [isBreak] using ⟨hfeed, hreturn⟩

def Stops (single : Bool) (rest : List Char) : Prop :=
  ∃ c tail, rest = c :: tail ∧
    (isSpaceOrBreak c = true ∨
      c = closingQuote single ∧ (single = true → tail.head? ≠ some '\''))

variable {single : Bool} {start : Nat}

theorem word_of_stops {fuel : Nat} {c : Cursor} {text : List Char} (h : Stops single c.rest) :
    word single start (fuel + 1) c text = .ok ⟨c, text, false⟩ := by
  obtain ⟨ch, tail, hrest, hblank | ⟨rfl, htail⟩⟩ := h
  · simp only [word, hrest, hblank, if_true]
  · cases single with
    | true => simp [word, hrest, closingQuote, isSpaceOrBreak, isSpace, isBreak, htail]
    | false => simp [word, hrest, closingQuote, isSpaceOrBreak, isSpace, isBreak]

theorem word_encode {fuel : Nat} {c : Cursor} {text tail : List Char} {ch : Char}
    (hrest : c.rest = encode single ch ++ tail) (hraw : isRaw single ch = false)
    (hbreak : single = true → isBreak ch = false) :
    word single start (fuel + 1) c text =
      word single start fuel (c.advance (encode single ch).length) (text ++ [ch]) := by
  cases single with
  | true =>
      have hspace : isSpaceOrBreak ch = false := by
        rw [isSpaceOrBreak, hbreak rfl, Bool.or_false]
        exact hraw
      by_cases hquote : ch = '\''
      · subst hquote
        have hrest' : c.rest = '\'' :: '\'' :: tail := hrest
        simp [word, hrest', hspace, encode]
      · have hcode : encode true ch = [ch] := by simp [encode, hquote]
        rw [hcode] at hrest
        have hrest' : c.rest = ch :: tail := hrest
        simp [word, hrest', hspace, hquote, hcode]
  | false =>
      have hspace : ch ≠ ' ' := by simpa [isRaw] using hraw
      -- what is not written as itself is written as an escape that is read back
      rcases escapeChar_cases ch with ⟨hcode, hbackslash, hquote, htab, hline⟩ | hescape
      · have hcode' : encode false ch = [ch] := hcode
        have hblank : isSpaceOrBreak ch = false := by
          simp [isSpaceOrBreak, isSpace, hline, hspace, htab]
        rw [hcode'] at hrest
        have hrest' : c.rest = ch :: tail := hrest
        simp [word, hrest', hblank, hquote, hbackslash, hcode']
      · obtain ⟨selector, digits, hcode, hline⟩ := hescape.starts
        have hstands := hescape.stands tail
        have hcode' : encode false ch = '\\' :: selector :: digits := hcode
        rw [hcode] at hstands
        rw [hcode'] at hrest ⊢
        have hrest' : c.rest = '\\' :: selector :: (digits ++ tail) := hrest
        have hread : escape c.rest = .ok (ch, ('\\' :: selector :: digits).length) := by
          rw [hrest]
          exact hstands
        have hblank : isSpaceOrBreak '\\' = false := rfl
        rw [hrest'] at hread
        simp [word, hrest', hblank, hline, hread]

theorem encode_eq_cons {ch : Char} (hraw : isRaw single ch = false)
    (hbreak : single = true → isBreak ch = false) :
    ∃ first rest, encode single ch = first :: rest ∧ isSpaceOrBreak first = false := by
  cases single with
  | true =>
      have hspace : isSpaceOrBreak ch = false := by
        rw [isSpaceOrBreak, hbreak rfl, Bool.or_false]
        exact hraw
      by_cases hquote : ch = '\''
      · exact ⟨'\'', ['\''], by simp [encode, hquote], rfl⟩
      · exact ⟨ch, [], by simp [encode, hquote], hspace⟩
  | false =>
      rcases escapeChar_cases ch with ⟨hcode, -, -, htab, hline⟩ | hescape
      · have hspace : ch ≠ ' ' := by simpa [isRaw] using hraw
        refine ⟨ch, [], hcode, ?_⟩
        simp [isSpaceOrBreak, isSpace, hline, hspace, htab]
      · obtain ⟨selector, digits, hcode, -⟩ := hescape.starts
        exact ⟨'\\', selector :: digits, hcode, rfl⟩

theorem word_written {fuel : Nat} {c : Cursor} {text tail run : List Char}
    (hrest : c.rest = run.flatMap (encode single) ++ tail) (hcontent : c.onlyBlanks = false)
    (hraw : ∀ ch ∈ run, isRaw single ch = false) (hholds : Holds single run)
    (hstops : Stops single tail) (hfuel : run.length < fuel) :
    word single start fuel c text =
      .ok ⟨c.advance (run.flatMap (encode single)).length, text ++ run, false⟩ := by
  induction run generalizing c text fuel with
  | nil =>
      obtain ⟨fuel, rfl⟩ := Nat.exists_eq_succ_of_ne_zero (Nat.ne_of_gt hfuel)
      have htail : c.rest = tail := hrest
      rw [word_of_stops (htail ▸ hstops)]
      simp [Cursor.advance_zero hcontent]
  | cons ch run ih =>
      obtain ⟨fuel, rfl⟩ := Nat.exists_eq_succ_of_ne_zero (Nat.ne_of_gt (Nat.zero_lt_of_lt hfuel))
      rw [List.flatMap_cons, List.append_assoc] at hrest
      obtain ⟨hch, hrun⟩ := List.forall_mem_cons.1 hraw
      rw [word_encode hrest hch fun hsingle => hholds hsingle ch List.mem_cons_self]
      rw [ih (Cursor.rest_advance hrest) rfl hrun
        (fun hsingle d hd => hholds hsingle d (List.mem_cons_of_mem _ hd)) (by simpa using hfuel)]
      rw [Cursor.advance_advance, List.flatMap_cons, List.length_append, List.append_assoc,
        List.singleton_append]

theorem Holds.of_subset {text part : List Char} (h : Holds single text)
    (hpart : ∀ c ∈ part, c ∈ text) : Holds single part :=
  fun hsingle c hc => h hsingle c (hpart c hc)

theorem length_le_flatMap_encode (single : Bool) (text : List Char) :
    text.length ≤ (text.flatMap (encode single)).length := by
  induction text with
  | nil => exact Nat.le_refl 0
  | cons c rest ih =>
      have hcode : 1 ≤ (encode single c).length := by
        cases single with
        | true => by_cases h : c = '\'' <;> simp [encode, h]
        | false =>
            rcases escapeChar_cases c with ⟨hcode, -⟩ | hescape
            · simp [encode, hcode]
            · obtain ⟨selector, digits, hcode, -⟩ := hescape.starts
              simp [encode, hcode]
      rw [List.flatMap_cons, List.length_append, List.length_cons]
      omega

theorem flatMap_encode_of_isRaw {text : List Char} (h : ∀ c ∈ text, isRaw single c = true) :
    text.flatMap (encode single) = text := by
  induction text with
  | nil => rfl
  | cons c rest ih =>
      obtain ⟨hc, hrest⟩ := List.forall_mem_cons.1 h
      rw [List.flatMap_cons, encode_of_isRaw hc, ih hrest, List.singleton_append]

theorem exists_word_blanks (single : Bool) (value : List Char) :
    ∃ run blanks rest, value = run ++ (blanks ++ rest) ∧ (∀ c ∈ run, isRaw single c = false) ∧
      (∀ c ∈ blanks, isRaw single c = true) ∧ (∀ c ∈ rest.head?, isRaw single c = false) ∧
      (blanks = [] → rest = []) := by
  induction value with
  | nil => exact ⟨[], [], [], rfl, by simp, by simp, by simp, fun _ => rfl⟩
  | cons c value ih =>
      obtain ⟨run, blanks, rest, rfl, hrun, hblanks, hhead, hlast⟩ := ih
      cases hc : isRaw single c with
      | false =>
          have hword : ∀ d ∈ c :: run, isRaw single d = false := List.forall_mem_cons.2 ⟨hc, hrun⟩
          exact ⟨c :: run, blanks, rest, rfl, hword, hblanks, hhead, hlast⟩
      | true =>
          cases run with
          | nil =>
              have hraw : ∀ d ∈ c :: blanks, isRaw single d = true :=
                List.forall_mem_cons.2 ⟨hc, hblanks⟩
              refine ⟨[], c :: blanks, rest, rfl, hrun, hraw, hhead, ?_⟩
              exact fun h => absurd h (List.cons_ne_nil c blanks)
          | cons d run =>
              refine ⟨[], [c], d :: run ++ (blanks ++ rest), rfl, by simp, by simpa using hc,
                ?_, ?_⟩
              · intro e he
                obtain rfl : d = e := Option.some.inj he
                exact hrun d List.mem_cons_self
              · exact fun h => absurd h (List.cons_ne_nil c [])

theorem head?_written {value tail : List Char} (hhead : ∀ c ∈ value.head?, isRaw single c = false)
    (hholds : Holds single value) :
    ∀ c ∈ (value.flatMap (encode single) ++ closingQuote single :: tail).head?,
      isSpaceOrBreak c = false := by
  intro c hc
  cases value with
  | nil =>
      obtain rfl : closingQuote single = c := Option.some.inj hc
      cases single <;> rfl
  | cons d value =>
      obtain ⟨first, others, hcode, hfirst⟩ := encode_eq_cons (hhead d rfl) fun hsingle =>
        hholds hsingle d List.mem_cons_self
      rw [List.flatMap_cons, hcode] at hc
      obtain rfl : first = c := Option.some.inj hc
      exact hfirst

section Words

variable {indent : Int} {fuel : Nat} {c : Cursor} {text run tail : List Char}

theorem words_eq (hend : c.rest ≠ []) (hcolumn : 0 < c.column) :
    words single indent start (fuel + 1) c text =
      if (c.column : Int) < indent then .error ⟨.quotedIndentation, start⟩
      else
        word single start (c.rest.length + 1) c text >>= fun w =>
          if w.cursor.peek = some (closingQuote single) then pure (w.text, w.cursor)
          else
            gap indent w.cursor.rest.length w.cursor
                (if w.escapedBreak then .escaped 0 else .none) >>=
              fun found => words single indent start fuel found.1 (w.text ++ found.2.text) := by
  have hmarker : ¬(c.column = 0 && c.atDocumentMarker) = true := by
    simp
    omega
  have hatEnd : ¬c.atEnd = true := by simp [Cursor.atEnd, hend]
  rw [words, if_neg hmarker, if_neg hatEnd]

theorem words_succ (hend : c.rest ≠ []) (hcolumn : 0 < c.column) (hindent : indent ≤ c.column) :
    words single indent start (fuel + 1) c text =
      word single start (c.rest.length + 1) c text >>= fun w =>
        if w.cursor.peek = some (closingQuote single) then pure (w.text, w.cursor)
        else
          gap indent w.cursor.rest.length w.cursor
              (if w.escapedBreak then .escaped 0 else .none) >>=
            fun found => words single indent start fuel found.1 (w.text ++ found.2.text) := by
  rw [words_eq hend hcolumn, if_neg (Int.not_lt.2 hindent)]

theorem words_last (hrest : c.rest = run.flatMap (encode single) ++ closingQuote single :: tail)
    (hcontent : c.onlyBlanks = false) (hcolumn : 0 < c.column) (hindent : indent ≤ c.column)
    (hraw : ∀ ch ∈ run, isRaw single ch = false) (hholds : Holds single run)
    (htail : single = true → tail.head? ≠ some '\'') :
    words single indent start (fuel + 1) c text =
      .ok (text ++ run, c.advance (run.flatMap (encode single)).length) := by
  have hend : c.rest ≠ [] := by simp [hrest]
  have hlength : run.length < c.rest.length + 1 := by
    have hle := length_le_flatMap_encode single run
    rw [hrest, List.length_append]
    omega
  have hstops : Stops single (closingQuote single :: tail) :=
    ⟨closingQuote single, tail, rfl, .inr ⟨rfl, htail⟩⟩
  have hword : word single start (c.rest.length + 1) c text =
      .ok ⟨c.advance (run.flatMap (encode single)).length, text ++ run, false⟩ :=
    word_written hrest hcontent hraw hholds hstops hlength
  have hquote : (c.advance (run.flatMap (encode single)).length).peek =
      some (closingQuote single) := by
    rw [Cursor.peek, Cursor.rest_advance hrest]
    rfl
  rw [words_succ hend hcolumn hindent]
  simp only [hword, bind, Except.bind, hquote, if_true, pure, Except.pure]

theorem words_blanks {blanks : List Char}
    (hrest : c.rest = run.flatMap (encode single) ++ (blanks ++ tail))
    (hcontent : c.onlyBlanks = false) (hcolumn : 0 < c.column) (hindent : indent ≤ c.column)
    (hraw : ∀ ch ∈ run, isRaw single ch = false) (hholds : Holds single run) (hne : blanks ≠ [])
    (hblanks : ∀ ch ∈ blanks, isSpace ch = true)
    (htail : ∀ ch ∈ tail.head?, isSpaceOrBreak ch = false) :
    words single indent start (fuel + 1) c text =
      words single indent start fuel
        ((c.advance (run.flatMap (encode single)).length).advance blanks.length)
        (text ++ run ++ blanks) := by
  obtain ⟨b, others, rfl⟩ := List.exists_cons_of_ne_nil hne
  have hb : isSpace b = true := hblanks b List.mem_cons_self
  have hend : c.rest ≠ [] := by simp [hrest]
  have hlength : run.length < c.rest.length + 1 := by
    have hle := length_le_flatMap_encode single run
    rw [hrest, List.length_append]
    omega
  have hstops : Stops single (b :: others ++ tail) :=
    ⟨b, others ++ tail, rfl, .inl (isSpaceOrBreak_of_isSpace hb)⟩
  have hword : word single start (c.rest.length + 1) c text =
      .ok ⟨c.advance (run.flatMap (encode single)).length, text ++ run, false⟩ :=
    word_written hrest hcontent hraw hholds hstops hlength
  have hbehind : (c.advance (run.flatMap (encode single)).length).rest = b :: others ++ tail :=
    Cursor.rest_advance hrest
  have hquote : (c.advance (run.flatMap (encode single)).length).peek ≠
      some (closingQuote single) := by
    rw [Cursor.peek, hbehind]
    intro heq
    obtain rfl := Option.some.inj heq
    cases single <;> exact absurd hb (by decide)
  have hfuel : (b :: others).length ≤
      (c.advance (run.flatMap (encode single)).length).rest.length := by
    rw [hbehind, List.length_append]
    exact Nat.le_add_right _ _
  have hgap : gap indent _ _ (.blanks []) = .ok (_, .blanks ([] ++ b :: others)) :=
    gap_blanks hbehind rfl hblanks htail hfuel
  rw [words_succ hend hcolumn hindent]
  simp only [hword, bind, Except.bind, hquote, if_false, Gap.none, hgap, Gap.text,
    List.nil_append, Bool.false_eq_true]

theorem words_written {value : List Char}
    (hrest : c.rest = value.flatMap (encode single) ++ closingQuote single :: tail)
    (hcontent : c.onlyBlanks = false) (hcolumn : 0 < c.column) (hindent : indent ≤ c.column)
    (hholds : Holds single value) (htail : single = true → tail.head? ≠ some '\'')
    (hfuel : value.length < fuel) :
    words single indent start fuel c text =
      .ok (text ++ value, c.advance (value.flatMap (encode single)).length) := by
  induction hn : value.length using Nat.strong_induction_on generalizing value c text fuel with
  -- on the length of what is left: a word, and the blanks behind it if there are any
  | _ n ih =>
      obtain ⟨fuel, rfl⟩ := Nat.exists_eq_succ_of_ne_zero (Nat.ne_of_gt (Nat.zero_lt_of_lt hfuel))
      obtain ⟨run, blanks, rest, rfl, hrun, hblanks, hhead, hlast⟩ :=
        exists_word_blanks single value
      have hholdsRun : Holds single run := hholds.of_subset fun ch hch => List.mem_append_left _ hch
      by_cases hnone : blanks = []
      · subst hnone
        obtain rfl := hlast rfl
        rw [List.append_nil, List.append_nil] at hrest ⊢
        exact words_last hrest hcontent hcolumn hindent hrun hholdsRun htail
      · rw [List.flatMap_append, List.flatMap_append, flatMap_encode_of_isRaw hblanks,
          List.append_assoc, List.append_assoc] at hrest
        have hholdsRest : Holds single rest := hholds.of_subset fun ch hch => by simp [hch]
        have hspaces : ∀ ch ∈ blanks, isSpace ch = true :=
          fun ch hch => isSpace_of_isRaw (hblanks ch hch)
        have hlength : run.length + (blanks.length + rest.length) = n := by
          rw [← hn, List.length_append, List.length_append]
        have hpositive : 0 < blanks.length := List.length_pos_iff.2 hnone
        have hfuelRest : rest.length < fuel := by omega
        let behind := (c.advance (run.flatMap (encode single)).length).advance blanks.length
        have hbehind : behind.rest = rest.flatMap (encode single) ++ closingQuote single :: tail :=
          Cursor.rest_advance (Cursor.rest_advance hrest)
        have hcolumnBehind : c.column ≤ behind.column :=
          Nat.le_trans (Nat.le_add_right _ _) (Nat.le_add_right _ _)
        rw [words_blanks hrest hcontent hcolumn hindent hrun hholdsRun hnone hspaces
          (head?_written hhead hholdsRest)]
        rw [ih rest.length (by omega) hbehind rfl (by omega) (by omega) hholdsRest hfuelRest rfl]
        rw [List.flatMap_append, List.flatMap_append, flatMap_encode_of_isRaw hblanks,
          List.length_append, List.length_append]
        simp only [behind, Cursor.advance_advance, List.append_assoc, Nat.add_assoc]

end Words

def style (single : Bool) : ScalarStyle := if single then .singleQuoted else .doubleQuoted

/-- A string in quotes is read back, if something may follow it that does. -/
theorem scan_written {flow : Bool} {indent : Int} {c : Cursor} {text tail : List Char}
    {blanks : Cursor.Blanks} (hrest : c.rest = written single text ++ tail)
    (hindent : indent ≤ c.column + 1) (hholds : Holds single text)
    (htail : single = true → tail.head? ≠ some '\'')
    (hblanks : (c.advance (written single text).length).skipBlanks true = .ok blanks)
    (hfollow : mayFollow flow (c.line = blanks.cursor.line) blanks.cursor.peek = true) :
    scan single flow indent c =
      .ok (⟨.scalar (style single) (String.ofList text), c.index, blanks.cursor.index⟩,
        blanks.cursor) := by
  have hopen : c.rest = [closingQuote single] ++
      (text.flatMap (encode single) ++ closingQuote single :: tail) := by
    rw [hrest, written]
    simp
  have hinside : (c.advance 1).rest = text.flatMap (encode single) ++ closingQuote single :: tail :=
    Cursor.rest_advance hopen
  have hfuel : text.length < c.rest.length + 1 := by
    have hle := length_le_flatMap_encode single text
    rw [hopen, List.length_append, List.length_append]
    omega
  have hwords : words single indent c.index (c.rest.length + 1) (c.advance 1) [] =
      .ok ([] ++ text, (c.advance 1).advance (text.flatMap (encode single)).length) :=
    words_written hinside rfl (Nat.succ_pos _) (by simpa using hindent) hholds htail hfuel
  have hlength : (written single text).length = 1 + (text.flatMap (encode single)).length + 1 := by
    simp [written]
    omega
  rw [hlength, ← Cursor.advance_advance, ← Cursor.advance_advance] at hblanks
  simp only [scan, hwords, hblanks, hfollow, bind, Except.bind, if_true, List.nil_append, pure,
    Except.pure, style]

end Quoted

end RuleTidy.Yaml
