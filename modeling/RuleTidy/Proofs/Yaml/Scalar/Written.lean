import RuleTidy.Proofs.Yaml.Token.Plain

/-! Strings are read back as they are written, but for those without quotes: brackets, and a dash
before one, cut them. -/

namespace RuleTidy.Yaml

open Text

variable {flow : Bool} {indent : Int} {c : Cursor} {value rest : List Char}

namespace Written

theorem render_inline {style : ScalarStyle} {text : List Char}
    (h : style ≠ .literal ∧ style ≠ .folded) (indent : List Char) :
    render style text indent = render style text [] := by
  cases style with
  | literal => exact absurd rfl h.1
  | folded => exact absurd rfl h.2
  | plain | singleQuoted | doubleQuoted => rfl

theorem hasPair_append {a b : Char} (pre post : List Char) :
    hasPair a b (pre ++ a :: b :: post) = true := by
  induction pre with
  | nil => simp [hasPair]
  | cons d pre ih =>
      obtain ⟨e, others, hcons⟩ : ∃ e others, pre ++ a :: b :: post = e :: others := by
        cases pre with
        | nil => exact ⟨a, b :: post, rfl⟩
        | cons e pre => exact ⟨e, pre ++ a :: b :: post, rfl⟩
      rw [List.cons_append, hcons, hasPair, ← hcons, ih, Bool.or_true]

theorem ne_of_not_hasPair {a b : Char} {text : List Char} (h : hasPair a b text = false)
    (pre post : List Char) : text ≠ pre ++ a :: b :: post := by
  rintro rfl
  rw [hasPair_append] at h
  cases h

theorem ne_of_not_contains {c d : Char} {text : List Char} (h : text.contains d = false)
    (hc : c ∈ text) : c ≠ d := by
  rintro rfl
  rw [List.contains_iff_mem.2 hc] at h
  cases h

theorem head?_of_trim {text : List Char} (h : trim text = text) :
    ∀ c ∈ text.head?, isBlank c = false := by
  intro c hc
  obtain ⟨blanks, hsplit, -⟩ := trimEnd_append_blanks (trimStart text)
  have htrim : trimEnd (trimStart text) = text := h
  have hhead : c ∈ (trimStart text).head? := by
    rw [hsplit, htrim, List.head?_append, Option.mem_def.1 hc]
    rfl
  exact head?_dropWhile isBlank text c hhead

theorem getLast?_of_trim {text : List Char} (h : trim text = text) :
    ∀ c ∈ text.getLast?, isBlank c = false := by
  intro c hc
  rw [← h, trim, trimEnd, List.getLast?_reverse] at hc
  exact head?_dropWhile isBlank _ c hc

theorem begins_of_isPlainSafe (hsafe : isPlainSafe value = true)
    (hflow : flow = true → ∀ ch ∈ value, isFlow ch = false) : Plain.Begins flow value := by
  cases value with
  | nil => cases hsafe
  | cons first others =>
      simp only [isPlainSafe, Bool.and_eq_true, decide_eq_true_eq, Bool.not_eq_true',
        Bool.or_eq_false_iff, and_assoc] at hsafe
      obtain ⟨hfirst, htrim, hfeed, hreturn, htab, hcolon, hhash, hcolonEnd, -⟩ := hsafe
      exact
        { inLine := by
            intro c hc
            simp [isBreak, ne_of_not_contains hfeed hc, ne_of_not_contains hreturn hc,
              ne_of_not_contains htab hc]
          noFlow := hflow
          colon := ne_of_not_hasPair hcolon
          hash := ne_of_not_hasPair hhash
          colonEnd := by
            rintro pre heq
            rw [heq, List.getLast?_concat] at hcolonEnd
            exact hcolonEnd rfl
          blankEnd := by
            rintro pre heq
            have hblank := getLast?_of_trim htrim ' ' (by rw [heq, List.getLast?_concat]; rfl)
            cases hblank
          nonempty := List.cons_ne_nil first others
          noBlank := by
            intro hhead
            have hblank := head?_of_trim htrim ' ' hhead
            cases hblank
          noHash := by
            intro hhead
            obtain rfl := Option.some.inj hhead
            exact hfirst (by decide) }

end Written

namespace Plain

theorem scan_eq_ok {token : Token} {after : Cursor} (h : scan flow indent c = .ok (token, after)) :
    ∃ s, words flow indent c.index (c.rest.length + 1) { cursor := c, stop := c.index } = .ok s ∧
      token.kind = .scalar .plain (String.ofList s.text) := by
  unfold scan at h
  split at h
  · cases h
  obtain ⟨s, hwords, h⟩ := bind_eq_ok.1 h
  split at h
  · cases h
  obtain ⟨rfl, -⟩ := Prod.mk.inj (Except.ok.inj h)
  exact ⟨s, hwords, rfl⟩

/-- Nothing cuts a string that is written without quotes: it is no document marker, and in brackets
it has none of their indicators, nor a dash before one. -/
def Intact (flow : Bool) (c : Cursor) (value rest : List Char) : Prop :=
  ¬(c.onlyBlanks && c.atDocumentMarker) = true ∧
    (flow = true → ∀ ch ∈ value, isFlow ch = false) ∧ ¬EndsDash flow value rest

theorem scan_isPlainSafe (hsafe : Written.isPlainSafe value = true) (hrest : c.rest = value ++ rest)
    (hends : ScalarEnds flow indent rest) (hcolumn : indent ≤ c.column) :
    (∃ token after, scan flow indent c = .ok (token, after) ∧
        token.kind = .scalar .plain (String.ofList value)) ↔ Intact flow c value rest := by
  let first : State := { cursor := c, stop := c.index }
  have hnonempty : value ≠ [] := by
    rintro rfl
    cases hsafe
  have hfuel : value.length < c.rest.length + 1 := by
    rw [hrest, List.length_append]
    omega
  have hread : first.cursor.rest = value ++ rest := hrest
  constructor
  · rintro ⟨token, after, hscan, hkind⟩
    obtain ⟨s, hwords, htoken⟩ := scan_eq_ok hscan
    have htext : s.text = value := by
      rw [htoken] at hkind
      exact String.ofList_inj.1 (TokenKind.scalar.inj hkind).2
    -- at a document marker no word is read at all
    have hmarker : ¬(c.onlyBlanks && c.atDocumentMarker) = true := by
      intro hmarker
      have hstop : words flow indent c.index (c.rest.length + 1) first = .ok first := by
        rw [words_succ, if_pos (Bool.or_eq_true_iff.2 (.inl hmarker))]
      obtain rfl : first = s := Except.ok.inj (hstop.symm.trans hwords)
      exact hnonempty htext.symm
    have hflow : flow = true → ∀ ch ∈ value, isFlow ch = false := by
      rintro rfl
      have hnone : IsBlankGap first.gap := by simp [IsBlankGap, Gap.none, first]
      have hempty : ∀ ch ∈ first.text, isFlow ch = false := by simp [first]
      rw [← htext]
      exact words_not_flow hempty hnone hwords
    refine ⟨hmarker, hflow, fun hdash => ?_⟩
    -- safe strings begin a plain scalar, and no gap in them goes to another line
    have hbegins : Begins flow value := Written.begins_of_isPlainSafe hsafe hflow
    obtain ⟨failure, hfails⟩ :=
      (words_of_begins hread hbegins hends hmarker hcolumn hfuel).1 hdash
    cases hfails.symm.trans hwords
  · rintro ⟨hmarker, hflow, hdash⟩
    have hbegins : Begins flow value := Written.begins_of_isPlainSafe hsafe hflow
    obtain ⟨s, hwords, htext⟩ :=
      (words_of_begins hread hbegins hends hmarker hcolumn hfuel).2 hdash
    have hvalue : s.text = value := htext
    have hcol : ¬(flow && decide ((c.column : Int) < indent)) = true := by
      simp
      omega
    refine ⟨⟨.scalar .plain (String.ofList s.text), c.index, s.stop⟩, s.cursor, ?_, by rw [hvalue]⟩
    unfold scan
    rw [if_neg hcol, hwords]
    simp only [bind, Except.bind, hvalue, List.isEmpty_iff, hnonempty, if_false, pure, Except.pure]

end Plain

namespace Quoted

theorem scan_of_ends {single : Bool} {least : Int} (hholds : Holds single value)
    (hrest : c.rest = written single value ++ rest) (hends : ScalarEnds flow least rest)
    (hcolumn : indent ≤ c.column + 1) :
    ∃ token after, scan single flow indent c = .ok (token, after) ∧
      token.kind = .scalar (style single) (String.ofList value) := by
  have hbehind : (c.advance (written single value).length).rest = rest := Cursor.rest_advance hrest
  obtain ⟨blanks, hblanks, hfollow⟩ := skipBlanks_of_ends (hbehind ▸ hends)
  have htail : single = true → rest.head? ≠ some '\'' := fun _ => head?_of_ends hends
  exact ⟨_, _, scan_written hrest hcolumn hholds htail hblanks (hfollow _), rfl⟩

end Quoted

/-- What a reader makes of a string that was written in a style, with `rest` behind it. In quotes it
is read as itself; without them, if nothing cuts it. -/
def ReadsAs (style : ScalarStyle) (value rest : List Char) (flow : Bool) (indent : Int)
    (c : Cursor) : Prop :=
  if style = .plain ∧ Written.isPlainSafe value = true then
    (∃ token after, Plain.scan flow indent c = .ok (token, after) ∧
      token.kind = .scalar .plain (String.ofList value)) ↔ Plain.Intact flow c value rest
  else
    ∃ single, ∀ least ≤ (c.column : Int) + 1, ∃ token after,
      Quoted.scan single flow least c = .ok (token, after) ∧
        token.kind = .scalar (Quoted.style single) (String.ofList value)

theorem readsAs_plain (hsafe : Written.isPlainSafe value = true) :
    ReadsAs .plain value rest flow indent c ↔
      ((∃ token after, Plain.scan flow indent c = .ok (token, after) ∧
        token.kind = .scalar .plain (String.ofList value)) ↔ Plain.Intact flow c value rest) := by
  rw [ReadsAs, if_pos ⟨rfl, hsafe⟩]

theorem readsAs_render {style : ScalarStyle} {margin : List Char}
    (hstyle : style ≠ .literal ∧ style ≠ .folded)
    (hrest : c.rest = Written.render style value margin ++ rest)
    (hends : ScalarEnds flow indent rest) (hcolumn : indent ≤ c.column) :
    ReadsAs style value rest flow indent c := by
  have hdouble : c.rest = Written.doubleQuoted value ++ rest →
      ∃ single, ∀ least ≤ (c.column : Int) + 1, ∃ token after,
        Quoted.scan single flow least c = .ok (token, after) ∧
          token.kind = .scalar (Quoted.style single) (String.ofList value) := by
    intro hrest
    refine ⟨false, fun least hleast => ?_⟩
    have hholds : Quoted.Holds false value := fun hsingle => by cases hsingle
    rw [← Quoted.written_double] at hrest
    exact Quoted.scan_of_ends hholds hrest hends hleast
  unfold ReadsAs
  split
  case isTrue hplain =>
      obtain ⟨rfl, hsafe⟩ := hplain
      rw [Written.render, if_pos hsafe] at hrest
      exact Plain.scan_isPlainSafe hsafe hrest hends hcolumn
  case isFalse hplain =>
      cases style with
      | plain =>
          have hsafe : ¬Written.isPlainSafe value = true := fun hsafe => hplain ⟨rfl, hsafe⟩
          rw [Written.render, if_neg hsafe] at hrest
          exact hdouble hrest
      | singleQuoted =>
          by_cases hbreaks : (value.contains '\n' || value.contains '\r') = true
          · rw [Written.render, if_pos hbreaks] at hrest
            exact hdouble hrest
          · rw [Written.render, if_neg hbreaks] at hrest
            rw [← Quoted.written_single] at hrest
            refine ⟨true, fun least hleast => ?_⟩
            have hholds : Quoted.Holds true value := by
              rintro - ch hch
              rw [Bool.or_eq_true, not_or, Bool.not_eq_true, Bool.not_eq_true] at hbreaks
              simp [isBreak, Written.ne_of_not_contains hbreaks.1 hch,
                Written.ne_of_not_contains hbreaks.2 hch]
            exact Quoted.scan_of_ends hholds hrest hends hleast
      | doubleQuoted => exact hdouble hrest
      | literal => exact absurd rfl hstyle.1
      | folded => exact absurd rfl hstyle.2

end RuleTidy.Yaml
