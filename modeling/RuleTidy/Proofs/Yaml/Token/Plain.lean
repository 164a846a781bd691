import RuleTidy.Proofs.Yaml.Token.Gap
import RuleTidy.Proofs.Yaml.Token.ScalarEnds
import RuleTidy.Proofs.Yaml.Token.Quoted

/-! Which strings that are written without quotes are read as themselves. -/

namespace RuleTidy.Yaml.Plain

variable {flow : Bool} {indent : Int} {start : Nat}

theorem isContent_not_flow {c : Char} {rest : List Char} (h : isContent true c rest = true) :
    isFlow c = false := by
  unfold isContent at h
  split at h
  case isTrue hcolon =>
      subst hcolon
      rfl
  case isFalse => simpa using (Bool.and_eq_true_iff.1 h).2

theorem word_not_flow (text : List Char) : ∀ c ∈ word true text, isFlow c = false := by
  induction text with
  | nil => simp [word]
  | cons c rest ih =>
      unfold word
      split
      case isTrue hcontent =>
          exact List.forall_mem_cons.2 ⟨isContent_not_flow hcontent, ih⟩
      case isFalse => simp

def afterWord (flow : Bool) (s : State) : State :=
  let next := word flow s.cursor.rest
  if next.isEmpty then s
  else
    let after := s.cursor.advance next.length
    ⟨after, s.text ++ s.gap.text ++ next, after.index, .none⟩

def further (flow : Bool) (indent : Int) (start fuel : Nat) (s : State) :
    Except SyntaxFailure State :=
  if !s.cursor.nextIs isSpaceOrBreak then .ok s
  else
    gap indent start s.cursor.rest.length s.cursor .none >>= fun found =>
      if !flow && (found.1.column : Int) < indent then
        .ok { s with cursor := found.1, gap := found.2 }
      else words flow indent start fuel { s with cursor := found.1, gap := found.2 }

theorem words_succ (fuel : Nat) (s : State) :
    words flow indent start (fuel + 1) s =
      if (s.cursor.onlyBlanks && s.cursor.atDocumentMarker) || s.cursor.peek = some '#' then .ok s
      else if flow && s.cursor.peek = some '-' && (s.cursor.peekAt 1).any isFlow then
        s.cursor.fail .plainDash
      else further flow indent start fuel (afterWord flow s) := rfl

theorem words_not_flow {fuel : Nat} {s after : State} (htext : ∀ c ∈ s.text, isFlow c = false)
    (hgap : IsBlankGap s.gap) (h : words true indent start fuel s = .ok after) :
    ∀ c ∈ after.text, isFlow c = false := by
  induction fuel generalizing s with
  | zero =>
      obtain rfl := Except.ok.inj h
      exact htext
  | succ fuel ih =>
      rw [words_succ] at h
      split at h
      · obtain rfl := Except.ok.inj h
        exact htext
      split at h
      · cases h
      have hword : ∀ c ∈ (afterWord true s).text, isFlow c = false := by
        unfold afterWord
        dsimp only
        split
        · exact htext
        · intro c hc
          rcases List.mem_append.1 hc with hc | hc
          · rcases List.mem_append.1 hc with hc | hc
            · exact htext c hc
            · exact isFlow_of_isSpaceOrBreak (hgap.isSpaceOrBreak c hc)
          · exact word_not_flow _ c hc
      unfold further at h
      split at h
      · obtain rfl := Except.ok.inj h
        exact hword
      · obtain ⟨⟨behind, g⟩, hbehind, h⟩ := bind_eq_ok.1 h
        have hnone : IsBlankGap .none := by simp [IsBlankGap, Gap.none]
        have hblank : IsBlankGap g := isBlankGap_gap hnone hbehind
        split at h
        · obtain rfl := Except.ok.inj h
          exact hword
        · exact ih (s := { afterWord true s with cursor := behind, gap := g }) hword hblank h

/-- A string from one of its words on, when nothing in it ends a plain scalar. -/
structure Fits (flow : Bool) (value : List Char) : Prop where
  inLine : ∀ c ∈ value, isBreak c = false ∧ c ≠ '\t'
  noFlow : flow = true → ∀ c ∈ value, isFlow c = false
  colon : ∀ pre post, value ≠ pre ++ ':' :: ' ' :: post
  hash : ∀ pre post, value ≠ pre ++ ' ' :: '#' :: post
  colonEnd : ∀ pre, value ≠ pre ++ [':']
  blankEnd : ∀ pre, value ≠ pre ++ [' ']

theorem Fits.suffix {pre value : List Char} (h : Fits flow (pre ++ value)) : Fits flow value where
  inLine c hc := h.inLine c (List.mem_append_right pre hc)
  noFlow hflow c hc := h.noFlow hflow c (List.mem_append_right pre hc)
  colon front post heq := h.colon (pre ++ front) post (by rw [heq, List.append_assoc])
  hash front post heq := h.hash (pre ++ front) post (by rw [heq, List.append_assoc])
  colonEnd front heq := h.colonEnd (pre ++ front) (by rw [heq, List.append_assoc])
  blankEnd front heq := h.blankEnd (pre ++ front) (by rw [heq, List.append_assoc])

theorem word_append {run tail : List Char}
    (hrun : ∀ c ∈ run, isSpaceOrBreak c = false ∧ (flow = true → isFlow c = false))
    (hcolon : ∀ pre post, run = pre ++ ':' :: post → ∃ d, (post ++ tail).head? = some d ∧
      isSpaceOrBreak d = false ∧ (flow = true → isFlow d = false))
    (htail : word flow tail = []) : word flow (run ++ tail) = run := by
  induction run with
  | nil => exact htail
  | cons c run ih =>
      obtain ⟨⟨hblank, hflow⟩, hrun⟩ := List.forall_mem_cons.1 hrun
      have hcontent : isContent flow c (run ++ tail) = true := by
        by_cases hc : c = ':'
        · subst hc
          obtain ⟨d, hd, hdblank, hdflow⟩ := hcolon [] run rfl
          cases flow with
          | false => simp [isContent, hd, hdblank]
          | true => simp [isContent, hd, hdblank, hdflow rfl]
        · cases flow with
          | false => simp [isContent, hc, hblank]
          | true => simp [isContent, hc, hblank, hflow rfl]
      rw [List.cons_append, word, if_pos hcontent, ih hrun fun pre post heq =>
        hcolon (c :: pre) post (by rw [heq, List.cons_append])]

/-- In brackets, the last word is a dash, and an indicator of flow collections is behind it. -/
def EndsDash (flow : Bool) (value rest : List Char) : Prop :=
  flow = true ∧ value.getLast? = some '-' ∧ value.dropLast.getLast?.all (· = ' ') = true ∧
    rest.head?.any isFlow = true

def StopsAt (flow : Bool) (next : Option Char) : Prop :=
  ∀ c ∈ next, c = '#' ∨ flow = true ∧ (c = ',' ∨ c = ']' ∨ c = '\x7d')

theorem words_of_stopsAt {fuel : Nat} {s : State} (h : StopsAt flow s.cursor.peek) :
    words flow indent start fuel s = .ok s := by
  cases fuel with
  | zero => rfl
  | succ fuel =>
      cases hrest : s.cursor.rest with
      | nil =>
          simp [words_succ, Cursor.peek, hrest, afterWord, word, further, Cursor.nextIs,
            Cursor.atDocumentMarker, Cursor.atMarker]
      | cons c rest =>
          have hpeek : s.cursor.peek = some c := by
            rw [Cursor.peek, hrest]
            rfl
          rw [words_succ]
          split
          · rfl
          · rename_i hstart
            rcases h c hpeek with rfl | ⟨rfl, hc⟩
            · simp [hpeek] at hstart
            · have hdash : c ≠ '-' := by rcases hc with rfl | rfl | rfl <;> decide
              have hword : word true (c :: rest) = [] := by rcases hc with rfl | rfl | rfl <;> rfl
              have hnext : isSpaceOrBreak c = false := by rcases hc with rfl | rfl | rfl <;> rfl
              simp [hpeek, hdash, afterWord, hrest, hword, further, Cursor.nextIs, hnext]

theorem gap_of_ends {c : Cursor} (h : ScalarEnds flow indent c.rest)
    (hcontent : c.onlyBlanks = false) :
    ∃ after g, gap indent start c.rest.length c .none = .ok (after, g) ∧
      (StopsAt flow after.peek ∨ flow = false ∧ (after.column : Int) < indent) := by
  generalize hrest : c.rest = rest at h
  cases h with
  | blank hblanks =>
      have hall : c.rest = rest ++ [] := by rw [hrest, List.append_nil]
      obtain ⟨after, g, hgap, hnone, -⟩ :
          ∃ after g, gap indent start rest.length c .none = .ok (after, g) ∧ after.rest = [] ∧
            after.column = columnBehind c.column rest :=
        gap_breaks hall hblanks (by simp) (.inl rfl) (Nat.le_refl _)
      exact ⟨after, g, hgap, .inl (by simp [StopsAt, Cursor.peek, hnone])⟩
  | @comment blanks tail hne hblanks =>
      have hfuel : blanks.length ≤ (blanks ++ '#' :: tail).length := by simp
      have hstart : ∀ ch ∈ ('#' :: tail).head?, isSpaceOrBreak ch = false := by
        simp [isSpaceOrBreak, isSpace, isBreak]
      refine ⟨_, _, gap_blanks hrest hcontent hblanks hstart hfuel, .inl ?_⟩
      simp [StopsAt, Cursor.peek, Cursor.rest_advance hrest]
  | @indicator blanks tail ch hflow hblanks hch =>
      have hfuel : blanks.length ≤ (blanks ++ ch :: tail).length := by simp
      have hstart : ∀ d ∈ (ch :: tail).head?, isSpaceOrBreak d = false := by
        rcases hch with rfl | rfl | rfl <;> simp [isSpaceOrBreak, isSpace, isBreak]
      refine ⟨_, _, gap_blanks hrest hcontent hblanks hstart hfuel, .inl ?_⟩
      simp [StopsAt, Cursor.peek, Cursor.rest_advance hrest, hflow, hch]
  | @dedent blanks margin tail b ch hflow hblanks hb hmargin hch hless =>
      have hspaces : ∀ d ∈ margin, isSpace d = true := by
        intro d hd
        obtain rfl := hmargin d hd
        rfl
      have hall : ∀ d ∈ blanks ++ b :: margin, isSpaceOrBreak d = true := by
        refine List.forall_mem_append.2 ⟨hblanks, List.forall_mem_cons.2 ⟨?_, fun d hd => ?_⟩⟩
        · exact isSpaceOrBreak_of_isBreak hb
        · exact isSpaceOrBreak_of_isSpace (hspaces d hd)
      -- the margin is made of spaces, so no tab is met where content would be indented
      have htab : ∀ post, '\t' :: post <:+ blanks ++ b :: margin → ∃ d ∈ post, isBreak d = true :=
        fun post hpost => exists_isBreak_of_suffix hb hmargin hpost
      obtain ⟨after, g, hgap, -, hcolumn⟩ :
          ∃ after g, gap indent start (blanks ++ b :: margin ++ ch :: tail).length c .none =
            .ok (after, g) ∧ after.rest = ch :: tail ∧
              after.column = columnBehind c.column (blanks ++ b :: margin) :=
        gap_breaks hrest hall (by simpa using hch) (.inr htab) (by simp)
      rw [columnBehind_of_isBreak hb hspaces] at hcolumn
      exact ⟨after, g, hgap, .inr ⟨hflow, by rwa [hcolumn]⟩⟩

theorem further_of_gap {fuel : Nat} {s : State} {after : Cursor} {g : Gap}
    (hnext : s.cursor.nextIs isSpaceOrBreak = true)
    (hgap : gap indent start s.cursor.rest.length s.cursor .none = .ok (after, g)) :
    further flow indent start fuel s =
      if !flow && (after.column : Int) < indent then .ok { s with cursor := after, gap := g }
      else words flow indent start fuel { s with cursor := after, gap := g } := by
  simp only [further, hnext, hgap, bind, Except.bind, Bool.not_true, Bool.false_eq_true, if_false]

theorem further_of_ends {fuel : Nat} {s : State} (h : ScalarEnds flow indent s.cursor.rest)
    (hcontent : s.cursor.onlyBlanks = false) :
    ∃ after, further flow indent start fuel s = .ok after ∧ after.text = s.text := by
  cases hnext : s.cursor.nextIs isSpaceOrBreak with
  | false => exact ⟨s, by simp [further, hnext], rfl⟩
  | true =>
      obtain ⟨after, g, hgap, hstop⟩ := gap_of_ends h hcontent
      refine ⟨{ s with cursor := after, gap := g }, ?_, rfl⟩
      rw [further_of_gap hnext hgap]
      rcases hstop with hstop | ⟨rfl, hless⟩
      · split
        · rfl
        · exact words_of_stopsAt hstop
      · simp [hless]

theorem word_of_fits {run blanks value rest : List Char}
    (hfits : Fits flow (run ++ (blanks ++ value))) (hrun : ∀ c ∈ run, c ≠ ' ')
    (hblanks : ∀ c ∈ blanks, c = ' ') (hlast : blanks = [] → value = [])
    (hends : ScalarEnds flow indent rest) :
    word flow (run ++ (blanks ++ value ++ rest)) = run := by
  apply word_append
  · intro c hc
    have hmem : c ∈ run ++ (blanks ++ value) := List.mem_append_left _ hc
    obtain ⟨hbreak, htab⟩ := hfits.inLine c hmem
    refine ⟨?_, fun hflow => hfits.noFlow hflow c hmem⟩
    simp [isSpaceOrBreak, isSpace, hbreak, htab, hrun c hc]
  · rintro pre post rfl
    cases post with
    | cons d post =>
        have hmem : d ∈ pre ++ ':' :: d :: post ++ (blanks ++ value) := by simp
        obtain ⟨hbreak, htab⟩ := hfits.inLine d hmem
        have hspace : d ≠ ' ' := hrun d (by simp)
        refine ⟨d, rfl, ?_, fun hflow => hfits.noFlow hflow d hmem⟩
        simp [isSpaceOrBreak, isSpace, hbreak, htab, hspace]
    | nil =>
        cases blanks with
        | nil =>
            obtain rfl := hlast rfl
            exact absurd (by simp) (hfits.colonEnd pre)
        | cons b blanks =>
            obtain rfl := hblanks b List.mem_cons_self
            exact absurd (by simp) (hfits.colon pre (blanks ++ value))
  · cases blanks with
    | nil =>
        obtain rfl := hlast rfl
        exact word_of_ends hends
    | cons b blanks =>
        obtain rfl := hblanks b List.mem_cons_self
        have hcontent : isContent flow ' ' (blanks ++ value ++ rest) = false :=
          not_isContent_of_isSpaceOrBreak rfl
        rw [List.cons_append, List.cons_append, word, hcontent]
        rfl

theorem endsDash_append {pre value rest : List Char} (hpre : pre.getLast? = some ' ')
    (hvalue : value ≠ []) : EndsDash flow (pre ++ value) rest ↔ EndsDash flow value rest := by
  have hlast : (pre ++ value).getLast? = value.getLast? := by
    rw [List.getLast?_append, List.getLast?_eq_some_getLast hvalue]
    rfl
  have hbefore : (pre ++ value).dropLast.getLast?.all (· = ' ') =
      value.dropLast.getLast?.all (· = ' ') := by
    rw [List.dropLast_append_of_ne_nil hvalue, List.getLast?_append, hpre]
    cases value.dropLast.getLast? <;> rfl
  rw [EndsDash, EndsDash, hlast, hbefore]

theorem endsDash_word {run rest : List Char} (hrun : ∀ c ∈ run, c ≠ ' ')
    (h : EndsDash flow run rest) : run = ['-'] := by
  obtain ⟨-, hlast, hbefore, -⟩ := h
  obtain ⟨front, rfl⟩ := List.getLast?_eq_some_iff.1 hlast
  rw [List.dropLast_concat] at hbefore
  cases hfront : front.getLast? with
  | none => rw [List.getLast?_eq_none_iff.1 hfront, List.nil_append]
  | some c =>
      have hspace : c = ' ' := by simpa [hfront] using hbefore
      have hmem : c ∈ front := List.mem_of_getLast? hfront
      exact absurd hspace (hrun c (List.mem_append_left _ hmem))

theorem dash_iff {c : Cursor} {value rest : List Char} (hrest : c.rest = value ++ rest)
    (hvalue : value ≠ []) (hfits : Fits flow value) :
    (flow && c.peek = some '-' && (c.peekAt 1).any isFlow) = true ↔
      flow = true ∧ value = ['-'] ∧ rest.head?.any isFlow = true := by
  obtain ⟨first, value, rfl⟩ := List.exists_cons_of_ne_nil hvalue
  have hpeek : c.peek = some first := by rw [Cursor.peek, hrest]; rfl
  have hnext : c.peekAt 1 = (value ++ rest).head? := by
    rw [Cursor.peekAt, hrest, List.head?_eq_getElem?]
    rfl
  simp only [Bool.and_eq_true, decide_eq_true_eq, hpeek, hnext, Option.some.injEq, and_assoc]
  constructor
  · rintro ⟨hflow, rfl, hindicator⟩
    cases value with
    | nil => exact ⟨hflow, rfl, hindicator⟩
    | cons d value =>
        have hd : isFlow d = false := hfits.noFlow hflow d (by simp)
        have hany : isFlow d = true := hindicator
        rw [hd] at hany
        cases hany
  · rintro ⟨hflow, heq, hindicator⟩
    obtain ⟨rfl, rfl⟩ := List.cons.inj heq
    exact ⟨hflow, rfl, hindicator⟩

theorem further_of_blanks {fuel : Nat} {s : State} {blanks behind : List Char}
    (hrest : s.cursor.rest = blanks ++ behind) (hne : blanks ≠ [])
    (hblanks : ∀ c ∈ blanks, c = ' ') (hbehind : ∀ c ∈ behind.head?, isSpaceOrBreak c = false)
    (hcontent : s.cursor.onlyBlanks = false) (hcolumn : indent ≤ s.cursor.column) :
    further flow indent start fuel s =
      words flow indent start fuel
        { s with cursor := s.cursor.advance blanks.length, gap := .blanks blanks } := by
  obtain ⟨b, others, rfl⟩ := List.exists_cons_of_ne_nil hne
  have hspaces : ∀ c ∈ b :: others, isSpace c = true := by
    intro c hc
    obtain rfl := hblanks c hc
    rfl
  have hnext : s.cursor.nextIs isSpaceOrBreak = true := by
    obtain rfl := hblanks b List.mem_cons_self
    rw [Cursor.nextIs, Cursor.peek, hrest]
    rfl
  have hgap : gap indent start s.cursor.rest.length s.cursor .none =
      .ok (s.cursor.advance (b :: others).length, .blanks ([] ++ b :: others)) := by
    refine gap_blanks hrest hcontent hspaces hbehind ?_
    rw [hrest, List.length_append]
    exact Nat.le_add_right _ _
  have hfar : ¬((s.cursor.advance (b :: others).length).column : Int) < indent := by
    rw [Cursor.column_advance]
    omega
  rw [further_of_gap hnext hgap, List.nil_append, decide_eq_false hfar, Bool.and_false]
  rfl

/-- A string that a plain scalar may begin with. -/
structure Begins (flow : Bool) (value : List Char) : Prop extends Fits flow value where
  nonempty : value ≠ []
  noBlank : value.head? ≠ some ' '
  noHash : value.head? ≠ some '#'

theorem Begins.head?_append {value rest : List Char} (h : Begins flow value) :
    ∀ c ∈ (value ++ rest).head?, isSpaceOrBreak c = false := by
  intro c hc
  obtain ⟨first, others, rfl⟩ := List.exists_cons_of_ne_nil h.nonempty
  obtain rfl : first = c := Option.some.inj hc
  obtain ⟨hbreak, htab⟩ := h.inLine first List.mem_cons_self
  have hspace : first ≠ ' ' := fun hfirst => h.noBlank (hfirst ▸ rfl)
  simp [isSpaceOrBreak, isSpace, hbreak, htab, hspace]

theorem Begins.split {value : List Char} (h : Begins flow value) :
    ∃ run blanks behind, value = run ++ (blanks ++ behind) ∧ run ≠ [] ∧ (∀ c ∈ run, c ≠ ' ') ∧
      (∀ c ∈ blanks, c = ' ') ∧ (blanks = [] ∧ behind = [] ∨
        blanks ≠ [] ∧ (run ++ blanks).getLast? = some ' ' ∧ Begins flow behind) := by
  obtain ⟨run, blanks, behind, rfl, hrun, hblanks, hhead, hlast⟩ :=
    Quoted.exists_word_blanks false value
  have hrun : ∀ c ∈ run, c ≠ ' ' := fun c hc => by simpa [Quoted.isRaw] using hrun c hc
  have hblanks : ∀ c ∈ blanks, c = ' ' := fun c hc => by simpa [Quoted.isRaw] using hblanks c hc
  have hne : run ≠ [] := by
    rintro rfl
    cases blanks with
    | nil => exact h.nonempty (hlast rfl)
    | cons b blanks =>
        obtain rfl := hblanks b List.mem_cons_self
        exact h.noBlank rfl
  refine ⟨run, blanks, behind, rfl, hne, hrun, hblanks, ?_⟩
  rcases List.eq_nil_or_concat blanks with rfl | ⟨front, b, hfront⟩
  · exact .inl ⟨rfl, hlast rfl⟩
  · rw [List.concat_eq_append] at hfront
    obtain rfl : b = ' ' := hblanks b (by simp [hfront])
    have hbegins : Begins flow behind :=
      { toFits := h.toFits.suffix.suffix
        nonempty := by
          rintro rfl
          exact h.blankEnd (run ++ front) (by simp [hfront])
        noBlank := fun hblank => absurd (hhead ' ' hblank) (by decide)
        noHash := by
          intro hhash
          obtain ⟨post, rfl⟩ := List.head?_eq_some_iff.1 hhash
          exact h.hash (run ++ front) post (by simp [hfront]) }
    exact .inr ⟨by simp [hfront], by simp [hfront], hbegins⟩

theorem words_of_begins_succ {fuel : Nat} {s : State} {value rest : List Char}
    (hrest : s.cursor.rest = value ++ rest) (hvalue : Begins flow value)
    (hmarker : ¬(s.cursor.onlyBlanks && s.cursor.atDocumentMarker) = true) :
    words flow indent start (fuel + 1) s =
      if flow = true ∧ value = ['-'] ∧ rest.head?.any isFlow = true then s.cursor.fail .plainDash
      else further flow indent start fuel (afterWord flow s) := by
  have hpeek : s.cursor.peek ≠ some '#' := by
    have hhash := hvalue.noHash
    rw [List.head?_eq_some_head hvalue.nonempty] at hhash
    rwa [Cursor.peek, hrest, List.head?_append, List.head?_eq_some_head hvalue.nonempty]
  have hstart : ¬((s.cursor.onlyBlanks && s.cursor.atDocumentMarker) ||
      decide (s.cursor.peek = some '#')) = true := by
    simpa [hpeek] using hmarker
  rw [words_succ, if_neg hstart]
  simp only [dash_iff hrest hvalue.nonempty hvalue.toFits]

theorem afterWord_of_fits {s : State} {run blanks behind rest : List Char}
    (hrest : s.cursor.rest = run ++ (blanks ++ behind ++ rest)) (hne : run ≠ [])
    (hfits : Fits flow (run ++ (blanks ++ behind))) (hrun : ∀ c ∈ run, c ≠ ' ')
    (hblanks : ∀ c ∈ blanks, c = ' ') (hlast : blanks = [] → behind = [])
    (hends : ScalarEnds flow indent rest) :
    afterWord flow s = ⟨s.cursor.advance run.length, s.text ++ s.gap.text ++ run,
      s.cursor.index + run.length, .none⟩ := by
  have hword : word flow s.cursor.rest = run := by
    rw [hrest]
    exact word_of_fits hfits hrun hblanks hlast hends
  simp [afterWord, hword, hne]

theorem words_last {fuel : Nat} {s : State} {run rest : List Char}
    (hrest : s.cursor.rest = run ++ rest) (hvalue : Begins flow run) (hrun : ∀ c ∈ run, c ≠ ' ')
    (hends : ScalarEnds flow indent rest)
    (hmarker : ¬(s.cursor.onlyBlanks && s.cursor.atDocumentMarker) = true)
    (hdash : ¬(flow = true ∧ run = ['-'] ∧ rest.head?.any isFlow = true)) :
    ∃ after, words flow indent start (fuel + 1) s = .ok after ∧
      after.text = s.text ++ s.gap.text ++ run := by
  have hafter : afterWord flow s = ⟨s.cursor.advance run.length, s.text ++ s.gap.text ++ run,
      s.cursor.index + run.length, .none⟩ := by
    have hfits : Fits flow (run ++ ([] ++ [])) := by simpa using hvalue.toFits
    exact afterWord_of_fits hrest hvalue.nonempty hfits hrun (by simp) (fun _ => rfl) hends
  rw [words_of_begins_succ hrest hvalue hmarker, if_neg hdash, hafter]
  refine further_of_ends ?_ rfl
  rwa [Cursor.rest_advance hrest]

theorem words_blanks {fuel : Nat} {s : State} {run blanks behind rest : List Char}
    (hrest : s.cursor.rest = run ++ (blanks ++ behind) ++ rest)
    (hvalue : Begins flow (run ++ (blanks ++ behind))) (hne : run ≠ []) (hrun : ∀ c ∈ run, c ≠ ' ')
    (hblanks : ∀ c ∈ blanks, c = ' ') (hsome : blanks ≠ []) (hbehind : Begins flow behind)
    (hends : ScalarEnds flow indent rest)
    (hmarker : ¬(s.cursor.onlyBlanks && s.cursor.atDocumentMarker) = true)
    (hcolumn : indent ≤ s.cursor.column) :
    words flow indent start (fuel + 1) s =
      words flow indent start fuel
        ⟨(s.cursor.advance run.length).advance blanks.length, s.text ++ s.gap.text ++ run,
          s.cursor.index + run.length, .blanks blanks⟩ := by
  have hdash : ¬(flow = true ∧ run ++ (blanks ++ behind) = ['-'] ∧
      rest.head?.any isFlow = true) := by
    rintro ⟨-, hlone, -⟩
    have hlength := congrArg List.length hlone
    have hfirst : 0 < run.length := List.length_pos_iff.2 hne
    have hsecond : 0 < blanks.length := List.length_pos_iff.2 hsome
    simp only [List.length_append, List.length_singleton] at hlength
    omega
  have hsplit : s.cursor.rest = run ++ (blanks ++ behind ++ rest) := by
    rw [hrest, List.append_assoc]
  have hnext : (s.cursor.advance run.length).rest = blanks ++ (behind ++ rest) := by
    rw [Cursor.rest_advance hsplit, List.append_assoc]
  have hfar : indent ≤ (s.cursor.advance run.length).column := by
    rw [Cursor.column_advance]
    omega
  rw [words_of_begins_succ hrest hvalue hmarker, if_neg hdash,
    afterWord_of_fits hsplit hne hvalue.toFits hrun hblanks (fun h => absurd h hsome) hends]
  exact further_of_blanks hnext hsome hblanks hbehind.head?_append rfl hfar

theorem words_of_begins {fuel : Nat} {s : State} {value rest : List Char}
    (hrest : s.cursor.rest = value ++ rest) (hvalue : Begins flow value)
    (hends : ScalarEnds flow indent rest)
    (hmarker : ¬(s.cursor.onlyBlanks && s.cursor.atDocumentMarker) = true)
    (hcolumn : indent ≤ s.cursor.column) (hfuel : value.length < fuel) :
    (EndsDash flow value rest → ∃ failure, words flow indent start fuel s = .error failure) ∧
      (¬EndsDash flow value rest → ∃ after, words flow indent start fuel s = .ok after ∧
        after.text = s.text ++ s.gap.text ++ value) := by
  induction hn : value.length using Nat.strong_induction_on generalizing value s fuel with
  -- on the length of what is left: one word, and the blanks behind it
  | _ n ih =>
      obtain ⟨fuel, rfl⟩ := Nat.exists_eq_succ_of_ne_zero (Nat.ne_of_gt (Nat.zero_lt_of_lt hfuel))
      -- a lone dash before an indicator is a fault
      by_cases hdash : flow = true ∧ value = ['-'] ∧ rest.head?.any isFlow = true
      · rw [words_of_begins_succ hrest hvalue hmarker, if_pos hdash]
        obtain ⟨hflow, rfl, hindicator⟩ := hdash
        exact ⟨fun _ => ⟨_, rfl⟩, fun hnot => absurd ⟨hflow, rfl, rfl, hindicator⟩ hnot⟩
      obtain ⟨run, blanks, behind, rfl, hne, hrun, hblanks, hbehind⟩ := hvalue.split
      rcases hbehind with ⟨rfl, rfl⟩ | ⟨hsome, hspace, hbegins⟩
      · rw [List.append_nil, List.append_nil] at *
        refine ⟨fun hend => ?_, fun _ => words_last hrest hvalue hrun hends hmarker hdash⟩
        exact absurd ⟨hend.1, endsDash_word hrun hend, hend.2.2.2⟩ hdash
      · let next : State := ⟨(s.cursor.advance run.length).advance blanks.length,
          s.text ++ s.gap.text ++ run, s.cursor.index + run.length, .blanks blanks⟩
        have hread : words flow indent start (fuel + 1) s = words flow indent start fuel next :=
          words_blanks hrest hvalue hne hrun hblanks hsome hbegins hends hmarker hcolumn
        have hsplit : s.cursor.rest = run ++ (blanks ++ (behind ++ rest)) := by
          rw [hrest, List.append_assoc, List.append_assoc]
        have hnext : next.cursor.rest = behind ++ rest :=
          Cursor.rest_advance (Cursor.rest_advance hsplit)
        have hnextMarker : ¬(next.cursor.onlyBlanks && next.cursor.atDocumentMarker) = true := by
          simp [next]
        have hnextColumn : indent ≤ next.cursor.column := by
          simp only [next, Cursor.column_advance]
          omega
        have hlength : run.length + (blanks.length + behind.length) = n := by
          rw [← hn, List.length_append, List.length_append]
        have hpositive : 0 < run.length := List.length_pos_iff.2 hne
        have hnextFuel : behind.length < fuel := by omega
        rw [hread, ← List.append_assoc, endsDash_append hspace hbegins.nonempty]
        obtain ⟨hfails, hreads⟩ :=
          ih behind.length (by omega) hnext hbegins hnextMarker hnextColumn hnextFuel rfl
        refine ⟨hfails, fun hnot => ?_⟩
        obtain ⟨after, hok, htext⟩ := hreads hnot
        exact ⟨after, hok, by simp [htext, next, Gap.text]⟩

end RuleTidy.Yaml.Plain
