import RuleTidy.Proofs.Chain
import RuleTidy.Proofs.Yaml.Cursor
import RuleTidy.Yaml.Token.Plain
import RuleTidy.Yaml.Token.Quoted
import Mathlib.Data.Nat.Init

/-! What is read between the words of a scalar. -/

namespace RuleTidy.Yaml

theorem Gap.read_blanks {read : Nat → Cursor → Gap → Except SyntaxFailure (Cursor × Gap)}
    (hblank : ∀ fuel c text ch rest, c.rest = ch :: rest → isSpace ch = true →
      read (fuel + 1) c (.blanks text) = read fuel (c.skip 1) (.blanks (text ++ [ch])))
    (hstop : ∀ fuel c g, (∀ ch ∈ c.rest.head?, isSpaceOrBreak ch = false) →
      read fuel c g = .ok (c, g))
    {fuel : Nat} {c : Cursor} {text blanks tail : List Char}
    (hrest : c.rest = blanks ++ tail) (hcontent : c.onlyBlanks = false)
    (hblanks : ∀ ch ∈ blanks, isSpace ch = true)
    (htail : ∀ ch ∈ tail.head?, isSpaceOrBreak ch = false) (hfuel : blanks.length ≤ fuel) :
    read fuel c (.blanks text) = .ok (c.advance blanks.length, .blanks (text ++ blanks)) := by
  induction blanks generalizing c text fuel with
  | nil =>
      have hrest' : c.rest = tail := hrest
      rw [hstop fuel c _ (hrest' ▸ htail), List.length_nil, Cursor.advance_zero hcontent,
        List.append_nil]
  | cons ch blanks ih =>
      obtain ⟨fuel, rfl⟩ := Nat.exists_eq_succ_of_ne_zero (Nat.ne_of_gt (Nat.zero_lt_of_lt hfuel))
      obtain ⟨hch, hblanks⟩ := List.forall_mem_cons.1 hblanks
      have hrest' : c.rest = [ch] ++ (blanks ++ tail) := hrest
      have hnext : (c.advance 1).rest = blanks ++ tail := Cursor.rest_advance hrest'
      rw [hblank fuel c text ch _ hrest' hch, Cursor.skip_eq_advance hcontent,
        ih hnext rfl hblanks (by simpa using hfuel), Cursor.advance_advance, List.length_cons,
        Nat.add_comm 1, List.append_assoc, List.singleton_append]

namespace Quoted

variable {indent : Int}

theorem gap_stop (fuel : Nat) (c : Cursor) (g : Gap)
    (h : ∀ ch ∈ c.rest.head?, isSpaceOrBreak ch = false) : gap indent fuel c g = .ok (c, g) := by
  cases fuel with
  | zero => rfl
  | succ fuel =>
      cases hrest : c.rest with
      | nil => simp [gap, Cursor.peek, hrest]
      | cons ch rest =>
          have hch : isSpaceOrBreak ch = false := h ch (by simp [hrest])
          rw [isSpaceOrBreak, Bool.or_eq_false_iff] at hch
          simp [gap, Cursor.peek, hrest, hch.1, hch.2]

theorem gap_blanks {fuel : Nat} {c : Cursor} {text blanks tail : List Char}
    (hrest : c.rest = blanks ++ tail) (hcontent : c.onlyBlanks = false)
    (hblanks : ∀ ch ∈ blanks, isSpace ch = true)
    (htail : ∀ ch ∈ tail.head?, isSpaceOrBreak ch = false) (hfuel : blanks.length ≤ fuel) :
    gap indent fuel c (.blanks text) =
      .ok (c.advance blanks.length, .blanks (text ++ blanks)) := by
  refine Gap.read_blanks ?_ gap_stop hrest hcontent hblanks htail hfuel
  intro fuel c text ch rest hrest hch
  simp [gap, Cursor.peek, hrest, hch, Gap.hasBreak, Gap.addBlank]

end Quoted

namespace Plain

variable {indent : Int} {start : Nat}

theorem gap_stop (fuel : Nat) (c : Cursor) (g : Gap)
    (h : ∀ ch ∈ c.rest.head?, isSpaceOrBreak ch = false) :
    gap indent start fuel c g = .ok (c, g) := by
  cases fuel with
  | zero => rfl
  | succ fuel =>
      cases hrest : c.rest with
      | nil => simp [gap, Cursor.peek, hrest]
      | cons ch rest =>
          have hch : isSpaceOrBreak ch = false := h ch (by simp [hrest])
          rw [isSpaceOrBreak, Bool.or_eq_false_iff] at hch
          simp [gap, Cursor.peek, hrest, hch.1, hch.2]

theorem gap_blanks {fuel : Nat} {c : Cursor} {text blanks tail : List Char}
    (hrest : c.rest = blanks ++ tail) (hcontent : c.onlyBlanks = false)
    (hblanks : ∀ ch ∈ blanks, isSpace ch = true)
    (htail : ∀ ch ∈ tail.head?, isSpaceOrBreak ch = false) (hfuel : blanks.length ≤ fuel) :
    gap indent start fuel c (.blanks text) =
      .ok (c.advance blanks.length, .blanks (text ++ blanks)) := by
  refine Gap.read_blanks ?_ gap_stop hrest hcontent hblanks htail hfuel
  intro fuel c text ch rest hrest hch
  simp [gap, Cursor.peek, hrest, hch, Gap.hasBreak, Gap.addBlank]

theorem gap_breaks {fuel : Nat} {c : Cursor} {g : Gap} {blanks tail : List Char}
    (hrest : c.rest = blanks ++ tail) (hblanks : ∀ ch ∈ blanks, isSpaceOrBreak ch = true)
    (htail : ∀ ch ∈ tail.head?, isSpaceOrBreak ch = false)
    (htab : tail = [] ∨ ∀ post, '\t' :: post <:+ blanks → ∃ b ∈ post, isBreak b = true)
    (hfuel : blanks.length ≤ fuel) :
    ∃ after g', gap indent start fuel c g = .ok (after, g') ∧ after.rest = tail ∧
      after.column = columnBehind c.column blanks := by
  induction fuel generalizing c g blanks with
  | zero =>
      obtain rfl : blanks = [] := List.eq_nil_of_length_eq_zero (Nat.le_zero.1 hfuel)
      exact ⟨c, g, rfl, hrest, rfl⟩
  | succ fuel ih =>
      cases blanks with
      | nil =>
          have hrest' : c.rest = tail := hrest
          exact ⟨c, g, gap_stop _ c g (hrest' ▸ htail), hrest, rfl⟩
      | cons ch blanks =>
          have hrest' : c.rest = ch :: (blanks ++ tail) := hrest
          obtain ⟨hch, hothers⟩ := List.forall_mem_cons.1 hblanks
          -- each step leaves an end of the blanks, and the column that follows from it
          have hnext : ∀ {c' : Cursor} {g' : Gap} {others : List Char}, others <:+ blanks →
              c'.rest = others ++ tail →
              columnBehind c.column (ch :: blanks) = columnBehind c'.column others →
              ∃ after g'', gap indent start fuel c' g' = .ok (after, g'') ∧ after.rest = tail ∧
                after.column = columnBehind c.column (ch :: blanks) := by
            intro c' g' others hsuffix hbehind hcolumn
            rw [hcolumn]
            refine ih hbehind (fun d hd => hothers d (hsuffix.mem hd)) ?_ ?_
            · refine htab.imp_right fun h post hpost => h post ?_
              exact (hpost.trans hsuffix).trans (List.suffix_cons ch blanks)
            · exact Nat.le_trans hsuffix.length_le (Nat.le_of_succ_le_succ hfuel)
          unfold gap
          simp only [Cursor.peek, hrest', List.head?_cons]
          by_cases hspace : isSpace ch = true
          · have hskip : (c.skip 1).rest = blanks ++ tail := by simp [Cursor.skip, hrest']
            have hcolumn : columnBehind c.column (ch :: blanks) = columnBehind (c.column + 1) blanks :=
              columnBehind_cons_of_isSpace blanks hspace
            simp only [hspace, if_true]
            split
            · exact hnext (List.suffix_refl _) hskip hcolumn
            split
            case isTrue htabHere =>
                obtain ⟨rfl, -⟩ : ch = '\t' ∧ (c.column : Int) < indent := by simpa using htabHere
                have hline := htab.imp_right fun h => h blanks (List.suffix_refl _)
                obtain ⟨found, others, hfound, hend, hsuffix, hbehind, hcolumn⟩ :=
                  exists_skipBlanks hrest' hspace hothers hline
                rw [hfound]
                simp only [bind, Except.bind, hend, if_true]
                exact hnext hsuffix hbehind hcolumn
            case isFalse => exact hnext (List.suffix_refl _) hskip hcolumn
          · have hbreak : isBreak ch = true := by simpa [isSpaceOrBreak, hspace] using hch
            obtain ⟨others, hsuffix, hbehind, hcolumn⟩ := exists_skipBreak hrest' hbreak htail
            simp only [hspace, hbreak, if_true, if_false, Bool.false_eq_true]
            exact hnext hsuffix hbehind hcolumn

theorem exists_isBreak_of_suffix {blanks margin post : List Char} {b : Char}
    (hb : isBreak b = true) (hmargin : ∀ d ∈ margin, d = ' ')
    (h : '\t' :: post <:+ blanks ++ b :: margin) : ∃ d ∈ post, isBreak d = true := by
  have htab : '\t' ≠ b := by
    rintro rfl
    cases hb
  rcases List.suffix_or_suffix_of_suffix h (List.suffix_append blanks (b :: margin)) with hin | hout
  · rcases List.mem_cons.1 (hin.mem List.mem_cons_self) with heq | hmem
    · exact absurd heq htab
    · exact absurd (hmargin _ hmem) (by decide)
  · rcases List.suffix_cons_iff.1 hout with heq | hsuffix
    · exact absurd (List.cons.inj heq).1.symm htab
    · exact ⟨b, hsuffix.mem List.mem_cons_self, hb⟩

/-- A gap that has met blanks and line breaks only. -/
def IsBlankGap : Gap → Prop
  | .blanks text => ∀ c ∈ text, isSpace c = true
  | _ => True

theorem IsBlankGap.isSpaceOrBreak {g : Gap} (h : IsBlankGap g) :
    ∀ c ∈ g.text, isSpaceOrBreak c = true := by
  intro c hc
  cases g with
  | blanks text =>
      rw [Yaml.isSpaceOrBreak, h c hc, Bool.true_or]
  | breaks n =>
      rcases n with _ | _ | n
      · simp [Gap.text] at hc
      · obtain rfl : c = ' ' := by simpa [Gap.text] using hc
        rfl
      · obtain rfl := List.eq_of_mem_replicate hc
        rfl
  | escaped n =>
      obtain rfl := List.eq_of_mem_replicate hc
      rfl

theorem IsBlankGap.addBlank {g : Gap} {c : Char} (h : IsBlankGap g) (hc : isSpace c = true) :
    IsBlankGap (g.addBlank c) := by
  cases g with
  | blanks text =>
      intro d hd
      rcases List.mem_append.1 hd with hd | hd
      · exact h d hd
      · obtain rfl := List.mem_singleton.1 hd
        exact hc
  | breaks n => trivial
  | escaped n => trivial

theorem isBlankGap_addBreak (g : Gap) : IsBlankGap g.addBreak := by
  cases g <;> trivial

theorem isBlankGap_gap {fuel : Nat} {c after : Cursor} {g g' : Gap} (hg : IsBlankGap g)
    (h : gap indent start fuel c g = .ok (after, g')) : IsBlankGap g' := by
  induction fuel generalizing c g with
  | zero =>
      obtain ⟨rfl, rfl⟩ := Prod.mk.inj (Except.ok.inj h)
      exact hg
  | succ fuel ih =>
      unfold gap at h
      split at h
      · obtain ⟨rfl, rfl⟩ := Prod.mk.inj (Except.ok.inj h)
        exact hg
      · rename_i ch hch
        split at h
        case isTrue hspace =>
            split at h
            · exact ih (hg.addBlank hspace) h
            · split at h
              · obtain ⟨blanks, -, h⟩ := bind_eq_ok.1 h
                split at h
                · exact ih hg h
                · cases h
              · exact ih hg h
        case isFalse =>
            split at h
            · exact ih (isBlankGap_addBreak g) h
            · obtain ⟨rfl, rfl⟩ := Prod.mk.inj (Except.ok.inj h)
              exact hg

end Plain

end RuleTidy.Yaml
