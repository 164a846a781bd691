import RuleTidy.Proofs.Yaml.Cursor
import RuleTidy.Yaml.Token.Plain
import RuleTidy.Yaml.Token.Quoted

/-! What may stand behind a scalar. -/

namespace RuleTidy.Yaml

variable {flow : Bool} {indent : Int} {rest : List Char}

/-- What may follow a scalar: the end of the text, a comment, in brackets an indicator that ends an
item, and outside of them a line that is indented less. -/
inductive ScalarEnds (flow : Bool) (indent : Int) : List Char → Prop where
  | blank {rest : List Char} (hblanks : ∀ c ∈ rest, isSpaceOrBreak c = true) :
      ScalarEnds flow indent rest
  | comment {blanks tail : List Char} (hne : blanks ≠ [])
      (hblanks : ∀ c ∈ blanks, isSpace c = true) : ScalarEnds flow indent (blanks ++ '#' :: tail)
  | indicator {blanks tail : List Char} {c : Char} (hflow : flow = true)
      (hblanks : ∀ d ∈ blanks, isSpace d = true) (hc : c = ',' ∨ c = ']' ∨ c = '\x7d') :
      ScalarEnds flow indent (blanks ++ c :: tail)
  | dedent {blanks margin tail : List Char} {b c : Char} (hflow : flow = false)
      (hblanks : ∀ d ∈ blanks, isSpaceOrBreak d = true) (hb : isBreak b = true)
      (hmargin : ∀ d ∈ margin, d = ' ') (hc : isSpaceOrBreak c = false)
      (hless : (margin.length : Int) < indent) :
      ScalarEnds flow indent (blanks ++ b :: margin ++ c :: tail)

namespace Plain

theorem not_isContent_of_isSpaceOrBreak {c : Char} {rest : List Char}
    (h : isSpaceOrBreak c = true) : isContent flow c rest = false := by
  have hcolon : c ≠ ':' := by
    rintro rfl
    exact absurd h (by decide)
  simp [isContent, hcolon, h]

theorem word_of_blank {c : Char} {rest : List Char} (h : isSpaceOrBreak c = true) :
    word flow (c :: rest) = [] := by
  have hcontent : isContent flow c rest = false := not_isContent_of_isSpaceOrBreak h
  simp [word, hcontent]

theorem word_of_ends (h : ScalarEnds flow indent rest) : word flow rest = [] := by
  cases h with
  | blank hblanks =>
      cases rest with
      | nil => rfl
      | cons c tail => exact word_of_blank (hblanks c List.mem_cons_self)
  | @comment blanks tail hne hblanks =>
      obtain ⟨b, others, rfl⟩ := List.exists_cons_of_ne_nil hne
      exact word_of_blank (isSpaceOrBreak_of_isSpace (hblanks b List.mem_cons_self))
  | @indicator blanks tail c hflow hblanks hc =>
      cases blanks with
      | nil =>
          subst hflow
          rcases hc with rfl | rfl | rfl <;> rfl
      | cons b others =>
          exact word_of_blank (isSpaceOrBreak_of_isSpace (hblanks b List.mem_cons_self))
  | @dedent blanks margin tail b c hflow hblanks hb hmargin hc hless =>
      cases blanks with
      | nil => exact word_of_blank (isSpaceOrBreak_of_isBreak hb)
      | cons d others => exact word_of_blank (hblanks d List.mem_cons_self)

end Plain

namespace Quoted

theorem head?_of_ends (h : ScalarEnds flow indent rest) : rest.head? ≠ some '\'' := by
  intro hquote
  obtain ⟨others, rfl⟩ := List.head?_eq_some_iff.1 hquote
  have hword : Plain.word flow ('\'' :: others) = [] := Plain.word_of_ends h
  have hcontent : Plain.isContent flow '\'' others = true := by cases flow <;> rfl
  rw [Plain.word, hcontent] at hword
  cases hword

theorem mayFollow_of_isBreak {found : Option Char} {sameLine : Bool}
    (h : ∀ ch ∈ found, isBreak ch = true) : mayFollow flow sameLine found = true := by
  cases found with
  | none => rfl
  | some ch => simp [mayFollow, h ch rfl]

theorem skipBlanks_of_break {c : Cursor} {run tail : List Char} (hrest : c.rest = run ++ tail)
    (hrun : ∀ d ∈ run, isSpace d = true) (htail : ∀ d ∈ tail.head?, isBreak d = true) :
    ∃ found, c.skipBlanks true = .ok found ∧ found.cursor = c.skip run.length ∧
      ∀ sameLine, mayFollow flow sameLine found.cursor.peek = true := by
  have hhash : tail.head? ≠ some '#' := by
    intro hhash
    cases htail '#' hhash
  obtain ⟨found, hfound, hcursor⟩ :=
    Cursor.skipBlanks_run hrest hrun (fun d hd => isSpace_of_isBreak (htail d hd)) hhash
  refine ⟨found, hfound, hcursor, fun sameLine => mayFollow_of_isBreak ?_⟩
  rwa [hcursor, Cursor.peek, Cursor.rest_skip hrest]

theorem skipBlanks_of_ends {c : Cursor} (h : ScalarEnds flow indent c.rest) :
    ∃ found, c.skipBlanks true = .ok found ∧
      ∀ sameLine, mayFollow flow sameLine found.cursor.peek = true := by
  generalize hrest : c.rest = rest at h
  cases h with
  | blank hblanks =>
      obtain ⟨run, others, rfl, hrun, hothers⟩ := exists_run hblanks
      obtain ⟨found, hfound, -, hfollow⟩ := skipBlanks_of_break hrest hrun hothers
      exact ⟨found, hfound, hfollow⟩
  | @comment blanks tail hne hblanks =>
      obtain ⟨found, hfound, hbreak⟩ := Cursor.skipBlanks_comment hrest hne hblanks
      exact ⟨found, hfound, fun sameLine => mayFollow_of_isBreak hbreak⟩
  | @indicator blanks tail ch hflow hblanks hch =>
      have hspace : ∀ d ∈ (ch :: tail).head?, isSpace d = false := by
        rcases hch with rfl | rfl | rfl <;> simp [isSpace]
      have hhash : (ch :: tail).head? ≠ some '#' := by rcases hch with rfl | rfl | rfl <;> simp
      obtain ⟨found, hfound, hcursor⟩ := Cursor.skipBlanks_run hrest hblanks hspace hhash
      refine ⟨found, hfound, fun sameLine => ?_⟩
      rw [hcursor, Cursor.peek, Cursor.rest_skip hrest, hflow]
      rcases hch with rfl | rfl | rfl <;> simp [mayFollow]
  | @dedent blanks margin tail b ch hflow hblanks hb hmargin hch hless =>
      obtain ⟨run, others, rfl, hrun, hothers⟩ := exists_run hblanks
      have hsplit : c.rest = run ++ (others ++ b :: (margin ++ ch :: tail)) := by simp [hrest]
      have hnext : ∀ d ∈ (others ++ b :: (margin ++ ch :: tail)).head?, isBreak d = true := by
        cases others with
        | nil => simpa using hb
        | cons d others => exact hothers
      obtain ⟨found, hfound, -, hfollow⟩ := skipBlanks_of_break hsplit hrun hnext
      exact ⟨found, hfound, hfollow⟩

end Quoted

end RuleTidy.Yaml
