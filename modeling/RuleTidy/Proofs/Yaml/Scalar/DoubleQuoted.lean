import RuleTidy.Proofs.Yaml.Token.Quoted
import RuleTidy.Proofs.Yaml.Token.ScalarEnds
import RuleTidy.Yaml.Token.Scanner

/-! Double quotes hold every string. What is written shows no control character, and a quote or a
backslash only as part of an escape, so that the first quote that a reader takes for the closing one
is the last. -/

namespace RuleTidy.Yaml

open Text

namespace Written

section Characters

/-- A character that stands for itself between double quotes. -/
structure IsPlain (c : Char) : Prop where
  notQuote : c ≠ '"'
  notBackslash : c ≠ '\\'
  notControl : isControl c = false

instance (c : Char) : Decidable (IsPlain c) :=
  decidable_of_iff (c ≠ '"' ∧ c ≠ '\\' ∧ isControl c = false)
    ⟨fun ⟨hquote, hbackslash, hcontrol⟩ => ⟨hquote, hbackslash, hcontrol⟩,
      fun h => ⟨h.notQuote, h.notBackslash, h.notControl⟩⟩

theorem isPlain_hexDigits (width n : Nat) :
    ∀ c ∈ (hexDigits width n).map Char.toUpper, IsPlain c := by
  rw [List.forall_mem_map]
  exact forall_mem_hexDigits (by decide) width n

theorem escapeChar_form (c : Char) :
    (escapeChar c = [c] ∧ IsPlain c) ∨
      ∃ selector digits, escapeChar c = '\\' :: selector :: digits ∧
        isControl selector = false ∧ ∀ d ∈ digits, IsPlain d := by
  unfold escapeChar
  split
  · exact .inr ⟨'\\', [], rfl, rfl, by simp⟩
  · exact .inr ⟨'"', [], rfl, rfl, by simp⟩
  · exact .inr ⟨'n', [], rfl, rfl, by simp⟩
  · exact .inr ⟨'t', [], rfl, rfl, by simp⟩
  · exact .inr ⟨'r', [], rfl, rfl, by simp⟩
  · rename_i hbackslash hquote _ _ _
    cases hcontrol : isControl c with
    | true => exact .inr ⟨'u', _, rfl, rfl, isPlain_hexDigits 4 c.toNat⟩
    | false => exact .inl ⟨rfl, hquote, hbackslash, hcontrol⟩

theorem isControl_of_mem_escapeChar {c d : Char} (h : d ∈ escapeChar c) : isControl d = false := by
  obtain ⟨hcode, hplain⟩ | ⟨selector, digits, hcode, hselector, hdigits⟩ := escapeChar_form c
  · rw [hcode, List.mem_singleton] at h
    rw [h]
    exact hplain.notControl
  · rw [hcode, List.mem_cons, List.mem_cons] at h
    rcases h with rfl | rfl | h
    · rfl
    · exact hselector
    · exact (hdigits d h).notControl

theorem isControl_of_mem_doubleQuoted {text : List Char} {c : Char} (h : c ∈ doubleQuoted text) :
    isControl c = false := by
  rw [doubleQuoted, List.mem_append, List.mem_cons, List.mem_flatMap, List.mem_singleton] at h
  rcases h with (rfl | ⟨d, -, hd⟩) | rfl
  · rfl
  · exact isControl_of_mem_escapeChar hd
  · rfl

end Characters

section Unescaped

/-- The characters of a text that no backslash escapes. A backslash escapes the character after it,
and both are left out. -/
def unescaped : List Char → List Char
  | '\\' :: _ :: rest => unescaped rest
  | c :: rest => c :: unescaped rest
  | [] => []

theorem unescaped_cons {c : Char} (h : c ≠ '\\') (rest : List Char) :
    unescaped (c :: rest) = c :: unescaped rest := by
  cases rest <;> simp [unescaped, h]

theorem unescaped_append {run : List Char} (h : ∀ c ∈ run, c ≠ '\\') (rest : List Char) :
    unescaped (run ++ rest) = run ++ unescaped rest := by
  induction run with
  | nil => rfl
  | cons c run ih =>
      obtain ⟨hc, hrun⟩ := List.forall_mem_cons.1 h
      rw [List.cons_append, unescaped_cons hc, ih hrun, List.cons_append]

theorem unescaped_escapeChar (c : Char) (rest : List Char) :
    ∃ run, (∀ d ∈ run, IsPlain d) ∧ unescaped (escapeChar c ++ rest) = run ++ unescaped rest := by
  obtain ⟨hcode, hplain⟩ | ⟨selector, digits, hcode, -, hdigits⟩ := escapeChar_form c
  · refine ⟨[c], by simpa using hplain, ?_⟩
    rw [hcode, List.singleton_append, unescaped_cons hplain.notBackslash, List.singleton_append]
  · refine ⟨digits, hdigits, ?_⟩
    rw [hcode]
    exact unescaped_append (fun d hd => (hdigits d hd).notBackslash) rest

theorem isPlain_of_mem_unescaped (text : List Char) :
    ∀ c ∈ unescaped (text.flatMap escapeChar), IsPlain c := by
  induction text with
  | nil => simp [unescaped]
  | cons c text ih =>
      intro d hd
      obtain ⟨run, hrun, hread⟩ := unescaped_escapeChar c (text.flatMap escapeChar)
      rw [List.flatMap_cons, hread, List.mem_append] at hd
      cases hd with
      | inl hd => exact hrun d hd
      | inr hd => exact ih d hd

end Unescaped

end Written

namespace Quoted

variable {flow : Bool} {indent : Int} {c : Cursor} {text rest : List Char}

theorem scan_dedent {single : Bool} (hrest : c.rest = closingQuote single :: rest)
    (hne : rest ≠ []) (hindent : c.column + 1 < indent) :
    scan single flow indent c = .error ⟨.quotedIndentation, c.index⟩ := by
  have hopen : c.rest = [closingQuote single] ++ rest := hrest
  have hinside : (c.advance 1).rest ≠ [] := by
    rw [show (c.advance 1).rest = rest from Cursor.rest_advance hopen]
    exact hne
  have hleft : ((c.advance 1).column : Int) < indent := by simpa using hindent
  have hwords : words single indent c.index (c.rest.length + 1) (c.advance 1) [] =
      .error ⟨.quotedIndentation, c.index⟩ := by
    rw [words_eq hinside (by simp), if_pos hleft]
  simp only [scan, hwords, bind, Except.bind]

def readBack (text : List Char) (c : Cursor) : Token × Cursor :=
  let after := c.advance (Written.doubleQuoted text).length
  (⟨.scalar .doubleQuoted (.ofList text), c.index, after.index⟩, after)

theorem scan_doubleQuoted (hrest : c.rest = Written.doubleQuoted text ++ rest)
    (hends : ∀ ch ∈ rest.head?, isBreak ch = true) :
    scan false flow indent c =
      if indent ≤ c.column + 1 then .ok (readBack text c)
      else .error ⟨.quotedIndentation, c.index⟩ := by
  split
  case isTrue hindent =>
      have hnever : ¬false = true := Bool.false_ne_true
      have hbehind : (c.advance (written false text).length).rest = [] ++ rest :=
        Cursor.rest_advance hrest
      obtain ⟨blanks, hblanks, hcursor, hfollow⟩ := skipBlanks_of_break hbehind (by simp) hends
      rw [scan_written hrest hindent (absurd · hnever) (absurd · hnever) hblanks (hfollow _),
        hcursor]
      rfl
  case isFalse hindent =>
      have hquote : c.rest = '"' :: (text.flatMap Written.escapeChar ++ '"' :: rest) := by
        simp [hrest, Written.doubleQuoted]
      exact scan_dedent hquote (by simp) (by omega)

end Quoted

namespace Scanner

variable {s : Scanner}

theorem levels_closeLevels (hflow : s.inFlow = false) (column : Int) :
    (s.closeLevels column).levels =
      s.levels.dropWhile fun level => (level.column : Int) > column := by
  rw [closeLevels, if_neg (by simp [hflow])]
  apply drop_length_takeWhile

theorem indent_closeLevels_le (hflow : s.inFlow = false) (column : Nat) :
    (s.closeLevels column).indent ≤ column := by
  have hlevels := levels_closeLevels hflow column
  unfold indent
  split
  · omega
  · next level _ hcons =>
    have hinnermost : (s.closeLevels column).levels.head? = some level := by simp [hcons]
    rw [hlevels] at hinnermost
    simpa using head?_dropWhile _ s.levels level hinnermost

theorem cursor_closeLevels (s : Scanner) (column : Int) :
    (s.closeLevels column).cursor = s.cursor := by
  unfold closeLevels
  split <;> rfl

end Scanner

namespace Written

open Quoted

/-- A string in double quotes can be read back. It holds no control character, and between its
quotes no quote and no backslash is left unescaped. At the end of a line the reader returns the
string and stops right behind the closing quote, wherever the line is indented as far as its block.
Outside of flow collections that is wherever the scanner reads a token. -/
theorem doubleQuoted_invertible (text : List Char) :
    (∃ inner, doubleQuoted text = '"' :: inner ++ ['"'] ∧
        ∀ c ∈ unescaped inner, c ≠ '"' ∧ c ≠ '\\') ∧
      (∀ c ∈ doubleQuoted text, isControl c = false) ∧
      (∀ (c : Cursor) (rest : List Char), c.rest = doubleQuoted text ++ rest →
        (∀ ch ∈ rest.head?, isBreak ch = true) →
          (readBack text c).2.rest = rest ∧
          ∀ flow indent, scan false flow indent c =
            if indent ≤ c.column + 1 then .ok (readBack text c)
            else .error ⟨.quotedIndentation, c.index⟩) ∧
      ∀ (s : Scanner) (rest : List Char), s.inFlow = false →
        s.cursor.rest = doubleQuoted text ++ rest → (∀ ch ∈ rest.head?, isBreak ch = true) →
          let s' := s.closeLevels s.cursor.column
          scan false s'.inFlow s'.indent s'.cursor = .ok (readBack text s.cursor) := by
  have hinner : ∀ c ∈ unescaped (text.flatMap escapeChar), c ≠ '"' ∧ c ≠ '\\' := by
    intro c hc
    have hplain : IsPlain c := isPlain_of_mem_unescaped text c hc
    exact ⟨hplain.notQuote, hplain.notBackslash⟩
  refine ⟨⟨text.flatMap escapeChar, rfl, hinner⟩, fun c => isControl_of_mem_doubleQuoted, ?_, ?_⟩
  · intro c rest hrest hends
    exact ⟨Cursor.rest_advance hrest, fun flow indent => scan_doubleQuoted hrest hends⟩
  · intro s rest hflow hrest hends s'
    have hlevel : s'.indent ≤ s.cursor.column := Scanner.indent_closeLevels_le hflow _
    have hindent : s'.indent ≤ s.cursor.column + 1 := by omega
    rw [Scanner.cursor_closeLevels, scan_doubleQuoted hrest hends, if_pos hindent]

/-- Escapes of every length, and blanks beside them. The level that was opened further right is
closed before the scalar is read. -/
theorem doubleQuoted_invertible_everyEscape :
    let text := ['a', ' ', ' ', '"', '\\', '\n', '\t', '\r', '\x00', '\u0085', 'é', ' ']
    let rest := ['\r', '\n', '-']
    let s : Scanner := {
      cursor := { rest := doubleQuoted text ++ rest, index := 7, line := 1, column := 2 },
      levels := [⟨4, true⟩, ⟨0, true⟩] }
    doubleQuoted text = "\"a  \\\"\\\\\\n\\t\\r\\u0000\\u0085é \"".toList ∧
      s.inFlow = false ∧ (∀ ch ∈ rest.head?, isBreak ch = true) ∧
      (s.closeLevels s.cursor.column).indent = 0 ∧
      scan false false 0 s.cursor =
        .ok (⟨.scalar .doubleQuoted (.ofList text), 7, 36⟩, ⟨rest, 36, 1, 31, false⟩) := by
  intro text rest s
  have hbreak : ∀ ch ∈ rest.head?, isBreak ch = true := by
    intro ch hch
    obtain rfl : '\r' = ch := Option.some.inj hch
    rfl
  have hreads := (doubleQuoted_invertible text).2.2.2 s rest rfl rfl hbreak
  exact ⟨by decide, rfl, hbreak, by decide, hreads⟩

end Written

end RuleTidy.Yaml
