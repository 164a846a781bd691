import RuleTidy.Text.Digit
import RuleTidy.Yaml.Token
import RuleTidy.Yaml.Token.Fold

/-! Reading a quoted scalar: words, folded across lines, up to the closing quote. -/

namespace RuleTidy.Yaml.Quoted

inductive Escape where
  | char (c : Char)
  /-- A code point in hexadecimal digits. -/
  | digits (count : Nat)

def Escape.ofChar? : Char → Option Escape
  | '0' => some (.char '\x00')
  | 'a' => some (.char '\x07')
  | 'b' => some (.char '\x08')
  | 't' | '\t' => some (.char '\t')
  | 'n' => some (.char '\n')
  | 'v' => some (.char '\x0b')
  | 'f' => some (.char '\x0c')
  | 'r' => some (.char '\r')
  | 'e' => some (.char '\x1b')
  | ' ' => some (.char ' ')
  | '"' => some (.char '"')
  | '/' => some (.char '/')
  | '\\' => some (.char '\\')
  | 'N' => some (.char '\u0085')
  | '_' => some (.char '\u00a0')
  | 'L' => some (.char '\u2028')
  | 'P' => some (.char '\u2029')
  | 'x' => some (.digits 2)
  | 'u' => some (.digits 4)
  | 'U' => some (.digits 8)
  | _ => none

/-- Resolves the escape at a backslash: the character it stands for, and the number of characters
that write it. -/
def escape (rest : List Char) : Except SyntaxFault (Char × Nat) :=
  match rest with
  | _ :: selector :: rest =>
    match Escape.ofChar? selector with
    | none => .error .escapeUnknown
    | some (.char c) => .ok (c, 2)
    | some (.digits count) =>
      let digits := rest.take count
      match if digits.length = count then Text.hexNumber? digits else none with
      | none => .error .hexadecimalExpected
      | some n =>
        match Text.charOfCode? n with
        | none => .error .codePointInvalid
        | some c => .ok (c, 2 + count)
  | _ => .error .escapeUnknown

structure Word where
  cursor : Cursor
  text : List Char
  /-- The run ended in an escaped line break. -/
  escapedBreak : Bool := false

def word (single : Bool) (start : Nat) : Nat → Cursor → List Char → Except SyntaxFailure Word
  | 0, c, text => .ok ⟨c, text, false⟩
  | fuel + 1, c, text =>
    match c.rest with
    | [] => .ok ⟨c, text, false⟩
    | ch :: rest =>
      if isSpaceOrBreak ch then .ok ⟨c, text, false⟩
      else if single then
        if ch = '\'' then
          if rest.head? = some '\'' then word single start fuel (c.advance 2) (text ++ ['\''])
          else .ok ⟨c, text, false⟩
        else word single start fuel (c.advance 1) (text ++ [ch])
      else if ch = '"' then .ok ⟨c, text, false⟩
      else if ch = '\\' then
        if rest.head?.any isBreak then .ok ⟨(c.advance 1).skipBreak, text, true⟩
        else match escape c.rest with
          | .error fault => .error ⟨fault, start⟩
          | .ok (value, count) => word single start fuel (c.advance count) (text ++ [value])
      else word single start fuel (c.advance 1) (text ++ [ch])

def gap (indent : Int) : Nat → Cursor → Gap → Except SyntaxFailure (Cursor × Gap)
  | 0, c, g => .ok (c, g)
  | fuel + 1, c, g =>
    match c.peek with
    | none => .ok (c, g)
    | some ch =>
      if isSpace ch then
        if g.hasBreak && ch = '\t' && (c.column : Int) < indent then c.fail .quotedTab
        else gap indent fuel (c.skip 1) (g.addBlank ch)
      else if isBreak ch then gap indent fuel c.skipBreak g.addBreak
      else .ok (c, g)

def closingQuote (single : Bool) : Char := if single then '\'' else '"'

def words (single : Bool) (indent : Int) (start : Nat) :
    Nat → Cursor → List Char → Except SyntaxFailure (List Char × Cursor)
  | 0, c, text => .ok (text, c)
  | fuel + 1, c, text =>
    if c.column = 0 && c.atDocumentMarker then .error ⟨.documentIndicatorInQuoted, start⟩
    else if c.atEnd then .error ⟨.quotedUnclosed, start⟩
    else if (c.column : Int) < indent then .error ⟨.quotedIndentation, start⟩
    else do
      let w ← word single start (c.rest.length + 1) c text
      if w.cursor.peek = some (closingQuote single) then pure (w.text, w.cursor)
      else do
        let (after, g) ← gap indent w.cursor.rest.length w.cursor
          (if w.escapedBreak then .escaped 0 else .none)
        words single indent start fuel after (w.text ++ g.text)

/-- What may stand after a quoted scalar and the blanks that follow it: the end of the line, a
colon that makes it a key, or, in a flow collection, an indicator. -/
def mayFollow (flow sameLine : Bool) : Option Char → Bool
  | none => true
  | some c => isBreak c || (c = ':' && (flow || sameLine)) ||
    (flow && (c = ',' || c = '}' || c = ']'))

def scan (single flow : Bool) (indent : Int) (c : Cursor) :
    Except SyntaxFailure (Token × Cursor) := do
  let (text, quote) ← words single indent c.index (c.rest.length + 1) (c.advance 1) []
  let blanks ← (quote.advance 1).skipBlanks true
  let after := blanks.cursor
  if mayFollow flow (c.line = after.line) after.peek then
    let style : ScalarStyle := if single then .singleQuoted else .doubleQuoted
    pure (⟨.scalar style (String.ofList text), c.index, after.index⟩, after)
  else after.fail .contentAfterQuoted

end RuleTidy.Yaml.Quoted
