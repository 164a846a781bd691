import RuleTidy.Yaml.Token
import RuleTidy.Yaml.Token.Fold

/-! Reading a plain scalar: words, folded across lines, up to the first thing that cannot belong
to it. -/

namespace RuleTidy.Yaml.Plain

/-- A character that may stand in a plain scalar, given what follows it. A colon ends the scalar
before a blank, and in a flow collection the flow indicators end it too. -/
def isContent (flow : Bool) (c : Char) (rest : List Char) : Bool :=
  if c = ':' then !(rest.head?.all isSpaceOrBreak || (flow && rest.head?.any isFlow))
  else !isSpaceOrBreak c && !(flow && isFlow c)

def word (flow : Bool) : List Char → List Char
  | [] => []
  | c :: rest => if isContent flow c rest then c :: word flow rest else []

/-- The blanks and breaks after a word. A tab may not stand where the indentation of a further line
would, unless that line is empty. `start` is where the scalar began. -/
def gap (indent : Int) (start : Nat) : Nat → Cursor → Gap → Except SyntaxFailure (Cursor × Gap)
  | 0, c, g => .ok (c, g)
  | fuel + 1, c, g =>
    match c.peek with
    | none => .ok (c, g)
    | some ch =>
      if isSpace ch then
        if !g.hasBreak then gap indent start fuel (c.skip 1) (g.addBlank ch)
        else if ch = '\t' && (c.column : Int) < indent then do
          let blanks ← c.skipBlanks true
          if blanks.cursor.endOr isBreak then gap indent start fuel blanks.cursor g
          else .error ⟨.tabInPlain, start⟩
        else gap indent start fuel (c.skip 1) g
      else if isBreak ch then gap indent start fuel c.skipBreak g.addBreak
      else .ok (c, g)

structure State where
  cursor : Cursor
  text : List Char := []
  /-- The offset after the last word. -/
  stop : Nat
  gap : Gap := .none

def words (flow : Bool) (indent : Int) (start : Nat) : Nat → State → Except SyntaxFailure State
  | 0, s => .ok s
  | fuel + 1, s =>
    let c := s.cursor
    if (c.onlyBlanks && c.atDocumentMarker) || c.peek = some '#' then .ok s
    else if flow && c.peek = some '-' && (c.peekAt 1).any isFlow then c.fail .plainDash
    else
      let next := word flow c.rest
      let s := if next.isEmpty then s else
        let after := c.advance next.length
        ⟨after, s.text ++ s.gap.text ++ next, after.index, .none⟩
      if !s.cursor.nextIs isSpaceOrBreak then .ok s
      else do
        let (after, g) ← gap indent start s.cursor.rest.length s.cursor .none
        let s := { s with cursor := after, gap := g }
        if !flow && (after.column : Int) < indent then .ok s
        else words flow indent start fuel s

def scan (flow : Bool) (indent : Int) (c : Cursor) : Except SyntaxFailure (Token × Cursor) :=
  if flow && (c.column : Int) < indent then c.fail .flowIndentation
  else do
    let s ← words flow indent c.index (c.rest.length + 1) { cursor := c, stop := c.index }
    if s.text.isEmpty then c.fail .plainEmpty
    else pure (⟨.scalar .plain (String.ofList s.text), c.index, s.stop⟩, s.cursor)

end RuleTidy.Yaml.Plain
