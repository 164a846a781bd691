import RuleTidy.Yaml.SyntaxFault

/-! A place in a YAML text while it is read, and the classes of characters that reading tells
apart. A line break is a line feed, a carriage return, or both in this order. -/

namespace RuleTidy.Yaml

def isBreak (c : Char) : Bool := c = '\n' || c = '\r'

def isSpace (c : Char) : Bool := c = ' ' || c = '\t'

def isSpaceOrBreak (c : Char) : Bool := isSpace c || isBreak c

def isFlow (c : Char) : Bool := c = ',' || c = '[' || c = ']' || c = '{' || c = '}'

def isNameChar (c : Char) : Bool := c.isAlphanum || c = '_' || c = '-'

def isAnchorChar (c : Char) : Bool := !isSpaceOrBreak c && !isFlow c && c ≠ '\uFEFF'

def isUriChar (c : Char) : Bool := isNameChar c || "#;/?:@&=+$,_.!~*'()[]%".toList.contains c

def isTagChar (c : Char) : Bool := isUriChar c && !isFlow c && c ≠ '!'

/-- The characters still to be read, and where the first of them stands. `onlyBlanks` holds while
the line has shown nothing but blanks. -/
structure Cursor where
  rest : List Char
  index : Nat := 0
  line : Nat := 0
  column : Nat := 0
  onlyBlanks : Bool := true

namespace Cursor

def peek (c : Cursor) : Option Char := c.rest.head?

def peekAt (c : Cursor) (n : Nat) : Option Char := c.rest[n]?

def atEnd (c : Cursor) : Bool := c.rest.isEmpty

def nextIs (c : Cursor) (p : Char → Bool) : Bool := c.peek.any p

def endOr (c : Cursor) (p : Char → Bool) : Bool := c.peek.all p

def fail {α : Type} (c : Cursor) (fault : SyntaxFault) : Except SyntaxFailure α :=
  .error ⟨fault, c.index⟩

def skip (c : Cursor) (n : Nat) : Cursor :=
  { c with rest := c.rest.drop n, index := c.index + n, column := c.column + n }

def advance (c : Cursor) (n : Nat) : Cursor := { c.skip n with onlyBlanks := false }

def skipWhile (c : Cursor) (p : Char → Bool) : Cursor := c.skip (c.rest.takeWhile p).length

def skipBreak (c : Cursor) : Cursor :=
  match c.rest with
  | '\r' :: '\n' :: rest => ⟨rest, c.index + 2, c.line + 1, 0, true⟩
  | '\r' :: rest => ⟨rest, c.index + 1, c.line + 1, 0, true⟩
  | '\n' :: rest => ⟨rest, c.index + 1, c.line + 1, 0, true⟩
  | _ => c

def atMarker (c : Cursor) (mark : Char) : Bool :=
  match c.rest with
  | a :: b :: d :: rest =>
    a = mark && b = mark && d = mark && rest.head?.all isSpaceOrBreak
  | _ => false

def atDocumentMarker (c : Cursor) : Bool := c.atMarker '-' || c.atMarker '.'

structure Blanks where
  cursor : Cursor
  tab : Bool
  space : Bool

/-- Steps over the blanks of the line, and over a comment that follows them. Tabs count as blanks
only where `tabs` says so. -/
def skipBlanks (c : Cursor) (tabs : Bool) : Except SyntaxFailure Blanks :=
  let blanks := c.rest.takeWhile fun ch => ch = ' ' || (tabs && ch = '\t')
  let after := c.skip blanks.length
  let tab := blanks.contains '\t'
  let space := blanks.contains ' '
  if after.peek = some '#' then
    if tab || space then .ok ⟨after.skipWhile (!isBreak ·), tab, space⟩
    else after.fail .commentNotSeparated
  else .ok ⟨after, tab, space⟩

end Cursor

end RuleTidy.Yaml
