import RuleTidy.Yaml.Token

/-! Reading a literal or folded block scalar: its header, its indentation, and its lines. -/

namespace RuleTidy.Yaml.Block

inductive Chomping where
  /-- One break is kept. -/
  | clip
  /-- No break is kept. -/
  | strip
  /-- All breaks are kept. -/
  | keep
  deriving DecidableEq

def Chomping.ofChar? : Char → Option Chomping
  | '+' => some .keep
  | '-' => some .strip
  | _ => none

structure Header where
  chomping : Chomping := .clip
  /-- The stated indentation, zero where it is left open. -/
  increment : Nat := 0

private def increment (start : Nat) (c : Cursor) : Except SyntaxFailure (Nat × Cursor) :=
  match c.peek with
  | none => .ok (0, c)
  | some d =>
    if d = '0' then .error ⟨.zeroIndentation, start⟩
    else if d.isDigit then .ok (d.toNat - '0'.toNat, c.advance 1)
    else .ok (0, c)

def header (start : Nat) (c : Cursor) : Except SyntaxFailure (Header × Cursor) :=
  match c.peek.bind Chomping.ofChar? with
  | some chomping => do
    let (n, after) ← increment start (c.advance 1)
    pure (⟨chomping, n⟩, after)
  | none => do
    let (n, after) ← increment start c
    match if n = 0 then none else after.peek.bind Chomping.ofChar? with
    | some chomping => pure (⟨chomping, n⟩, after.advance 1)
    | none => pure (⟨.clip, n⟩, after)

def skipIndentation (indent : Nat) : Nat → Cursor → Nat → Cursor × Nat
  | 0, c, breaks => (c, breaks)
  | fuel + 1, c, breaks =>
    let c := c.skip ((c.rest.takeWhile (· = ' ')).take (indent - c.column)).length
    if c.nextIs isBreak then skipIndentation indent fuel c.skipBreak (breaks + 1) else (c, breaks)

/-- Steps over lines of spaces, counting them, and over the spaces of the line after them. The third
result is the widest of these lines. -/
def skipFirstIndentation : Nat → Cursor → Nat → Nat → Cursor × Nat × Nat
  | 0, c, breaks, widest => (c, breaks, widest)
  | fuel + 1, c, breaks, widest =>
    let c := c.skipWhile (· = ' ')
    let widest := max widest c.column
    if c.nextIs isBreak then skipFirstIndentation fuel c.skipBreak (breaks + 1) widest
    else (c, breaks, widest)

structure State where
  cursor : Cursor
  text : List Char := []
  /-- The last line had a break. -/
  lineBreak : Bool := false
  /-- The number of empty lines since. -/
  emptyLines : Nat
  /-- The last line began with a blank, which keeps folding away from it. -/
  spaced : Bool := false

def newlines (n : Nat) : List Char := List.replicate n '\n'

/-- What joins the last line to a further one. A folded scalar turns the break between two lines
into a space, unless one of them begins with a blank or empty lines stand between them. -/
def join (literal nextSpaced : Bool) (s : State) : List Char :=
  if !literal && s.lineBreak && !s.spaced && !nextSpaced then
    if s.emptyLines = 0 then [' '] else newlines s.emptyLines
  else newlines (s.lineBreak.toNat + s.emptyLines)

def lines (literal : Bool) (indent : Nat) : Nat → State → State
  | 0, s => s
  | fuel + 1, s =>
    let c := s.cursor
    if c.column ≠ indent || c.atEnd || (indent = 0 && c.atMarker '.') then s
    else
      let spaced := c.nextIs isSpace
      let line := c.rest.takeWhile (!isBreak ·)
      let after := c.skip line.length
      let text := s.text ++ join literal spaced s ++ line
      if after.atEnd then ⟨after, text, false, 0, spaced⟩
      else
        let (next, breaks) := skipIndentation indent (after.rest.length + 1) after.skipBreak 0
        lines literal indent fuel ⟨next, text, true, breaks, spaced⟩

/-- The line breaks that stay after the last line. At the end of the text, a line that is indented
as the scalar counts as ended. -/
def tail (chomping : Chomping) (indent : Nat) (s : State) : List Char :=
  -- at the end of the text a line that is indented as the scalar counts as ended
  let unended := s.cursor.atEnd && max indent 1 ≤ s.cursor.column
  match chomping with
  | .strip => []
  | .clip => newlines (s.lineBreak.toNat + unended.toNat)
  | .keep => newlines (s.lineBreak.toNat + unended.toNat + s.emptyLines)

def emptyText (chomping : Chomping) (headerEnded : Bool) (breaks : Nat) : List Char :=
  if chomping = .strip || !headerEnded then []
  else if chomping = .keep then newlines (max 1 breaks)
  else newlines 1

def scan (literal : Bool) (parent : Int) (c : Cursor) : Except SyntaxFailure (Token × Cursor) := do
  let style : ScalarStyle := if literal then .literal else .folded
  let fuel := c.rest.length + 1
  let (head, afterHead) ← header c.index (c.advance 1)
  let blanks ← afterHead.skipBlanks true
  if !blanks.cursor.endOr isBreak then throw ⟨.contentAfterBlockHeader, c.index⟩
  let headerEnded := !blanks.cursor.atEnd
  let first := blanks.cursor.skipBreak
  if first.peek = some '\t' then throw ⟨.tabInBlockScalar, c.index⟩
  let stated := if parent ≥ 0 then parent.toNat + head.increment else head.increment
  let (body, breaks, indent) :=
    if head.increment > 0 then
      let (body, breaks) := skipIndentation stated fuel first 0
      (body, breaks, stated)
    else
      let (body, breaks, widest) := skipFirstIndentation fuel first 0 0
      let indent := max widest (parent + 1).toNat
      (body, breaks, if parent > 0 then max indent 1 else indent)
  if body.atEnd then
    let text := emptyText head.chomping headerEnded breaks
    return (⟨.scalar style (String.ofList text), c.index, body.index⟩, body)
  if body.column < indent && (body.column : Int) > parent then
    body.fail .blockScalarIndentation
  else
    let s := lines literal indent fuel { cursor := body, emptyLines := breaks }
    let text := s.text ++ tail head.chomping indent s
    pure (⟨.scalar style (String.ofList text), body.index, s.cursor.index⟩, s.cursor)

end RuleTidy.Yaml.Block
