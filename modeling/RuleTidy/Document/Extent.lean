import RuleTidy.Text.Blank
import RuleTidy.Text.Lines
import RuleTidy.Text.Utf8
import RuleTidy.Yaml.Node

/-! Where the parts of a configuration stand in its text: the lines of a sequence entry, the header
of a block scalar, the end of the content of a node. All places are offsets in characters. -/

namespace RuleTidy.Document

open Source Text Yaml

def endsWithSpace (text : List Char) : Bool :=
  text.getLast? = some ' ' || text.getLast? = some '\t'

def isBlockHeader (text : List Char) : Bool :=
  match trimEnd (text.takeWhile (· ≠ '#')) with
  | [] => false
  | indicator :: rest =>
    (indicator = '|' || indicator = '>') &&
      rest.all fun c => c = '+' || c = '-' || c.isDigit

/-- The offset in a line of the last header of a block scalar that reaches to the line's end. -/
def headerColumn? (chars : List Char) : Option Nat :=
  (List.range chars.length).reverse.find? fun column =>
    (chars[column]? = some '|' || chars[column]? = some '>') &&
      (column = 0 || endsWithSpace (chars.take column)) && isBlockHeader (chars.drop column)

/-- The offset of the header of the block scalar whose content starts at an offset. An empty block
scalar may start at its header. -/
def headerStart? (text : List Char) (content : Nat) : Option Nat :=
  if text[content]? = some '|' ∨ text[content]? = some '>' then some content
  else
    let before := trimEnd (text.take content)
    let start := lineStartBefore before before.length
    (headerColumn? (before.drop start)).map (start + ·)

def lineAbove? (text : List Char) (start : Nat) : Option (Nat × List Char) :=
  let head := text.take start
  if head.getLast? = some '\n' then
    let head := head.dropLast
    let above := lineStartBefore head head.length
    some (above, head.drop above)
  else none

def followsBlankLine (text : List Char) (start : Nat) : Bool :=
  (lineAbove? text start).any fun (_, line) => allBlank line

def blankLength : List (List Char) → Nat
  | [] => 0
  | line :: rest => if allBlank line then line.length + blankLength rest else 0

def wholeLines : List Char → List (List Char)
  | [] => []
  | c :: rest =>
    if c = '\n' then [c] :: wholeLines rest
    else match wholeLines rest with
      | [] => [[c]]
      | line :: lines => (c :: line) :: lines

def skipBlankLines (text : List Char) (start : Nat) : Nat :=
  start + blankLength (wholeLines (text.drop start))

def lineEndAfter (text : List Char) (offset : Nat) : Nat :=
  let rest := text.drop offset
  if rest.contains '\n' then offset + (rest.takeWhile (· ≠ '\n')).length + 1 else text.length

def trimmedEnd (text : List Char) (node : Node) : Nat :=
  let start := node.span.start.offset text
  let stop := max (node.span.stop.offset text) start
  start + (trimEnd (slice text start stop)).length

mutual

def contentEnd (text : List Char) : Node → Nat
  | .scalar info value => trimmedEnd text (.scalar info value)
  -- an empty collection has characters of its own
  | .sequence info [] => trimmedEnd text (.sequence info [])
  | .mapping info [] => trimmedEnd text (.mapping info [])
  | .sequence _ (item :: rest) => max (contentEnd text item) (itemsEnd text rest)
  | .mapping _ ((key, value) :: rest) =>
    max (max (contentEnd text key) (contentEnd text value)) (entriesEnd text rest)

def itemsEnd (text : List Char) : List Node → Nat
  | [] => 0
  | item :: rest => max (contentEnd text item) (itemsEnd text rest)

def entriesEnd (text : List Char) : List (Node × Node) → Nat
  | [] => 0
  | (key, value) :: rest =>
    max (max (contentEnd text key) (contentEnd text value)) (entriesEnd text rest)

end

def writtenStart? (text : List Char) (node : Node) : Option Nat :=
  let content := node.span.start.offset text
  match node.layout with
  | .scalar .literal | .scalar .folded => headerStart? text content
  | _ => some content

/-- The start of the line that holds the dash of an item. The dash stands before the item on its
line, or alone on the line above. An empty item may start at its dash. -/
def entryStart? (text : List Char) (node : Node) : Option Nat := do
  let start ← writtenStart? text node
  let line := lineStartBefore text start
  let before := slice text line start
  let dashBefore := trim before = ['-'] && endsWithSpace before
  let dashHere := allBlank before &&
    match text.drop start with
    | '-' :: c :: _ => c = ' ' || c = '\t' || c = '\n'
    | _ => false
  if dashBefore || dashHere then return line
  if !allBlank before then none
  let (above, characters) ← lineAbove? text line
  if trim characters = ['-'] then some above else none

def entryEnd (text : List Char) (node : Node) : Nat := lineEndAfter text (contentEnd text node)

/-- The indentation for the lines of the block scalar `block`, header included: that of its first
line with content, or else two spaces more than the blanks at the start of the line of its
position, counted in bytes. -/
def blockIndent (text block : List Char) (start : Position) : List Char :=
  match (lines block).tail.find? fun line => !allBlank line with
  | some line => line.takeWhile isBlank
  | none =>
    let depth := Utf8.byteLength ((text.drop (start.lineOffset text)).takeWhile isBlank)
    List.replicate (depth + 2) ' '

end RuleTidy.Document
