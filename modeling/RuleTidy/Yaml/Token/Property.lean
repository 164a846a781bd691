import RuleTidy.Text.Digit
import RuleTidy.Yaml.Token

/-! Reading what stands before nodes and documents: anchors, aliases, tags and directives. -/

namespace RuleTidy.Yaml.Property

def anchor (isAlias : Bool) (c : Cursor) : Except SyntaxFailure (Token × Cursor) :=
  let name := c.rest.tail.takeWhile isAnchorChar
  if name.isEmpty then c.fail .anchorNameExpected
  else
    let after := c.advance (1 + name.length)
    let text := String.ofList name
    .ok (⟨if isAlias then .alias text else .anchor text, c.index, after.index⟩, after)

def sequenceLength? (byte : Nat) : Option Nat :=
  if byte < 0x80 then some 1
  else if 0xC0 ≤ byte && byte < 0xE0 then some 2
  else if 0xE0 ≤ byte && byte < 0xF0 then some 3
  else if 0xF0 ≤ byte && byte < 0xF8 then some 4
  else none

def escapedByte? (rest : List Char) : Option Nat :=
  match rest with
  | '%' :: a :: b :: _ => do return 16 * (← Text.hexValue? a) + (← Text.hexValue? b)
  | _ => none

def escapedTail : Nat → Nat → List Char → Except SyntaxFault Nat
  | 0, code, _ => .ok code
  | n + 1, code, rest =>
    match escapedByte? rest with
    | none => .error .uriEscape
    | some byte =>
      if 0x80 ≤ byte && byte < 0xC0 then escapedTail n (256 * code + byte) (rest.drop 3)
      else .error .uriTrailingByte

/-- The character that a run of escaped bytes stands for, and the number of characters that write
it. The code is made of the bytes as they stand, one after the other. -/
def escapedChar (rest : List Char) : Except SyntaxFault (Char × Nat) :=
  match escapedByte? rest with
  | none => .error .uriEscape
  | some byte =>
    match sequenceLength? byte with
    | none => .error .uriLeadingByte
    | some n => do
      let code ← escapedTail (n - 1) byte (rest.drop 3)
      match Text.charOfCode? code with
      | some c => pure (c, 3 * n)
      | none => .error .uriCodePoint

def uri (p : Char → Bool) (start : Nat) :
    Nat → Cursor → List Char → Except SyntaxFailure (List Char × Cursor)
  | 0, c, text => .ok (text, c)
  | fuel + 1, c, text =>
    match c.peek with
    | none => .ok (text, c)
    | some ch =>
      if !p ch then .ok (text, c)
      else if ch = '%' then
        match escapedChar c.rest with
        | .error fault => .error ⟨fault, start⟩
        | .ok (value, count) => uri p start fuel (c.advance count) (text ++ [value])
      else uri p start fuel (c.advance 1) (text ++ [ch])

def handle (directive : Bool) (start : Nat) (c : Cursor) :
    Except SyntaxFailure (List Char × Cursor) :=
  if c.peek ≠ some '!' then .error ⟨.tagBangExpected, start⟩
  else
    let afterBang := c.advance 1
    let name := afterBang.rest.takeWhile isNameChar
    let after := afterBang.skip name.length
    if after.peek = some '!' then .ok ('!' :: name ++ ['!'], after.advance 1)
    else if directive && !name.isEmpty then .error ⟨.tagDirectiveBangExpected, start⟩
    else .ok ('!' :: name, after)

def suffix (head : List Char) (start : Nat) (c : Cursor) :
    Except SyntaxFailure (List Char × Cursor) := do
  let (text, after) ← uri isTagChar start (c.rest.length + 1) c []
  if head.isEmpty && text.isEmpty then throw ⟨.tagUriExpected, start⟩
  pure (head.tail ++ text, after)

/-- The tag at the cursor: in angle brackets, after a handle, or local. The tag of a lone mark has
no handle. -/
def tag (flow : Bool) (c : Cursor) : Except SyntaxFailure (Token × Cursor) := do
  let start := c.index
  let (handleText, suffixText, after) ←
    if c.peekAt 1 = some '<' then do
      let (text, after) ← uri isUriChar start (c.rest.length + 1) (c.advance 2) []
      if after.peek ≠ some '>' then throw ⟨.verbatimTagUnclosed, start⟩
      pure ([], text, after.advance 1)
    else do
      let (head, afterHead) ← handle false start c
      if head.length ≥ 2 && head.getLast? = some '!' then do
        let (text, after) ← suffix [] start afterHead
        pure (head, text, after)
      else do
        let (text, after) ← suffix head start afterHead
        if text.isEmpty then pure ([], ['!'], after) else pure (['!'], text, after)
  if after.endOr (fun ch => isSpaceOrBreak ch || (flow && isFlow ch)) then
    pure (⟨.tag (String.ofList handleText) (String.ofList suffixText), start, after.index⟩, after)
  else throw ⟨.contentAfterTag, start⟩

def versionNumber (start : Nat) (c : Cursor) : Except SyntaxFailure Cursor :=
  let digits := c.rest.takeWhile Char.isDigit
  if digits.length > 9 then .error ⟨.versionNumberTooLong, start⟩
  else if digits.isEmpty then .error ⟨.versionNumberExpected, start⟩
  else .ok (c.advance digits.length)

def version (start : Nat) (c : Cursor) : Except SyntaxFailure (TokenKind × Cursor) := do
  let major ← versionNumber start (c.skipWhile isSpace)
  if major.peek ≠ some '.' then throw ⟨.versionSeparatorExpected, start⟩
  let after ← versionNumber start (major.advance 1)
  pure (.versionDirective, after)

def tagShorthand (start : Nat) (c : Cursor) : Except SyntaxFailure (TokenKind × Cursor) := do
  let (handleText, afterHandle) ← handle true start (c.skipWhile isSpace)
  let c := afterHandle.skipWhile isSpace
  let (text, after) ←
    match c.peek with
    | some '!' => uri isUriChar start (c.rest.length + 1) (c.advance 1) ['!']
    | some ch =>
      if isTagChar ch then uri isUriChar start (c.rest.length + 1) c []
      else throw ⟨.tagPrefixCharacter, start⟩
    | none => throw ⟨.tagPrefixCharacter, start⟩
  if after.endOr isSpaceOrBreak then
    pure (.tagDirective (String.ofList handleText) (String.ofList text), after)
  else throw ⟨.contentAfterTagDirective, start⟩

def directive (c : Cursor) : Except SyntaxFailure (Token × Cursor) := do
  let start := c.index
  let afterSign := c.advance 1
  let name := afterSign.rest.takeWhile isNameChar
  if name.isEmpty then throw ⟨.directiveNameExpected, start + 1⟩
  let afterName := afterSign.skip name.length
  if !afterName.endOr isSpaceOrBreak then throw ⟨.directiveNameCharacter, start + 1⟩
  let (kind, after) ←
    if name = "YAML".toList then version start afterName
    else if name = "TAG".toList then tagShorthand start afterName
    -- an unknown directive counts as one that gives the empty handle
    else pure (.tagDirective "" "", afterName.skipWhile (!isBreak ·))
  let blanks ← after.skipBlanks true
  if blanks.cursor.endOr isBreak then
    pure (⟨kind, start, after.index⟩, blanks.cursor.skipBreak)
  else throw ⟨.contentAfterDirective, start⟩

end RuleTidy.Yaml.Property
