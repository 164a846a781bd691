import RuleTidy.Yaml.Token.Plain
import RuleTidy.Yaml.Token.Quoted
import RuleTidy.Yaml.Token.Block
import RuleTidy.Yaml.Token.Property

/-! From characters to tokens. Collections of block style have no closing character, and a mapping
has no opening one either: indentation opens and closes blocks, and a colon turns the node before
it into a key after the fact. -/

namespace RuleTidy.Yaml

structure Level where
  column : Nat
  /-- The level is a block collection. Other levels only keep what follows an indicator further
  right than the indicator's own column. -/
  block : Bool

structure KeyCandidate where
  index : Nat
  line : Nat
  column : Nat
  /-- Nothing but a key can stand here. -/
  required : Bool
  /-- The number of tokens before the node. -/
  token : Nat

/-- A text while it is cut into tokens. -/
structure Scanner where
  cursor : Cursor
  started : Bool := false
  /-- Tokens not handed out yet, and the number of those that are. -/
  queue : List Token := []
  taken : Nat := 0
  /-- Indentation, the innermost level first. -/
  levels : List Level := []
  /-- A key may begin here. -/
  keyAllowed : Bool := false
  /-- The last node of the innermost collection, and those of the collections around it, one for
  each open flow collection. -/
  candidate : Option KeyCandidate := none
  outer : List (Option KeyCandidate) := []
  /-- The offset at which a colon may follow a node without a blank after it. -/
  adjacentColon : Nat := 0
  /-- A mapping has been opened by a brace or a question mark since the last pair without braces
  ended. -/
  mappingOpened : Bool := false
  /-- For each open bracket, whether it holds a pair without braces at the moment. -/
  pairs : List Bool := []

namespace Scanner

def flowDepth (s : Scanner) : Nat := s.outer.length

def inFlow (s : Scanner) : Bool := !s.outer.isEmpty

def indent (s : Scanner) : Int :=
  match s.levels with
  | [] => -1
  | level :: _ => level.column

def inBlock (s : Scanner) : Bool := s.levels.head?.any (·.block)

def push (s : Scanner) (token : Token) : Scanner := { s with queue := s.queue ++ [token] }

def insert (s : Scanner) (number : Nat) (token : Token) : Scanner :=
  { s with queue := s.queue.insertIdx (number - s.taken) token }

def moveTo (s : Scanner) (cursor : Cursor) : Scanner := { s with cursor }

def allowKey (s : Scanner) : Scanner := { s with keyAllowed := true }

def forbidKey (s : Scanner) : Scanner := { s with keyAllowed := false }

def closeLevels (s : Scanner) (column : Int) : Scanner :=
  if s.inFlow then s else
    let closed := s.levels.takeWhile fun level => (level.column : Int) > column
    let ends := (closed.filter (·.block)).map fun _ => Token.empty .blockEnd s.cursor.index
    { s with levels := s.levels.drop closed.length, queue := s.queue ++ ends }

/-- Opens a block at `column`, unless one is open there. Its first token goes before the token
`number`, or to the end of the queue. -/
def openBlock (s : Scanner) (column : Nat) (number : Option Nat) (kind : TokenKind) (at_ : Nat) :
    Scanner :=
  if s.inFlow then s else
    let levels := match s.levels with
      | level :: rest => if !level.block && level.column ≤ column then rest else s.levels
      | [] => []
    let s := { s with levels }
    if s.indent < (column : Int) then
      let s := { s with levels := ⟨column, true⟩ :: s.levels }
      match number with
      | some n => s.insert n (.empty kind at_)
      | none => s.push (.empty kind at_)
    else s

def indentByOne (s : Scanner) : Scanner :=
  match s.levels with
  | level :: _ =>
    if !s.inFlow && level.block then { s with levels := ⟨level.column + 1, false⟩ :: s.levels }
    else s
  | [] => s

def dropIndents (s : Scanner) : Scanner :=
  { s with levels := s.levels.dropWhile fun level => !level.block }

def saveKey (s : Scanner) : Scanner :=
  if s.keyAllowed then
    let c := s.cursor
    let required := !s.inFlow && s.indent = c.column && s.inBlock
    { s with candidate := some ⟨c.index, c.line, c.column, required, s.taken + s.queue.length⟩ }
  else s

def dropKey (s : Scanner) : Except SyntaxFailure Scanner :=
  if s.candidate.any (·.required) then s.cursor.fail .simpleKeyExpected
  else .ok { s with candidate := none }

/-- A possible key of a block has to lie on the line of its colon, at most 1024 characters before
it. -/
def isStale (c : Cursor) (key : KeyCandidate) : Bool :=
  key.line < c.line || key.index + 1024 < c.index

def dropStaleKeys (s : Scanner) : Except SyntaxFailure Scanner :=
  if s.inFlow then .ok s
  else if s.candidate.any (isStale s.cursor) then
    if s.candidate.any (·.required) then s.cursor.fail .colonExpected
    else .ok { s with candidate := none }
  else .ok s

/-- Steps over blanks, line breaks and comments. In a block, a line with content may not have a tab
where its indentation would be. -/
def skipToToken : Nat → Scanner → Except SyntaxFailure Scanner
  | 0, s => .ok s
  | fuel + 1, s =>
    let c := s.cursor
    match c.peek with
    | none => .ok s
    | some ch =>
      if ch = '\t' && !s.levels.isEmpty && c.onlyBlanks && (c.column : Int) < s.indent then do
        let blanks ← c.skipBlanks true
        if blanks.cursor.endOr isBreak then skipToToken fuel (s.moveTo blanks.cursor)
        else blanks.cursor.fail .tabInIndentation
      else if isSpace ch then skipToToken fuel (s.moveTo (c.skip 1))
      else if isBreak ch then
        let s := s.moveTo c.skipBreak
        skipToToken fuel (if s.inFlow then s else s.allowKey)
      else if ch = '#' then skipToToken fuel (s.moveTo (c.skipWhile (!isBreak ·)))
      else .ok s

def skipAfterKey : Nat → Scanner → Bool → Scanner × Bool
  | 0, s, found => (s, found)
  | fuel + 1, s, found =>
    let c := s.cursor
    match c.peek with
    | none => (s, found)
    | some ch =>
      if ch = ' ' then skipAfterKey fuel (s.moveTo (c.skip 1)) true
      else if isBreak ch then
        let s := s.moveTo c.skipBreak
        skipAfterKey fuel (if s.inFlow then s else s.allowKey) true
      else if ch = '#' then skipAfterKey fuel (s.moveTo (c.skipWhile (!isBreak ·))) found
      else (s, found)

def endPair (s : Scanner) : Scanner :=
  match s.pairs with
  | true :: rest =>
    { s with pairs := false :: rest, mappingOpened := false }.push
      (.empty .flowMappingEnd s.cursor.index)
  | _ => s

def maxFlowDepth : Nat := 255

def openFlow (s : Scanner) (sequence : Bool) : Except SyntaxFailure Scanner := do
  let s := s.saveKey.indentByOne
  if s.flowDepth ≥ maxFlowDepth then s.cursor.fail .flowTooDeep
  else
    let start := s.cursor.index
    let s := { s with outer := s.candidate :: s.outer, candidate := none, keyAllowed := true }
    let s := if sequence then { s with pairs := false :: s.pairs }
      else { s with mappingOpened := true }
    let blanks ← (s.cursor.advance 1).skipBlanks true
    let kind : TokenKind := if sequence then .flowSequenceStart else .flowMappingStart
    pure ((s.moveTo blanks.cursor).push ⟨kind, start, blanks.cursor.index⟩)

def closeFlow (s : Scanner) (sequence : Bool) : Except SyntaxFailure Scanner := do
  let s ← s.dropKey
  let s := match s.outer with
    | key :: outer => { s with candidate := key, outer }
    | [] => s
  let s := s.forbidKey
  let s := if sequence then { s.endPair with pairs := s.pairs.tail } else s
  let start := s.cursor.index
  let blanks ← (s.cursor.advance 1).skipBlanks true
  let s := s.moveTo blanks.cursor
  -- the collection may be a key, whose colon needs no blank
  let s := if s.inFlow then { s with adjacentColon := s.cursor.index } else s
  let kind : TokenKind := if sequence then .flowSequenceEnd else .flowMappingEnd
  pure (s.push ⟨kind, start, s.cursor.index⟩)

def flowEntry (s : Scanner) : Except SyntaxFailure Scanner := do
  let s ← s.dropKey
  let s := s.allowKey.endPair
  let start := s.cursor.index
  let blanks ← (s.cursor.advance 1).skipBlanks true
  pure ((s.moveTo blanks.cursor).push ⟨.flowEntry, start, blanks.cursor.index⟩)

def blockEntry (s : Scanner) : Except SyntaxFailure Scanner := do
  if s.inFlow then s.cursor.fail .entryInFlow
  else if !s.keyAllowed then s.cursor.fail .entryNotAllowed
  else
    let c := s.cursor
    let s := (s.moveTo (c.advance 1)).openBlock c.column none .blockSequenceStart c.index
    let blanks ← s.cursor.skipBlanks true
    let after := blanks.cursor
    if blanks.tab && after.peek = some '-' && (after.peekAt 1).all isSpaceOrBreak then
      after.fail .tabAfterEntry
    else
      let s := s.moveTo after
      let s := if after.nextIs isBreak || after.nextIs isFlow then s.indentByOne else s
      let s ← s.dropKey
      pure (s.allowKey.push (.empty .blockEntry after.index))

def explicitKey (s : Scanner) : Except SyntaxFailure Scanner := do
  let c := s.cursor
  if !s.inFlow && !s.keyAllowed then c.fail .keyNotAllowed
  else
    let s := if s.inFlow then { s with mappingOpened := true }
      else s.openBlock c.column none .blockMappingStart c.index
    let s ← s.dropKey
    let s := if s.inFlow then s.forbidKey else s.allowKey
    let (s, found) := skipAfterKey c.rest.length (s.moveTo (c.advance 1)) false
    if !found then s.cursor.fail .keyBlankExpected
    else if s.cursor.peek = some '\t' then s.cursor.fail .keyTab
    else pure (s.push ⟨.key, c.index, s.cursor.index⟩)

def value (s : Scanner) : Except SyntaxFailure Scanner := do
  let c := s.cursor
  let isPair := !s.pairs.isEmpty && !s.mappingOpened
  let s := if isPair then { s with pairs := true :: s.pairs.tail } else s
  let after := c.advance 1
  let after ←
    if after.peek = some '\t' then do
      let blanks ← after.skipBlanks true
      if !blanks.space && (blanks.cursor.nextIs fun ch => ch = '-' || isNameChar ch) then
        blanks.cursor.fail .tabAfterColon
      else pure blanks.cursor
    else pure after
  let s := s.moveTo after
  match s.candidate with
  | some key =>
    let s := s.insert key.token (.empty .key key.index)
    if isPair && key.line < c.line then c.fail .colonMisplaced
    else
      let s := if isPair then s.insert key.token (.empty .flowMappingStart key.index) else s
      let s := s.openBlock key.column (some key.token) .blockMappingStart key.index
      let s := { s.indentByOne with candidate := none }
      pure (s.forbidKey.push (.empty .value c.index))
  | none =>
    let s := if isPair then s.push (.empty .flowMappingStart c.index) else s
    if !s.inFlow && !s.keyAllowed then c.fail .valueNotAllowed
    else
      let s := (s.openBlock c.column none .blockMappingStart c.index).indentByOne
      let s := if s.inFlow then s.forbidKey else s.allowKey
      pure (s.push (.empty .value c.index))

/-- `:` in a flow collection with no blank after it. A collection may follow it only where the node
before it ends in a quote or a bracket. -/
def flowValue (s : Scanner) : Except SyntaxFailure Scanner :=
  let next := s.cursor.peekAt 1
  if s.cursor.index ≠ s.adjacentColon && (next = some '[' || next = some '{') then
    s.cursor.fail .flowColonAdjacent
  else s.value

def anchor (s : Scanner) (isAlias : Bool) : Except SyntaxFailure Scanner := do
  let (token, after) ← Property.anchor isAlias s.cursor
  pure ((s.saveKey.forbidKey.moveTo after).push token)

def tag (s : Scanner) : Except SyntaxFailure Scanner := do
  let (token, after) ← Property.tag s.inFlow s.cursor
  pure ((s.saveKey.forbidKey.moveTo after).push token)

def blockScalar (s : Scanner) (literal : Bool) : Except SyntaxFailure Scanner := do
  let s := s.saveKey.allowKey.dropIndents
  let (token, after) ← Block.scan literal s.indent s.cursor
  pure ((s.moveTo after).push token)

def quotedScalar (s : Scanner) (single : Bool) : Except SyntaxFailure Scanner := do
  let s := s.saveKey.forbidKey
  let (token, after) ← Quoted.scan single s.inFlow s.indent s.cursor
  let s ← skipToToken (after.rest.length + 1) (s.moveTo after)
  -- the scalar may be a key, whose colon needs no blank
  pure ({ s with adjacentColon := s.cursor.index }.push token)

def plainScalar (s : Scanner) : Except SyntaxFailure Scanner := do
  let s := s.saveKey.forbidKey.dropIndents
  let (token, after) ← Plain.scan s.inFlow (s.indent + 1) s.cursor
  -- behind a line break a key may begin
  let s := if after.onlyBlanks then s.allowKey else s
  pure ((s.moveTo after).push token)

def directive (s : Scanner) : Except SyntaxFailure Scanner := do
  let s ← (s.closeLevels (-1)).dropKey
  let (token, after) ← Property.directive s.cursor
  pure ((s.forbidKey.moveTo after).push token)

def documentMarker (s : Scanner) (isStart : Bool) : Except SyntaxFailure Scanner := do
  let s ← (s.closeLevels (-1)).dropKey
  let after := s.cursor.advance 3
  let kind : TokenKind := if isStart then .documentStart else .documentEnd
  let s := (s.forbidKey.moveTo after).push ⟨kind, s.cursor.index, after.index⟩
  -- behind the end of a document only a comment may follow
  if isStart then pure s
  else
    let blanks ← after.skipBlanks true
    if blanks.cursor.endOr isBreak then pure (s.moveTo blanks.cursor)
    else blanks.cursor.fail .contentAfterDocumentEnd

def streamEnd (s : Scanner) : Except SyntaxFailure Scanner := do
  if (s.candidate :: s.outer).any fun key => key.any (·.required) then
    s.cursor.fail .simpleKeyExpected
  else
    let s := { s with candidate := none, outer := s.outer.map fun _ => none }
    pure ((s.closeLevels (-1)).forbidKey.push (.empty .streamEnd s.cursor.index))

def fetchAt (s : Scanner) (ch : Char) : Except SyntaxFailure Scanner :=
  let next := s.cursor.peekAt 1
  let separated := next.all isSpaceOrBreak
  match ch with
  | '[' => s.openFlow true
  | '{' => s.openFlow false
  | ']' => s.closeFlow true
  | '}' => s.closeFlow false
  | ',' => s.flowEntry
  | '*' => s.anchor true
  | '&' => s.anchor false
  | '!' => s.tag
  | '\'' => s.quotedScalar true
  | '"' => s.quotedScalar false
  | '-' => if separated then s.blockEntry else s.plainScalar
  | '?' => if separated then s.explicitKey else s.plainScalar
  | ':' =>
    if separated then s.value
    else if s.inFlow && (next.any isFlow || s.cursor.index = s.adjacentColon) then s.flowValue
    else s.plainScalar
  | '|' => if s.inFlow then s.plainScalar else s.blockScalar true
  | '>' => if s.inFlow then s.plainScalar else s.blockScalar false
  | '%' | '@' | '\x60' => s.cursor.fail (.unexpectedCharacter ch)
  | _ => s.plainScalar

def fetch (s : Scanner) : Except SyntaxFailure Scanner := do
  if !s.started then
    return { s with started := true, keyAllowed := true }.push (.empty .streamStart s.cursor.index)
  let s ← skipToToken (s.cursor.rest.length + 1) s
  let s ← s.dropStaleKeys
  let s := s.closeLevels s.cursor.column
  let c := s.cursor
  match c.peek with
  | none => s.streamEnd
  | some ch =>
    if c.column = 0 && ch = '%' then s.directive
    else if c.column = 0 && c.atMarker '-' then s.documentMarker true
    else if c.column = 0 && c.atMarker '.' then s.documentMarker false
    else if (c.column : Int) < s.indent then c.fail .indentation
    else s.fetchAt ch

def headOpen (s : Scanner) : Bool :=
  (s.candidate :: s.outer).any fun key => key.any fun k => k.token = s.taken

/-- The tokens in order, up to the end of the text or the first fault. A token is handed out only
when it is certain that no other comes before it. -/
def tokens : Nat → Scanner → List Token × Option SyntaxFailure
  | 0, _ => ([], none)
  | fuel + 1, s =>
    match s.queue with
    | [] =>
      match s.fetch with
      | .error failure => ([], some failure)
      | .ok s => tokens fuel s
    | token :: queue =>
      match s.dropStaleKeys with
      | .error failure => ([], some failure)
      | .ok s =>
        if s.headOpen then
          match s.fetch with
          | .error failure => ([], some failure)
          | .ok s => tokens fuel s
        else if token.kind = .streamEnd then ([token], none)
        else
          let (rest, failure) := tokens fuel { s with queue, taken := s.taken + 1 }
          (token :: rest, failure)

end Scanner

def tokensOf (text : List Char) : List Token × Option SyntaxFailure :=
  let rest := text.takeWhile (· ≠ '\x00')
  Scanner.tokens (8 * (rest.length + 4)) { cursor := { rest } }

end RuleTidy.Yaml
