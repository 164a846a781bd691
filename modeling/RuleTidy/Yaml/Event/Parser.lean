import RuleTidy.Yaml.Event
import RuleTidy.Yaml.Token.Scanner

/-! From tokens to the events of the first document. What may come next is kept in a state, and the
states of the collections around it on a stack. -/

namespace RuleTidy.Yaml

inductive Expected where
  | documentNode
  | documentContent
  | documentEnd
  | blockEntry (first : Bool)
  | indentlessEntry
  | blockKey (first : Bool)
  | blockValue
  | flowEntry (first : Bool)
  | pairKey
  | pairValue
  | pairEnd (offset : Nat)
  | flowKey (first : Bool)
  | flowValue (empty : Bool)
  deriving DecidableEq

structure Parser where
  tokens : List Token
  /-- The fault that ends the tokens. -/
  failure : Option SyntaxFailure
  expected : Expected := .documentNode
  /-- What is expected after the current collection, innermost first. -/
  pending : List Expected := []
  /-- The numbers of the anchors, the latest setting of a name first. -/
  anchors : List (String × Nat) := []
  anchorCount : Nat := 0
  /-- The texts that tag handles abbreviate. -/
  handles : List (String × String) := []

namespace Parser

def peek (p : Parser) : Except SyntaxFailure Token :=
  match p.tokens with
  | token :: _ => .ok token
  | [] => .error (p.failure.getD ⟨.nodeExpected, 0⟩)

def skip (p : Parser) : Parser := { p with tokens := p.tokens.tail }

def expect (p : Parser) (expected : Expected) : Parser := { p with expected }

def defer (p : Parser) (expected : Expected) : Parser := { p with pending := expected :: p.pending }

def resume (p : Parser) : Parser :=
  match p.pending with
  | expected :: pending => { p with expected, pending }
  | [] => p

def fail {α : Type} (token : Token) (fault : SyntaxFault) : Except SyntaxFailure α :=
  .error ⟨fault, token.start⟩

def setAnchor (p : Parser) (name : String) : Parser :=
  { p with anchors := (name, p.anchorCount + 1) :: p.anchors, anchorCount := p.anchorCount + 1 }

/-- The text that a handle abbreviates. Two marks have a meaning of their own unless they are
declared, and only a handle between two marks has to be. -/
def resolveTag (p : Parser) (token : Token) (handle suffix : String) : Except SyntaxFailure Tag :=
  match p.handles.lookup (if handle = "" && suffix = "!" then "" else handle) with
  | some text => .ok ⟨text, suffix⟩
  | none =>
    if handle = "!!" then .ok ⟨"tag:yaml.org,2002:", suffix⟩
    else
      let cs := handle.toList
      if cs.length ≥ 2 && cs.head? = some '!' && cs.getLast? = some '!' then
        fail token .handleUndeclared
      else .ok ⟨handle, suffix⟩

structure Properties where
  anchor : Option Nat := none
  tag : Option Tag := none

def anchorProperty (p : Parser) : Except SyntaxFailure (Option Nat × Parser) := do
  let token ← p.peek
  match token.kind with
  | .anchor name =>
    let p := p.skip.setAnchor name
    pure (some p.anchorCount, p)
  | _ => pure (none, p)

def tagProperty (p : Parser) (first : Token) : Except SyntaxFailure (Option Tag × Parser) := do
  let token ← p.peek
  match token.kind with
  | .tag handle suffix => do
    let tag ← p.resolveTag first handle suffix
    pure (some tag, p.skip)
  | _ => pure (none, p)

def properties (p : Parser) : Except SyntaxFailure (Properties × Parser) := do
  let first ← p.peek
  match first.kind with
  | .anchor _ => do
    let (anchor, p) ← p.anchorProperty
    let (tag, p) ← p.tagProperty first
    pure (⟨anchor, tag⟩, p)
  | .tag .. => do
    let (tag, p) ← p.tagProperty first
    let (anchor, p) ← p.anchorProperty
    pure (⟨anchor, tag⟩, p)
  | _ => pure ({}, p)

/-- The event that begins the next node. Block collections can only stand where `block` holds, and
entries of a sequence without its own indentation only where `indentless` does. -/
def node (p : Parser) (block indentless : Bool) : Except SyntaxFailure (Event × Parser) := do
  let first ← p.peek
  if let .alias name := first.kind then
    match p.anchors.lookup name with
    | none => fail first .anchorUnknown
    | some n => return (⟨.alias n, first.start, first.stop⟩, p.skip.resume)
  let (props, p) ← p.properties
  let token ← p.peek
  let event (kind : EventKind) : Event := ⟨kind, token.start, token.stop⟩
  match token.kind with
  | .scalar style text =>
    pure (event (.scalar style text props.anchor props.tag), p.skip.resume)
  | .flowSequenceStart => pure (event (.sequenceStart props.anchor), p.expect (.flowEntry true))
  | .flowMappingStart => pure (event (.mappingStart props.anchor), p.expect (.flowKey true))
  | kind =>
    if indentless && kind = .blockEntry then
      pure (event (.sequenceStart props.anchor), p.expect .indentlessEntry)
    else if block && kind = .blockSequenceStart then
      pure (event (.sequenceStart props.anchor), p.expect (.blockEntry true))
    else if block && kind = .blockMappingStart then
      pure (event (.mappingStart props.anchor), p.expect (.blockKey true))
    else if props.anchor.isSome || props.tag.isSome then
      pure (event (.scalar .plain "" props.anchor props.tag), p.resume)
    else fail token .nodeExpected

def emptyAt (token : Token) : Event := .emptyScalar token.start token.stop

def endAt (kind : EventKind) (token : Token) : Event := ⟨kind, token.start, token.stop⟩

def documentContent (p : Parser) : Except SyntaxFailure (Event × Parser) := do
  let token ← p.peek
  match token.kind with
  | .versionDirective | .tagDirective .. | .documentStart | .documentEnd | .streamEnd =>
    pure (emptyAt token, p.resume)
  | _ => p.node true false

def blockEntry (p : Parser) (first : Bool) : Except SyntaxFailure (Event × Parser) := do
  let p := if first then p.skip else p
  let token ← p.peek
  match token.kind with
  | .blockEnd => pure (endAt .sequenceEnd token, p.skip.resume)
  | .blockEntry => do
    let p := p.skip
    let next ← p.peek
    match next.kind with
    -- an entry with nothing in it has the extent of its dash
    | .blockEntry | .blockEnd => pure (emptyAt token, p.expect (.blockEntry false))
    | _ => (p.defer (.blockEntry false)).node true false
  | _ => fail token .entryExpected

def indentlessEntry (p : Parser) : Except SyntaxFailure (Event × Parser) := do
  let token ← p.peek
  match token.kind with
  | .blockEntry => do
    let p := p.skip
    let next ← p.peek
    match next.kind with
    | .blockEntry | .key | .value | .blockEnd => pure (emptyAt token, p.expect .indentlessEntry)
    | _ => (p.defer .indentlessEntry).node true false
  -- such a sequence ends at whatever is no dash
  | _ => pure (endAt .sequenceEnd token, p.resume)

def blockKey (p : Parser) (first : Bool) : Except SyntaxFailure (Event × Parser) := do
  let p := if first then p.skip else p
  let token ← p.peek
  match token.kind with
  | .key => do
    let p := p.skip
    let next ← p.peek
    match next.kind with
    | .key | .value | .blockEnd => pure (emptyAt next, p.expect .blockValue)
    | _ => (p.defer .blockValue).node true true
  | .value => pure (emptyAt token, p.expect .blockValue)
  | .blockEnd => pure (endAt .mappingEnd token, p.skip.resume)
  | _ => fail token .keyExpected

def blockValue (p : Parser) : Except SyntaxFailure (Event × Parser) := do
  let token ← p.peek
  match token.kind with
  | .value => do
    let p := p.skip
    let next ← p.peek
    match next.kind with
    | .key | .value | .blockEnd => pure (emptyAt token, p.expect (.blockKey false))
    | _ => (p.defer (.blockKey false)).node true true
  | _ => pure (emptyAt token, p.expect (.blockKey false))

def flowEntry (p : Parser) (first : Bool) : Except SyntaxFailure (Event × Parser) := do
  let p := if first then p.skip else p
  let token ← p.peek
  if token.kind = .flowSequenceEnd then
    return (endAt .sequenceEnd token, p.skip.resume)
  if !first && token.kind ≠ .flowEntry then fail token .flowSequenceEndExpected
  else
    let p := if first then p else p.skip
    let next ← p.peek
    match next.kind with
    | .flowSequenceEnd => pure (endAt .sequenceEnd next, p.skip.resume)
    | .key => pure (⟨.mappingStart none, next.start, next.stop⟩, p.skip.expect .pairKey)
    | _ => (p.defer (.flowEntry false)).node false false

def pairKey (p : Parser) : Except SyntaxFailure (Event × Parser) := do
  let token ← p.peek
  match token.kind with
  | .value | .flowEntry | .flowSequenceEnd => pure (emptyAt token, p.skip.expect .pairValue)
  | _ => (p.defer .pairValue).node false false

def pairValue (p : Parser) : Except SyntaxFailure (Event × Parser) := do
  let token ← p.peek
  match token.kind with
  | .value => do
    let p := p.skip
    let next ← p.peek
    match next.kind with
    -- a missing value has the extent of the token in its place
    | .flowEntry | .flowSequenceEnd => pure (emptyAt next, p.expect (.pairEnd next.stop))
    | _ => (p.defer (.pairEnd next.stop)).node false false
  | _ => pure (emptyAt token, p.expect (.pairEnd token.stop))

def flowKey (p : Parser) (first : Bool) : Except SyntaxFailure (Event × Parser) := do
  let p := if first then p.skip else p
  let token ← p.peek
  if token.kind = .flowMappingEnd then
    return (endAt .mappingEnd token, p.skip.resume)
  if !first && token.kind ≠ .flowEntry then fail token .flowMappingEndExpected
  else
    let p := if first then p else p.skip
    let next ← p.peek
    match next.kind with
    | .key => do
      let p := p.skip
      let after ← p.peek
      match after.kind with
      -- a comma may stand before the closing brace
      | .value | .flowEntry | .flowMappingEnd => pure (emptyAt after, p.expect (.flowValue false))
      | _ => (p.defer (.flowValue false)).node false false
    | .value => pure (emptyAt next, p.expect (.flowValue false))
    | .flowMappingEnd => pure (endAt .mappingEnd token, p.skip.resume)
    | _ => (p.defer (.flowValue true)).node false false

def flowValue (p : Parser) (empty : Bool) : Except SyntaxFailure (Event × Parser) := do
  let token ← p.peek
  if !empty && token.kind = .value then
    let p := p.skip
    let next ← p.peek
    match next.kind with
    | .flowEntry | .flowMappingEnd => pure (emptyAt token, p.expect (.flowKey false))
    | _ => (p.defer (.flowKey false)).node false false
  else pure (emptyAt token, p.expect (.flowKey false))

def step (p : Parser) : Except SyntaxFailure (Event × Parser) :=
  match p.expected with
  | .documentNode | .documentEnd => p.node true false
  | .documentContent => p.documentContent
  | .blockEntry first => p.blockEntry first
  | .indentlessEntry => p.indentlessEntry
  | .blockKey first => p.blockKey first
  | .blockValue => p.blockValue
  | .flowEntry first => p.flowEntry first
  | .pairKey => p.pairKey
  | .pairValue => p.pairValue
  | .pairEnd offset => .ok (⟨.mappingEnd, offset, offset⟩, p.expect (.flowEntry false))
  | .flowKey first => p.flowKey first
  | .flowValue empty => p.flowValue empty

def endFailure (p : Parser) : Option SyntaxFailure :=
  match p.peek with
  | .error failure => some failure
  | .ok token =>
    match token.kind with
    -- a directive needs the end of the document to be marked
    | .versionDirective | .tagDirective .. => some ⟨.documentEndExpected, token.start⟩
    | _ => none

def events : Nat → Parser → List Event × Option SyntaxFailure
  | 0, _ => ([], none)
  | fuel + 1, p =>
    if p.expected = .documentEnd then ([], p.endFailure)
    else match p.step with
      | .error failure => ([], some failure)
      | .ok (event, p) =>
        let (rest, failure) := events fuel p
        (event :: rest, failure)

def directives : Nat → Parser → Bool → Except SyntaxFailure Parser
  | 0, p, _ => .ok p
  | fuel + 1, p, versioned => do
    let token ← p.peek
    match token.kind with
    | .versionDirective =>
      if versioned then fail token .versionRepeated
      -- each directive makes those before it void
      else directives fuel { p.skip with handles := [] } true
    | .tagDirective handle text =>
      directives fuel { p.skip with handles := [(handle, text)] } versioned
    | _ => pure p

def start (p : Parser) : Except SyntaxFailure (Option Parser) := do
  let p := { p with tokens := p.tokens.dropWhile (·.kind = TokenKind.documentEnd) }
  let token ← p.peek
  match token.kind with
  | .streamEnd => pure none
  | .versionDirective | .tagDirective .. | .documentStart => do
    let p ← directives (p.tokens.length + 1) p false
    let token ← p.peek
    if token.kind = TokenKind.documentStart then
      pure (some ((p.skip.defer .documentEnd).expect .documentContent))
    else fail token .documentStartExpected
  | _ => pure (some (p.defer .documentEnd))

end Parser

def eventsOf (tokens : List Token) (failure : Option SyntaxFailure) :
    List Event × Option SyntaxFailure :=
  match Parser.start { tokens := tokens.tail, failure } with
  | .error failure => ([], some failure)
  | .ok none => ([], none)
  | .ok (some p) => p.events (6 * (tokens.length + 2))

end RuleTidy.Yaml
