import RuleTidy.Json.Fault
import RuleTidy.Text.Utf8

/-! Readers of JSON text. A reader takes characters from the front of a text. Where it fails it
tells what is wrong and what was left of the text, so that the fault has a place. -/

namespace RuleTidy.Json

/-- A fault, with the text that was left when it was found. The fault lies `ahead` bytes behind the
start of that text. A fault that is not `placed` concerns a list or an object as a whole, and lies
where that one ends. -/
structure Failure where
  fault : Fault
  rest : List Char
  ahead : Nat
  placed : Bool

abbrev Reader := StateT (List Char) (Except Failure)

namespace Reader

def rest : Reader (List Char) := get

def fail {α : Type} (fault : Fault) : Reader α := fun rest => .error ⟨fault, rest, 0, true⟩

/-- Fails behind the first byte of the next character, or at the end of the text. -/
def failAhead {α : Type} (fault : Fault) : Reader α := fun rest =>
  .error ⟨fault, rest, if rest.isEmpty then 0 else 1, true⟩

def failAround {α : Type} (fault : Fault) : Reader α := fun rest => .error ⟨fault, rest, 0, false⟩

def drop (n : Nat) : Reader Unit := modify (·.drop n)

def isSpace (c : Char) : Bool := c = ' ' || c = '\n' || c = '\t' || c = '\r'

def skipSpace : Reader Unit := modify (·.dropWhile isSpace)

def peek? : Reader (Option Char) := return (← rest).head?

def peekToken? : Reader (Option Char) := do
  skipSpace
  peek?

def digits : Reader (List Char) := do
  let taken := (← rest).takeWhile Char.isDigit
  drop taken.length
  return taken

def word : List Char → Reader Unit
  | [] => pure ()
  | c :: cs => do
    match ← peek? with
    | none => fail .endInValue
    | some d =>
      if d = c then
        drop 1
        word cs
      else failAhead .wordExpected

/-! ### Strings -/

def simpleEscape? : Char → Option Char
  | '"' => some '"'
  | '\\' => some '\\'
  | '/' => some '/'
  | 'b' => some '\x08'
  | 'f' => some '\x0c'
  | 'n' => some '\n'
  | 'r' => some '\r'
  | 't' => some '\t'
  | _ => none

def hexQuad : Reader Nat := fun rest =>
  if Text.Utf8.byteLength rest < 4 then .error ⟨.endInString, [], 0, true⟩
  else match Text.hexNumber? (rest.take 4) with
    | some n => .ok (n, rest.drop 4)
    | none => .error ⟨.escapeInvalid, rest, 4, true⟩

def isLeadingSurrogate (n : Nat) : Bool := 0xD800 ≤ n && n < 0xDC00

def isTrailingSurrogate (n : Nat) : Bool := 0xDC00 ≤ n && n < 0xE000

def surrogateMark (c : Char) : Reader Unit := do
  match ← peek? with
  | none => fail .endInString
  | some d => if d = c then drop 1 else failAhead .surrogateUnpaired

/-- The character of a hexadecimal escape, behind its `u`. Characters beyond the basic plane are
written as two surrogates. -/
def hexEscape : Reader Char := do
  let n ← hexQuad
  if isTrailingSurrogate n then fail .surrogateMisplaced
  else if isLeadingSurrogate n then
    surrogateMark '\\'
    surrogateMark 'u'
    let m ← hexQuad
    if isTrailingSurrogate m then
      return Char.ofNat (0x10000 + (n - 0xD800) * 0x400 + (m - 0xDC00))
    else fail .surrogateMisplaced
  else return Char.ofNat n

def escape : Reader Char := do
  match ← peek? with
  | none => fail .endInString
  | some 'u' => do
    drop 1
    hexEscape
  | some c =>
    match simpleEscape? c with
    | some d => do
      drop 1
      return d
    | none => failAhead .escapeInvalid

def stringTail : Nat → Reader (List Char)
  | 0 => fail .endInString
  | fuel + 1 => do
    match ← peek? with
    | none => fail .endInString
    | some '"' => do
      drop 1
      return []
    | some '\\' => do
      drop 1
      let c ← escape
      return c :: (← stringTail fuel)
    | some c =>
      if c.toNat < 0x20 then failAhead .controlCharacter
      else do
        drop 1
        return c :: (← stringTail fuel)

def stringBody : Reader String := do
  return .ofList (← stringTail ((← rest).length + 1))

/-! ### Lists and objects -/

def nextItem (first : Bool) : Reader Bool := do
  match ← peekToken? with
  | none => fail .endInList
  | some ']' => return false
  | some c =>
    if first then return true
    else if c = ',' then
      drop 1
      match ← peekToken? with
      | none => fail .endInValue
      | some ']' => failAhead .commaLeft
      | some _ => return true
    else failAhead .listEndExpected

def nextName (first : Bool) : Reader (Option String) := do
  match ← peekToken? with
  | none => fail .endInObject
  | some '\x7d' => return none
  | some c =>
    if first then
      if c = '"' then
        drop 1
        return some (← stringBody)
      else failAhead .keyNotString
    else if c = ',' then
      drop 1
      match ← peekToken? with
      | none => fail .endInValue
      | some '"' => do
        drop 1
        return some (← stringBody)
      | some '\x7d' => failAhead .commaLeft
      | some _ => failAhead .keyNotString
    else failAhead .objectEndExpected

def colon : Reader Unit := do
  match ← peekToken? with
  | none => fail .endInObject
  | some ':' => drop 1
  | some _ => failAhead .colonExpected

def closeList : Reader Unit := do
  match ← peekToken? with
  | none => fail .endInList
  | some ']' => drop 1
  | some ',' => do
    drop 1
    match ← peekToken? with
    | some ']' => failAhead .commaLeft
    | _ => failAhead .charactersLeft
  | some _ => failAhead .charactersLeft

def closeObject : Reader Unit := do
  match ← peekToken? with
  | none => fail .endInObject
  | some '\x7d' => drop 1
  | some ',' => failAhead .commaLeft
  | some _ => failAhead .charactersLeft

def reach (close : Reader Unit) (rest : List Char) : List Char :=
  match close rest with
  | .ok ((), rest) => rest
  | .error failure => failure.rest

/-- Reads the inside of a list or an object and then its end. Faults that concern it as a whole are
placed behind as much of the end as stands there. -/
def enclosed {α : Type} (inside : Reader α) (close : Reader Unit) : Reader α := fun rest =>
  match inside rest with
  | .ok (value, rest) =>
    match close rest with
    | .ok ((), rest) => .ok (value, rest)
    | .error failure => .error failure
  | .error failure =>
    if failure.placed then .error failure
    else .error ⟨failure.fault, reach close failure.rest, 0, true⟩

def finish : Reader Unit := do
  match ← peekToken? with
  | none => pure ()
  | some _ => failAhead .charactersLeft

def run {α : Type} (reader : Reader α) (text : String) : Except ReadError α :=
  let cs := text.toList
  match (do let value ← reader; finish; return value : Reader α) cs with
  | .ok (value, _) => .ok value
  | .error failure =>
    let bytes := text.toUTF8.data.toList
    .error (.atByte failure.fault bytes (bytes.length - Text.Utf8.byteLength failure.rest + failure.ahead))

end Reader

end RuleTidy.Json
