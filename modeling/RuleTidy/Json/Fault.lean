import RuleTidy.Text.Digit

/-! What can be wrong with a JSON text, and where. -/

namespace RuleTidy.Json

inductive Fault where
  | endInValue
  | endInList
  | endInObject
  | endInString
  | valueExpected
  | wordExpected
  | colonExpected
  | listEndExpected
  | objectEndExpected
  | keyNotString
  | escapeInvalid
  | numberInvalid
  | numberOutOfRange
  | surrogateUnpaired
  | surrogateMisplaced
  | controlCharacter
  | charactersLeft
  | commaLeft
  | nestingTooDeep
  | fieldMissing (name : String)
  | fieldRepeated (name : String)
  | variantUnknown (name : String) (known : List String)
  /-- The texts describe what stands there and what was expected. -/
  | typeInvalid (found expected : String)
  | valueInvalid (found expected : String)
  | lengthInvalid (found : Nat) (expected : String)
  deriving DecidableEq

namespace Fault

private def quoted (name : String) : String := s!"`{name}`"

def message : Fault → String
  | .endInValue => "EOF while parsing a value"
  | .endInList => "EOF while parsing a list"
  | .endInObject => "EOF while parsing an object"
  | .endInString => "EOF while parsing a string"
  | .valueExpected => "expected value"
  | .wordExpected => "expected ident"
  | .colonExpected => "expected `:`"
  | .listEndExpected => "expected `,` or `]`"
  | .objectEndExpected => "expected `,` or `\x7d`"
  | .keyNotString => "key must be a string"
  | .escapeInvalid => "invalid escape"
  | .numberInvalid => "invalid number"
  | .numberOutOfRange => "number out of range"
  | .surrogateUnpaired => "unexpected end of hex escape"
  | .surrogateMisplaced => "lone leading surrogate in hex escape"
  | .controlCharacter => "control character (\\u0000-\\u001F) found while parsing a string"
  | .charactersLeft => "trailing characters"
  | .commaLeft => "trailing comma"
  | .nestingTooDeep => "recursion limit exceeded"
  | .fieldMissing name => s!"missing field `{name}`"
  | .fieldRepeated name => s!"duplicate field `{name}`"
  | .variantUnknown name known =>
    s!"unknown variant `{name}`, expected one of " ++ ", ".intercalate (known.map quoted)
  | .typeInvalid found expected => s!"invalid type: {found}, expected {expected}"
  | .valueInvalid found expected => s!"invalid value: {found}, expected {expected}"
  | .lengthInvalid found expected => s!"invalid length {found}, expected {expected}"

end Fault

/-- A fault and its place: lines count from one, and the column counts the UTF-8 bytes of the line
that lie before the place. -/
structure ReadError where
  fault : Fault
  line : Nat
  column : Nat
  deriving DecidableEq

namespace ReadError

def message (e : ReadError) : String :=
  s!"{e.fault.message} at line {e.line} column {e.column}"

def atByte (fault : Fault) (bytes : List UInt8) (n : Nat) : ReadError :=
  let before := bytes.take n
  ⟨fault, before.count 10 + 1, (before.reverse.takeWhile (· ≠ 10)).length⟩

end ReadError

end RuleTidy.Json
