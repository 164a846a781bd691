import RuleTidy.Yaml.Cursor

/-! The tokens of a YAML text. -/

namespace RuleTidy.Yaml

inductive ScalarStyle where
  | plain
  | singleQuoted
  | doubleQuoted
  | literal
  | folded
  deriving DecidableEq

inductive TokenKind where
  | streamStart
  | streamEnd
  | versionDirective
  | tagDirective (handle uri : String)
  | documentStart
  | documentEnd
  | blockSequenceStart
  | blockMappingStart
  | blockEnd
  | flowSequenceStart
  | flowSequenceEnd
  | flowMappingStart
  | flowMappingEnd
  | blockEntry
  | flowEntry
  | key
  | value
  | alias (name : String)
  | anchor (name : String)
  | tag (handle suffix : String)
  | scalar (style : ScalarStyle) (text : String)
  deriving DecidableEq

/-- A token with the offsets between which it stands. Some tokens also cover the blanks and the
comment after them, and those that no character writes are empty. -/
structure Token where
  kind : TokenKind
  start : Nat
  stop : Nat
  deriving DecidableEq

def Token.empty (kind : TokenKind) (at_ : Nat) : Token := ⟨kind, at_, at_⟩

end RuleTidy.Yaml
