import RuleTidy.Yaml.Token

/-! The events of a YAML document: its nodes in the order of the text, with collections between
their start and their end. -/

namespace RuleTidy.Yaml

structure Tag where
  handle : String
  suffix : String
  deriving DecidableEq

/-- Anchors are numbered from one in the order in which they are set. -/
inductive EventKind where
  | scalar (style : ScalarStyle) (text : String) (anchor : Option Nat) (tag : Option Tag)
  | alias (anchor : Nat)
  | sequenceStart (anchor : Option Nat)
  | sequenceEnd
  | mappingStart (anchor : Option Nat)
  | mappingEnd
  deriving DecidableEq

structure Event where
  kind : EventKind
  start : Nat
  stop : Nat
  deriving DecidableEq

def Event.emptyScalar (start stop : Nat) : Event := ⟨.scalar .plain "" none none, start, stop⟩

end RuleTidy.Yaml
