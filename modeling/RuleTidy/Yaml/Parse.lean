import RuleTidy.Source.Registry
import RuleTidy.Yaml.Event.Parser
import RuleTidy.Yaml.Node.OfEvents
import RuleTidy.Yaml.Token.Scanner

/-! The configuration that a text holds. -/

namespace RuleTidy.Yaml

open Source

/-- A fault of the text as an error of the configuration. Brackets and braces have their own limit
of nesting, which is the same as that of all collections. -/
def ParseError.ofFailure (source : SourceText) (failure : SyntaxFailure) : ParseError :=
  if failure.fault = .flowTooDeep then .nestingTooDeep
  else .malformed failure.fault (.ofOffset source.text failure.offset) source.origin.file

def SourceText.emptyRoot (source : SourceText) : Node := .scalar ⟨source.span 0 0, .scalar .plain⟩ .null

/-- The first document of a text. What its nodes get wrong comes before a fault of the text that
lies behind them. -/
def SourceText.parse (source : SourceText) : Except ParseError Node := do
  let (tokens, tokenFailure) := tokensOf source.text
  let (events, failure) := eventsOf tokens tokenFailure
  let root ← Node.ofEvents source events
  match failure with
  | some failure => .error (.ofFailure source failure)
  | none => return root.getD source.emptyRoot

def parse (registry : Registry) (text : String) (file : Option String) :
    Except ParseError Node × Registry :=
  let (digest, registry) := registry.register text
  (SourceText.parse ⟨⟨file, digest⟩, text.toList⟩, registry)

end RuleTidy.Yaml
