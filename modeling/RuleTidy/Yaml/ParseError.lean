import RuleTidy.Report.Diagnostic
import RuleTidy.Yaml.Node
import RuleTidy.Yaml.SyntaxFault

/-! Why a text, or a value, does not become a configuration. -/

namespace RuleTidy.Yaml

open Source Report

def maxDepth : Nat := 255

inductive ParseError where
  /-- The text is not YAML. -/
  | malformed (fault : SyntaxFault) (position : Position) (file : Option String)
  /-- More than `maxDepth` collections stand inside one another. -/
  | nestingTooDeep
  /-- An alias stands where the node that it names is not complete. -/
  | unknownAnchor (span : Span)
  deriving DecidableEq

namespace ParseError

def message : ParseError → String
  | .malformed fault _ _ => s!"invalid YAML: {fault.message}"
  | .nestingTooDeep => s!"nesting exceeds the limit of {maxDepth} levels"
  | .unknownAnchor _ => "alias refers to an unknown anchor"

/-- The place of an error. That of a malformed text names no digest, so its report shows no
source line. -/
def span? : ParseError → Option Span
  | .malformed _ position file => some ⟨position, position, file, none⟩
  | .nestingTooDeep => none
  | .unknownAnchor span => some span

def toDiagnostic (e : ParseError) : Diagnostic :=
  { level := .error, shortMessage := e.message, spans := e.span?.toList }

end ParseError

end RuleTidy.Yaml
