import RuleTidy.Document.EditError
import RuleTidy.Pattern.Lookup
import RuleTidy.Yaml.ParseError

/-! What can stop the tidying of a rule file. -/

namespace RuleTidy.Tidy

open Document Pattern Report Source Yaml

inductive Inconsistency where
  | alternativeMissing (list : Path) (index : Nat)
  /-- Two alternatives with the same tree hold different values. -/
  | valuesDiffer (list : Path) (first second : Nat)
  | relationMissing (list : Path) (first second : Nat)
  | notAPattern (pattern : Path)
  | withoutReturn (pattern : Path)
  | notReturning (pattern : Path)
  /-- As many edits as are allowed leave related alternatives. -/
  | stillRelated (list : Path) (passes : Nat)
  deriving DecidableEq

def Inconsistency.message : Inconsistency → String
  | .alternativeMissing list index => s!"`{list.render}` has no alternative {index}"
  | .valuesDiffer list first second =>
    s!"alternatives {first} and {second} of `{list.render}` were classified as identical but " ++
      "hold different values"
  | .relationMissing list first second =>
    s!"no relation to apply between alternatives {first} and {second} of `{list.render}`"
  | .notAPattern pattern => s!"`{pattern.render}` is not a pattern string"
  | .withoutReturn pattern =>
    s!"`{pattern.render}` was paired as a return pattern but has no `return`"
  | .notReturning pattern => s!"`{pattern.render}` does not end in a return statement"
  | .stillRelated list passes =>
    s!"`{list.render}` still has related alternatives after {passes} passes"

inductive Error where
  /-- The file is not a configuration. -/
  | parse (e : ParseError)
  /-- A pattern has no tree. -/
  | lookup (e : LookupError)
  /-- The document refuses an edit. -/
  | edit (e : EditError)
  /-- To go on could damage the file. -/
  | inconsistent (cause : Inconsistency) (span : Option Span)
  /-- The file cannot be read or written. -/
  | access (path : String) (fault : Platform.Fault)
  deriving DecidableEq

namespace Error

def message : Error → String
  | .parse e => e.message
  | .lookup e => e.message
  | .edit e => e.message
  | .inconsistent cause _ => s!"internal consistency check failed: {cause.message}"
  | .access path fault => s!"failed to access {path}: {fault.message}"

def isFatal : Error → Bool
  | .inconsistent .. => true
  | _ => false

def toDiagnostic : Error → Diagnostic
  | .parse e => e.toDiagnostic
  | .inconsistent cause span =>
    { level := .error
      shortMessage := (Error.inconsistent cause span).message
      spans := span.toList }
  | e => { level := .error, shortMessage := e.message }

end Error

end RuleTidy.Tidy
