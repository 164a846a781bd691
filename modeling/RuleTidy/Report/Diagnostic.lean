import RuleTidy.Source.Registry
import RuleTidy.Source.Span

/-! Messages about places in source texts. -/

namespace RuleTidy.Report

open Source

inductive Level where
  | error
  | warning
  | info
  deriving DecidableEq

def Level.render : Level → String
  | .error => "error"
  | .warning => "warning"
  | .info => "info"

structure ContextWindow where
  before : UInt32 := 0
  after : UInt32 := 0
  deriving DecidableEq

/-- A message about the places `spans`, in the order in which they are shown. -/
structure Diagnostic where
  level : Level
  shortMessage : String
  longMessage : Option String := none
  spans : List Span := []
  help : Option String := none
  deriving DecidableEq

end RuleTidy.Report
