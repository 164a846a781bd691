import RuleTidy.Json.Fault
import RuleTidy.Pattern.Ast
import RuleTidy.Platform.Fault

/-! Where the syntax trees of patterns come from, and why there may be none. -/

namespace RuleTidy.Pattern

inductive LookupError where
  /-- The program that parses patterns does not start. -/
  | spawn (executable : String) (fault : Platform.Fault)
  /-- There is no place for the file that hands over a pattern. -/
  | stage (fault : Platform.Fault)
  /-- The program fails. A status of −1 tells of a signal. -/
  | exit (executable language : String) (status : Int) (stderr : String)
  /-- The output of the program makes no sense. -/
  | decode (message : String)
  /-- Only one file can be dumped at a time. -/
  | targetCount (count : Nat)
  deriving DecidableEq

namespace LookupError

private def reportHint : String :=
  "this is likely a bug, please file an issue with the failing pattern"

def message : LookupError → String
  | .spawn executable fault => s!"failed to run {executable}: {fault.message}"
  | .stage fault => s!"failed to stage pattern in a temporary file: {fault.message}"
  | .exit executable language status stderr =>
    s!"{executable} exited with status {status} for {language} input: {stderr}; {reportHint}"
  | .decode message => s!"could not decode pattern dump: {message}; {reportHint}"
  | .targetCount count => s!"exactly one target file is required to dump an AST (got {count})"

end LookupError

/-- A source of syntax trees, by language and pattern. Each request is an effect of `m`; a source
over `Id` is a function. -/
abbrev AstSource (m : Type → Type) := String → String → ExceptT LookupError m Ast

def decodeDump (dump : String) : Except LookupError Ast :=
  (Ast.parse dump).mapError fun e => .decode e.message

end RuleTidy.Pattern
