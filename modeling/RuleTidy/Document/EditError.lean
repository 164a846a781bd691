import RuleTidy.Yaml.Path

/-! Why a document refuses an edit. -/

namespace RuleTidy.Document

open Yaml

/-- Ways of writing that cannot be edited without laying the text out anew. -/
inductive LayoutProblem where
  | notBlockSequence
  | lastItem
  | foreignNode
  | entryWithoutLine
  | sharedLine
  | scalarNotWritten
  | headerMissing
  deriving DecidableEq

def LayoutProblem.message : LayoutProblem → String
  | .notBlockSequence => "only block sequences can be edited"
  | .lastItem => "removal would empty the sequence"
  | .foreignNode => "node was not parsed from this document"
  | .entryWithoutLine => "sequence entry does not begin its own line"
  | .sharedLine => "sequence entries share a line"
  | .scalarNotWritten => "scalar was not parsed from source"
  | .headerMissing => "block scalar header not found"

inductive EditError where
  | pathNotFound (path : Path)
  | notASequence (path : Path)
  | notAScalar (path : Path)
  | indexOutOfRange (path : Path) (index length : Nat)
  | unsupportedLayout (path : Path) (problem : LayoutProblem)
  | conflict (path : Path)
  deriving DecidableEq

def EditError.message : EditError → String
  | .pathNotFound path => s!"no node at path `{path.render}`"
  | .notASequence path => s!"node at `{path.render}` is not a sequence"
  | .notAScalar path => s!"node at `{path.render}` is not a scalar"
  | .indexOutOfRange path index length =>
    s!"index {index} is out of range for `{path.render}` with {length} items"
  | .unsupportedLayout path problem => s!"cannot edit `{path.render}`: {problem.message}"
  | .conflict path => s!"edit at `{path.render}` conflicts with an earlier edit"

end RuleTidy.Document
