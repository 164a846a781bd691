import RuleTidy.Rule.Alternatives
import RuleTidy.Rule.Check

/-! The lists of alternatives that are tidied, and what is left alone. Rules with problems are left
alone, and so are lists in brackets. -/

namespace RuleTidy.Tidy

open Report Yaml

structure Target where
  language : String
  path : Path
  deriving DecidableEq

/-- A list of alternatives as a target, or the reason why it is none. -/
def targetOrNotice (root : Node) (language : String) (path : Path) : Diagnostic ⊕ Target :=
  -- in brackets no item has a line of its own
  match (root.at? path).filter (·.layout = .flow) with
  | some list => .inl {
      level := .warning
      shortMessage := s!"`{path.render}` is written in flow style and was not rewritten"
      spans := [list.span]
      help := some "write the alternatives as a block list to enable autofix" }
  | none => .inr ⟨language, path⟩

def ofRule (root : Node) (rule : Rule) : List (Diagnostic ⊕ Target) :=
  match rule.problems with
  | [] =>
    match rule.language? with
    | some language => rule.alternatives.map (targetOrNotice root language)
    | none => []
  | problems => problems.map .inl

/-- The targets of a file and the reasons against others, in order. -/
def survey (root : Node) : List (Diagnostic ⊕ Target) :=
  match Rule.all root with
  | .error d => [.inl d]
  | .ok rules => rules.flatMap (ofRule root)

def targets (root : Node) : List Target := (survey root).filterMap (·.getRight?)

def skipped (root : Node) : List Diagnostic := (survey root).filterMap (·.getLeft?)

end RuleTidy.Tidy
