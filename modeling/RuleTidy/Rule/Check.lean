import RuleTidy.Rule.Basic

/-! The parts of a rule that have to be in order before its patterns are compared. A rule is a
mapping with a list of languages, and the operands of its operators have the right kind. -/

namespace RuleTidy.Rule

open Report Yaml

def languageProblems (rule : Rule) : List Diagnostic :=
  match rule.node.get? "languages" with
  | none =>
    [rule.problem rule.node "rule has no `languages`"
      (some "add a list such as `languages: [python]`")]
  | some node =>
    match node.items? with
    | none | some [] => [rule.problem node "`languages` must be a non-empty list"]
    | some items =>
      (items.filter (·.text?.isNone)).map (rule.problem · "language must be a string")

def operandProblems (rule : Rule) (operator : String) (operand : Node) : List Diagnostic :=
  if operator ∈ patternOperators && operand.text?.isNone then
    [rule.problem operand s!"`{operator}` must be a string"]
  else if operator ∈ listOperators && operand.items?.isNone then
    [rule.problem operand s!"`{operator}` must be a list"]
  else []

def entryProblems (rule : Rule) (entries : List (Node × Node)) : List Diagnostic :=
  entries.flatMap fun (key, value) => rule.operandProblems (key.text?.getD "") value

mutual

/-- The problems of the operands at a node and below it. What lies below comes last item first. -/
def operatorProblems (rule : Rule) : Node → List Diagnostic
  | .scalar .. => []
  | .sequence _ items => itemProblems rule items
  | .mapping _ entries => rule.entryProblems entries ++ listProblems rule entries

def itemProblems (rule : Rule) : List Node → List Diagnostic
  | [] => []
  | item :: rest => itemProblems rule rest ++ operatorProblems rule item

def listProblems (rule : Rule) : List (Node × Node) → List Diagnostic
  | [] => []
  | (key, value) :: rest =>
    listProblems rule rest ++
      if key.text?.getD "" ∈ listOperators && value.items?.isSome then operatorProblems rule value
      else []

end

def problems (rule : Rule) : List Diagnostic :=
  if rule.node.entries?.isNone then [rule.problem rule.node "rule is not a mapping"]
  else rule.languageProblems ++ rule.operatorProblems rule.node

end RuleTidy.Rule
