import RuleTidy.Report.Diagnostic
import RuleTidy.Yaml.Path

/-! The rules of a rule file: the items of the sequence under the key `rules` at the root. -/

namespace RuleTidy

open Report Yaml

structure Rule where
  index : Nat
  node : Yaml.Node

namespace Rule

def patternOperators : List String :=
  ["pattern", "pattern-not", "pattern-inside", "pattern-not-inside"]

def listOperators : List String := ["pattern-either", "patterns"]

def path (rule : Rule) : Path := [.key "rules", .index rule.index]

def id? (rule : Rule) : Option String := (rule.node.get? "id").bind (·.text?)

def languages (rule : Rule) : List String :=
  (((rule.node.get? "languages").bind (·.items?)).getD []).filterMap (·.text?)

def language? (rule : Rule) : Option String := rule.languages.head?

def problem (rule : Rule) (node : Node) (message : String) (help : Option String := none) :
    Diagnostic :=
  let name := match rule.id? with
    | some id => s!"rule `{id}`"
    | none => s!"rule #{rule.index}"
  { level := .error, shortMessage := s!"{name}: {message}", spans := [node.span], help }

def missingRules (root : Node) : Diagnostic :=
  { level := .error
    shortMessage := "missing top-level `rules` sequence"
    spans := [root.span]
    help := some "rule files must contain `rules:` followed by a list of rules" }

def all (root : Node) : Except Diagnostic (List Rule) :=
  match (root.get? "rules").bind (·.items?) with
  | none => .error (missingRules root)
  | some items => .ok (items.zipIdx.map fun (node, index) => ⟨index, node⟩)

end Rule

end RuleTidy
