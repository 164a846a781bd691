import RuleTidy.Rule.Basic

/-! The lists of alternatives of a rule: the sequences under the key `pattern-either`, at any depth
of operators. -/

namespace RuleTidy.Rule

open Yaml

mutual

def alternativesBelow : Node → List Path
  | .scalar .. => []
  | .sequence _ items => alternativesOfItems 0 items
  | .mapping _ entries => alternativesOfEntries entries

def alternativesOfItems (index : Nat) : List Node → List Path
  | [] => []
  | item :: rest =>
    (alternativesBelow item).map (.index index :: ·) ++ alternativesOfItems (index + 1) rest

def alternativesOfEntries : List (Node × Node) → List Path
  | [] => []
  | (key, value) :: rest =>
    (match key.text? with
      | none => []
      | some name =>
        if name ∈ listOperators && value.items?.isSome then
          (if name = "pattern-either" then [[.key name]] else []) ++
            (alternativesBelow value).map (.key name :: ·)
        else []) ++ alternativesOfEntries rest

end

/-- Longer paths come first, and paths of one length are ordered by their text. -/
def precedes (p q : Path) : Bool :=
  p.length > q.length || (p.length = q.length && p.render < q.render)

def insertPath (path : Path) : List Path → List Path
  | [] => [path]
  | other :: rest =>
    if precedes path other then path :: other :: rest else other :: insertPath path rest

def innermostFirst (paths : List Path) : List Path :=
  paths.foldl (fun sorted path => insertPath path sorted) []

def alternatives (rule : Rule) : List Path :=
  innermostFirst ((alternativesBelow rule.node).map (rule.path ++ ·))

end RuleTidy.Rule
