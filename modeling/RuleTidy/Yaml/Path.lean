import RuleTidy.Yaml.Node

/-! Paths from the root of a configuration to a node. A path leads through the first entry of a
key and through the item at an index, and following it and changing what it leads to agree. -/

namespace RuleTidy.Yaml

inductive Segment where
  | key (name : String)
  | index (n : Nat)
  deriving DecidableEq

abbrev Path := List Segment

namespace Path

def renderStep : Segment → String
  | .key name => s!".{name}"
  | .index n => s!"[{n}]"

def render : Path → String
  | [] => ""
  | .key name :: rest => name ++ String.join (rest.map renderStep)
  | path => String.join (path.map renderStep)

end Path

namespace Node

def child? (node : Node) : Segment → Option Node
  | .key name => node.get? name
  | .index n => node.items?.bind (·[n]?)

def at? (node : Node) : Path → Option Node
  | [] => some node
  | segment :: rest => (node.child? segment).bind (at? · rest)

/-- Replaces the value of the first entry whose key is the string `name`. -/
def setEntry (name : String) (value : Node) : List (Node × Node) → List (Node × Node)
  | [] => []
  | (key, old) :: rest =>
    if key.text? = some name then (key, value) :: rest else (key, old) :: setEntry name value rest

def setChild (node : Node) (segment : Segment) (value : Node) : Node :=
  match segment, node with
  | .key name, .mapping info entries => .mapping info (setEntry name value entries)
  | .index n, .sequence info items => .sequence info (items.set n value)
  | _, node => node

def update? (node : Node) (path : Path) (f : Node → Node) : Option Node :=
  match path with
  | [] => some (f node)
  | segment :: rest => do
    let child ← node.child? segment
    return node.setChild segment (← child.update? rest f)

@[simp] theorem at?_nil (node : Node) : node.at? [] = some node := rfl

@[simp] theorem at?_cons (node : Node) (segment : Segment) (rest : Path) :
    node.at? (segment :: rest) = (node.child? segment).bind (·.at? rest) := rfl

theorem at?_append (node : Node) (p q : Path) : node.at? (p ++ q) = (node.at? p).bind (·.at? q) := by
  induction p generalizing node with
  | nil => rfl
  | cons segment rest ih => cases h : node.child? segment <;> simp [h, ih]

end Node

end RuleTidy.Yaml
