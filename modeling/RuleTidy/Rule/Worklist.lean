import RuleTidy.Rule.Alternatives
import RuleTidy.Rule.Check

/-! The problems of a rule and its lists of alternatives, found with a stack of nodes that are still
to be visited. The node on top is visited next, and what lies below it is put on the stack in its
order. -/

namespace RuleTidy.Rule

open Report Yaml

def listOperator? (key value : Node) : Option String :=
  key.text?.filter fun name => name ∈ listOperators && value.items?.isSome

/-- A node to be visited, with the path to it and the number of steps that it lies below the rule. -/
structure Stop where
  node : Node
  path : Path
  depth : Nat

namespace Stop

def under (stop : Stop) (segment : Segment) (node : Node) : Stop :=
  ⟨node, stop.path ++ [segment], stop.depth + 1⟩

@[simp] theorem node_under (stop : Stop) (segment : Segment) (node : Node) :
    (stop.under segment node).node = node := rfl

def operands (stop : Stop) (entries : List (Node × Node)) : List Stop :=
  entries.filterMap fun (key, value) =>
    (listOperator? key value).map fun name => stop.under (.key name) value

theorem operands_cons (stop : Stop) (key value : Node) (rest : List (Node × Node)) :
    stop.operands ((key, value) :: rest) =
      ((listOperator? key value).map fun name => stop.under (.key name) value).toList ++
        stop.operands rest := by
  unfold operands
  cases h : listOperator? key value <;> simp [h]

/-- What lies one step below: the items of a sequence, and of a mapping the operands that are
lists. -/
def below (stop : Stop) : List Stop :=
  match stop.node with
  | .scalar .. => []
  | .sequence _ items => items.zipIdx.map fun (item, index) => stop.under (.index index) item
  | .mapping _ entries => stop.operands entries

def lists (stop : Stop) : List (Nat × Path) :=
  (stop.node.entries?.getD []).filterMap fun (key, value) =>
    ((listOperator? key value).filter (· = "pattern-either")).map fun name =>
      (stop.depth, stop.path ++ [.key name])

noncomputable def size : List Stop → Nat
  | [] => 0
  | stop :: rest => sizeOf stop.node + size rest

theorem size_append (a b : List Stop) : size (a ++ b) = size a + size b := by
  induction a with
  | nil => rw [List.nil_append, size, Nat.zero_add]
  | cons stop rest ih => rw [List.cons_append, size, size, ih, Nat.add_assoc]

theorem size_reverse (stack : List Stop) : size stack.reverse = size stack := by
  induction stack with
  | nil => rfl
  | cons stop rest ih =>
      rw [List.reverse_cons, size_append, ih, size, size, size]
      omega

theorem size_items_le (stop : Stop) (items : List Node) (start : Nat) :
    size ((items.zipIdx start).map fun (item, index) => stop.under (.index index) item) ≤
      sizeOf items := by
  induction items generalizing start with
  | nil => exact Nat.zero_le _
  | cons item rest ih =>
      have hrest := ih (start + 1)
      rw [List.zipIdx_cons, List.map_cons, size, node_under, List.cons.sizeOf_spec]
      omega

theorem size_operands_le (stop : Stop) (entries : List (Node × Node)) :
    size (stop.operands entries) ≤ sizeOf entries := by
  induction entries with
  | nil => exact Nat.zero_le _
  | cons entry rest ih =>
      obtain ⟨key, value⟩ := entry
      rw [operands_cons, size_append, List.cons.sizeOf_spec, Prod.mk.sizeOf_spec]
      cases listOperator? key value with
      | none =>
          rw [Option.map_none, Option.toList_none, size]
          omega
      | some name =>
          rw [Option.map_some, Option.toList_some, size, size, node_under]
          omega

theorem size_below_lt (stop : Stop) : size stop.below < sizeOf stop.node := by
  unfold below
  cases stop.node with
  | scalar info value =>
      rw [Node.scalar.sizeOf_spec, size]
      omega
  | sequence info items =>
      rw [Node.sequence.sizeOf_spec]
      exact Nat.lt_of_le_of_lt (size_items_le stop items 0) (by omega)
  | mapping info entries =>
      rw [Node.mapping.sizeOf_spec]
      exact Nat.lt_of_le_of_lt (size_operands_le stop entries) (by omega)

end Stop

def visited : List Stop → List Stop
  | [] => []
  | stop :: rest => stop :: visited (stop.below.reverse ++ rest)
termination_by stack => Stop.size stack
decreasing_by
  have hlt := Stop.size_below_lt stop
  rw [Stop.size_append, Stop.size_reverse, Stop.size]
  omega

def start (rule : Rule) : Stop := ⟨rule.node, rule.path, 0⟩

def check (rule : Rule) : List Diagnostic :=
  if rule.node.entries?.isNone then [rule.problem rule.node "rule is not a mapping"]
  else rule.languageProblems ++
    (visited [rule.start]).flatMap fun stop => rule.entryProblems (stop.node.entries?.getD [])

/-- Whether a list may stand before another one: it is deeper, or as deep with a text of its path
that is no greater. -/
def deepestFirst (a b : Nat × Path) : Bool :=
  a.1 > b.1 || (a.1 = b.1 && a.2.render ≤ b.2.render)

def found (rule : Rule) : List (Nat × Path) := (visited [rule.start]).flatMap (·.lists)

def inOrder (found : List (Nat × Path)) : List Path := (found.mergeSort deepestFirst).map (·.2)

def lists (rule : Rule) : List Path := inOrder rule.found

end RuleTidy.Rule
