import RuleTidy.Json.Text
import RuleTidy.Yaml.ParseError

/-! Configurations and JSON values. Every JSON value of bounded depth is a configuration, and every
configuration has a JSON value, in which keys have become text. -/

namespace RuleTidy.Yaml.Node

open Source

mutual

def ofJsonWithin (span : Span) (levels : Nat) : Json → Option Node
  | .null => some (.scalar ⟨span, .synthetic⟩ .null)
  | .bool b => some (.scalar ⟨span, .synthetic⟩ (.bool b))
  | .number n => some (.scalar ⟨span, .synthetic⟩ (.number n))
  | .string text => some (.ofString text span)
  | .array items =>
    match levels with
    | 0 => none
    | levels + 1 => return .sequence ⟨span, .synthetic⟩ (← ofItemsWithin span levels items)
  | .object entries =>
    match levels with
    | 0 => none
    | levels + 1 => return .mapping ⟨span, .synthetic⟩ (← ofEntriesWithin span levels entries)

def ofItemsWithin (span : Span) (levels : Nat) : List Json → Option (List Node)
  | [] => some []
  | item :: rest => return (← ofJsonWithin span levels item) :: (← ofItemsWithin span levels rest)

def ofEntriesWithin (span : Span) (levels : Nat) :
    List (String × Json) → Option (List (Node × Node))
  | [] => some []
  | (name, value) :: rest =>
    return (.ofString name span, ← ofJsonWithin span levels value) ::
      (← ofEntriesWithin span levels rest)

end

def ofJson (span : Span) (json : Json) : Except ParseError Node :=
  (ofJsonWithin span maxDepth json).elim (.error .nestingTooDeep) .ok

def scalarJson : Scalar → Json
  | .null => .null
  | .bool b => .bool b
  | .number n => .number n
  | .string text => .string text

mutual

/-- The value of a configuration. Of entries whose keys have the same text, the last counts. -/
def toJson : Node → Json
  | .scalar _ value => scalarJson value
  | .sequence _ items => .array (itemsJson items)
  | .mapping _ entries => .ofEntries (entriesJson entries)

def keyText : Node → String
  | .scalar _ value => value.display
  | .sequence _ items => (Json.array (itemsJson items)).render
  | .mapping _ entries => (Json.ofEntries (entriesJson entries)).render

def itemsJson : List Node → List Json
  | [] => []
  | item :: rest => toJson item :: itemsJson rest

def entriesJson : List (Node × Node) → List (String × Json)
  | [] => []
  | (key, value) :: rest => (keyText key, toJson value) :: entriesJson rest

end

end RuleTidy.Yaml.Node
