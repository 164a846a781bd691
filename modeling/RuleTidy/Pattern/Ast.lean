import RuleTidy.Json.Reader.Value
import RuleTidy.Json.Text

/-! Syntax trees of patterns. A tree is dumped as JSON, and two trees are equal when their dumps are.
Of the dump only the shapes of the top-level statements are known: `return e`, `e` and `x = e`. All
else stays JSON. -/

namespace RuleTidy.Pattern

inductive Expression where
  /-- `target = value`. -/
  | assign (target : Json) (value : Expression)
  | other (json : Json)

inductive Statement where
  | return (value : Option Expression)
  /-- An expression that stands for its effect. -/
  | expression (value : Expression)
  | other (json : Json)

namespace Expression

def ofJson : Json → Expression
  -- the operator does not matter
  | .object [("Assign", .array [target, _, value])] => .assign target (ofJson value)
  | json => .other json

protected def beq : Expression → Expression → Bool
  | .assign target value, .assign target' value' => target == target' && value.beq value'
  | .other json, .other json' => json == json'
  | _, _ => false

instance : BEq Expression := ⟨Expression.beq⟩

end Expression

namespace Statement

/-- The returned expression is marked by the name `some` in the second item. -/
def ofJson (json : Json) : Statement :=
  match json with
  | .object [("Return", .array parts)] =>
    .return (parts[1]?.bind (·.get? "some") |>.map Expression.ofJson)
  | .object [("ExprStmt", .array [])] => .other json
  | .object [("ExprStmt", .array (first :: _))] => .expression (.ofJson first)
  | .object [("ExprStmt", value)] => .expression (.ofJson value)
  | json => .other json

protected def beq : Statement → Statement → Bool
  | .return none, .return none => true
  | .return (some value), .return (some value') => value == value'
  | .expression value, .expression value' => value == value'
  | .other json, .other json' => json == json'
  | _, _ => false

instance : BEq Statement := ⟨Statement.beq⟩

def returned? : Statement → Option Expression
  | .return value => value
  | _ => none

end Statement

/-- The top-level statements of a dump: a list of statements, a single one, or an expression. -/
def statementsOf : Json → List Statement
  | .object [("Ss", .array statements)] => statements.map .ofJson
  | .object [("Pr", .array statements)] => statements.map .ofJson
  | .object [("S", statement)] => [.ofJson statement]
  | .object [("E", expression)] => [.expression (.ofJson expression)]
  | _ => []

structure Ast where
  dump : Json

namespace Ast

instance : BEq Ast := ⟨fun a b => a.dump == b.dump⟩

def statements (ast : Ast) : List Statement := statementsOf ast.dump

def leading (ast : Ast) : List Statement := ast.statements.dropLast

def last? (ast : Ast) : Option Statement := ast.statements.getLast?

def parse (text : String) : Except Json.ReadError Ast := (Json.parse text).map .mk

end Ast

end RuleTidy.Pattern
