import RuleTidy.Pattern.Lookup
import RuleTidy.Pattern.Return

/-! How two patterns are related. Patterns with equal trees are the same pattern. A pattern that
ends in `return e` covers one that ends in `e` or `x = e` once the keyword is taken away, which is
checked on the tree of what remains. -/

namespace RuleTidy.Pattern

inductive Side where
  | first
  | second
  deriving DecidableEq

namespace Side

def other : Side → Side
  | .first => .second
  | .second => .first

def pick {α : Type} (side : Side) (first second : α) : α :=
  match side with
  | .first => first
  | .second => second

@[simp] theorem other_other (side : Side) : side.other.other = side := by cases side <;> rfl

end Side

inductive Relation where
  | same
  /-- The pattern on a side returns what the other one evaluates or assigns. The text is that of the
  first without its keyword. -/
  | returnPaired (withReturn : Side) (rewritten : String)
  | different
  deriving DecidableEq

def Statement.yields (expression : Expression) : Statement → Bool
  | .expression (.assign _ value) => value == expression
  | .expression (.other json) => Expression.other json == expression
  | _ => false

/-- The side that returns an expression, and the expression, when the other side yields it after the
same statements. -/
def returnPairing (first second : Ast) : Option (Side × Expression) :=
  if first.leading != second.leading then none
  else
    match first.last?, second.last? with
    | some (.return (some e)), some s => if s.yields e then some (.first, e) else none
    | some s, some (.return (some e)) => if s.yields e then some (.second, e) else none
    | _, _ => none

/-- The relation of two patterns of a language. The tree of the rewritten pattern is looked up only
when everything else fits. -/
def classify {m : Type → Type} [Monad m] (asts : AstSource m) (language first second : String) :
    ExceptT LookupError m Relation := do
  let a ← asts language first
  let b ← asts language second
  if a == b then return .same
  match returnPairing a b with
  | none => return .different
  | some (side, e) =>
    match stripReturn? (side.pick first second) with
    | none => return .different
    | some rewritten =>
      let c ← asts language rewritten
      if c.statements == (side.pick a b).leading ++ [.expression e] then
        return .returnPaired side rewritten
      else return .different

end RuleTidy.Pattern
