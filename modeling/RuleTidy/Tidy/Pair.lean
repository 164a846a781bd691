import RuleTidy.Pattern.Relation
import RuleTidy.Text.Escape
import RuleTidy.Tidy.Target

/-! Related alternatives of a list, and how they are reported. -/

namespace RuleTidy.Tidy

open Pattern Report Yaml

/-- Two alternatives, the first before the second, that are not different. -/
structure Pair where
  first : Nat
  second : Nat
  relation : Relation
  deriving DecidableEq

def patternText? (alternative : Node) : Option String :=
  (alternative.get? "pattern").bind (·.text?)

def patternsOf (items : List Node) : List (Nat × String) :=
  items.zipIdx.filterMap fun (item, index) => (patternText? item).map (index, ·)

variable {m : Type → Type} [Monad m]

def firstRelatedTo (asts : AstSource m) (language : String) (first : Nat × String) :
    List (Nat × String) → ExceptT LookupError m (Option Pair)
  | [] => return none
  | second :: rest => do
    match ← classify asts language first.2 second.2 with
    | .different => firstRelatedTo asts language first rest
    | relation => return some ⟨first.1, second.1, relation⟩

def firstRelatedAmong (asts : AstSource m) (language : String) :
    List (Nat × String) → ExceptT LookupError m (Option Pair)
  | [] => return none
  | first :: rest => do
    match ← firstRelatedTo asts language first rest with
    | some pair => return some pair
    | none => firstRelatedAmong asts language rest

def firstRelated (asts : AstSource m) (root : Node) (target : Target) :
    ExceptT LookupError m (Option Pair) :=
  match (root.at? target.path).bind (·.items?) with
  | none => return none
  | some items => firstRelatedAmong asts target.language (patternsOf items)

def patternPath (list : Path) (index : Nat) : Path := list ++ [.index index, .key "pattern"]

def finding (root : Node) (list : Path) (pair : Pair) : Diagnostic :=
  let spans := [pair.first, pair.second].filterMap fun index =>
    (root.at? (patternPath list index)).map (·.span)
  match pair.relation with
  | .returnPaired _ rewritten => {
      level := .warning
      shortMessage := s!"alternatives of `{list.render}` differ only by a `return`"
      spans
      help := some
        ("keep a single alternative with the pattern `" ++ Text.display rewritten ++ "`") }
  | _ => {
      level := .warning
      shortMessage := s!"alternatives of `{list.render}` are equivalent"
      spans
      help := some "remove the duplicate alternative" }

end RuleTidy.Tidy
