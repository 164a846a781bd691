import RuleTidy.Document.Basic
import RuleTidy.Tidy.Error
import RuleTidy.Tidy.Pair

/-! Removal of redundant alternatives. Each list is edited until no pair of its patterns is related.
Of two equal alternatives the second goes. Of a return pair, the alternative with the keyword loses
it, and the other alternative goes. Every edit makes a list shorter by one. -/

namespace RuleTidy.Tidy

open Document Pattern Report Source Yaml

def defaultMaxPasses : Nat := 1000

structure Outcome where
  removed : Nat := 0
  rewritten : Nat := 0
  skipped : List Diagnostic := []

def Outcome.changed (outcome : Outcome) : Bool := outcome.removed > 0 || outcome.rewritten > 0

structure Progress where
  document : Document
  removed : Nat := 0
  rewritten : Nat := 0

def inconsistent {α : Type} (cause : Inconsistency) (span : Option Span := none) :
    Except Error α :=
  .error (.inconsistent cause span)

def alternativeAt (root : Node) (list : Path) (index : Nat) : Except Error Node :=
  match root.at? (list ++ [.index index]) with
  | some node => .ok node
  | none => inconsistent (.alternativeMissing list index)

def dropDuplicate (p : Progress) (list : Path) (first second : Nat) : Except Error Progress := do
  let kept ← alternativeAt p.document.root list first
  let dropped ← alternativeAt p.document.root list second
  if kept != dropped then inconsistent (.valuesDiffer list first second) dropped.span
  let (_, document) ← (p.document.removeItem list second).mapError .edit
  return { p with document, removed := p.removed + 1 }

def mergeReturn (p : Progress) (list : Path) (returning other : Nat) (rewritten : String) :
    Except Error Progress := do
  let document ←
    (p.document.replaceScalar (patternPath list returning) rewritten).mapError .edit
  let (_, document) ← (document.removeItem list other).mapError .edit
  return { document, removed := p.removed + 1, rewritten := p.rewritten + 1 }

def returningText (root : Node) (pattern : Path) : Except Error String :=
  let node := root.at? pattern
  let span := node.map (·.span)
  match node.bind (·.text?) with
  | none => inconsistent (.notAPattern pattern) span
  | some text => if hasReturn text then .ok text else inconsistent (.withoutReturn pattern) span

variable {m : Type → Type} [Monad m]

def lookup {α : Type} (x : ExceptT LookupError m α) : ExceptT Error m α :=
  ExceptT.mk (Except.mapError .lookup <$> x.run)

def step {α : Type} (x : Except Error α) : ExceptT Error m α := ExceptT.mk (pure x)

def checkReturning (asts : AstSource m) (root : Node) (language : String) (pattern : Path) :
    ExceptT Error m Unit := do
  let text ← step (returningText root pattern)
  let ast ← lookup (asts language text)
  if (ast.last?.bind (·.returned?)).isNone then
    step (inconsistent (.notReturning pattern) ((root.at? pattern).map (·.span)))

def mergePair (asts : AstSource m) (target : Target) (p : Progress) (pair : Pair) :
    ExceptT Error m Progress := do
  match pair.relation with
  | .same => step (dropDuplicate p target.path pair.first pair.second)
  | .returnPaired side rewritten =>
    let returning := side.pick pair.first pair.second
    let other := side.other.pick pair.first pair.second
    checkReturning asts p.document.root target.language (patternPath target.path returning)
    step (mergeReturn p target.path returning other rewritten)
  | .different => step (inconsistent (.relationMissing target.path pair.first pair.second))

/-- Edits a list until nothing in it is related, with at most `passesLeft` edits of `maxPasses`. -/
def fixList (asts : AstSource m) (maxPasses : Nat) (target : Target) :
    Nat → Progress → ExceptT Error m Progress
  | passesLeft, p => do
    match ← lookup (firstRelated asts p.document.root target) with
    | none => return p
    | some pair =>
      match passesLeft with
      | 0 =>
        step (inconsistent (.stillRelated target.path maxPasses)
          ((p.document.root.at? target.path).map (·.span)))
      | left + 1 =>
        let p ← mergePair asts target p pair
        fixList asts maxPasses target left p

def fixLists (asts : AstSource m) (maxPasses : Nat) :
    List Target → Progress → ExceptT Error m Progress
  | [], p => return p
  | target :: rest, p => do
    let p ← fixList asts maxPasses target maxPasses p
    fixLists asts maxPasses rest p

def fixDocument (asts : AstSource m) (maxPasses : Nat) (document : Document) :
    ExceptT Error m (Outcome × Document) := do
  let p ← fixLists asts maxPasses (targets document.root) { document }
  return (⟨p.removed, p.rewritten, skipped document.root⟩, p.document)

def pairFindings (asts : AstSource m) (root : Node) :
    List Target → ExceptT LookupError m (List Diagnostic)
  | [] => return []
  | target :: rest => do
    let pair ← firstRelated asts root target
    return (pair.map (finding root target.path)).toList ++ (← pairFindings asts root rest)

def findings (asts : AstSource m) (document : Document) : ExceptT Error m (List Diagnostic) := do
  let pairs ← lookup (pairFindings asts document.root (targets document.root))
  return skipped document.root ++ pairs

end RuleTidy.Tidy
