import RuleTidy.Document.Basic
import RuleTidy.Yaml.Node.Json
import RuleTidy.Yaml.Slot

/-! Edits of a document that is held in place. Each step finds the document as the steps before it
have left it, and a step that fails takes nothing back. -/

namespace RuleTidy.Document

open Source Text Yaml

/-- Why an edit in place stops. -/
inductive Stop where
  | refused (e : EditError)
  /-- The new string does not become a node. -/
  | notWrapped (e : ParseError)

abbrev InPlace := ExceptT Stop (StateM Document)

namespace InPlace

variable {α : Type}

def on (steps : InPlace α) (d : Document) : Except Stop α × Document := (steps.run.run d).run

def ask (question : Document → Except EditError α) : InPlace α := do
  ExceptT.mk (pure ((question (← get)).mapError .refused))

def record (path : Path) (edit : TextEdit) : InPlace Unit := do
  if (← get).edits.any fun other => edit.overlaps other && !edit.covers other then
    throw (.refused (.conflict path))
  modify fun d => { d with edits := d.edits.filter fun other => !edit.covers other }
  modify fun d => { d with edits := d.edits ++ [edit] }

/-- Removes an item from a block sequence. The edit of the text is recorded before the item is
taken out of the configuration. -/
def removeItem (path : Path) (index : Nat) : InPlace Node := do
  let (start, stop) ← ask (·.removalRange path index)
  record path ⟨start, stop, []⟩
  match (← get).root.slot? path with
  | some ⟨.sequence info items, put⟩ =>
    match items[index]? with
    | some removed => do
      modify fun d => { d with root := put (.sequence info (items.eraseIdx index)) }
      return removed
    | none => throw (.refused (.pathNotFound path))
  | _ => throw (.refused (.pathNotFound path))

def scalarAt (d : Document) (path : Path) : Except EditError (ScalarStyle × Span) := do
  let node ← d.nodeAt path
  if node.scalar?.isNone then .error (.notAScalar path)
  let .scalar style := node.layout | .error (.unsupportedLayout path .scalarNotWritten)
  d.checkOwned path node
  return (style, node.span)

def wrap (span : Span) (value : String) : InPlace Node :=
  ExceptT.mk (pure ((Node.ofJson span (.string value)).mapError .notWrapped))

/-- Writes a string in place of the scalar at a path. The edit of the text is recorded before the
string has become a node. -/
def replaceScalar (path : Path) (value : String) : InPlace Unit := do
  let (style, span) ← ask (scalarAt · path)
  record path (← ask (·.replacement path style span value.toList))
  let wrapped ← wrap span value
  match (← get).root.slot? path with
  | some slot =>
    modify fun d => { d with root := slot.put (wrapped.withInfo ⟨span, .scalar style⟩) }
  | none => return

end InPlace

end RuleTidy.Document
