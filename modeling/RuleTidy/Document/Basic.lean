import RuleTidy.Document.Edit
import RuleTidy.Document.EditError
import RuleTidy.Document.Extent
import RuleTidy.Yaml.Parse
import RuleTidy.Yaml.Scalar.Written

/-! Documents that are edited in place. A document keeps its text and the edits of it beside its
configuration: an edit changes the configuration and records what it means for the text, and all
other characters stay as they are. -/

namespace RuleTidy

open Document Source Text Yaml

structure Document where
  source : SourceText
  root : Node
  edits : List TextEdit := []

namespace Document

def parse (registry : Registry) (text : String) (file : Option String) :
    Except ParseError Document × Registry :=
  let (digest, registry) := registry.register text
  let source : SourceText := ⟨⟨file, digest⟩, text.toList⟩
  (source.parse.map fun root => { source, root }, registry)

def file (d : Document) : Option String := d.source.origin.file

def digest (d : Document) : Digest := d.source.origin.digest

def text (d : Document) : List Char := d.source.text

def isModified (d : Document) : Bool := !d.edits.isEmpty

def render (d : Document) : String := .ofList (TextEdit.applyAll d.text d.edits)

def nodeAt (d : Document) (path : Path) : Except EditError Node :=
  match d.root.at? path with
  | some node => .ok node
  | none => .error (.pathNotFound path)

/-- Only nodes that were read from the text of a document have a place in it. -/
def checkOwned (d : Document) (path : Path) (node : Node) : Except EditError Unit :=
  if node.span.source = some d.digest then .ok ()
  else .error (.unsupportedLayout path .foreignNode)

def located {α : Type} (path : Path) (problem : LayoutProblem) : Option α → Except EditError α
  | some place => .ok place
  | none => .error (.unsupportedLayout path problem)

def record (d : Document) (path : Path) (edit : TextEdit) : Except EditError Document :=
  match edit.record? d.edits with
  | some edits => .ok { d with edits }
  | none => .error (.conflict path)

/-- The lines to take away with an item: those up to the next item, or for the last item those of
its content. Blank lines behind the last item go with it if one stands before it. -/
def removalRange (d : Document) (path : Path) (index : Nat) : Except EditError (Nat × Nat) := do
  let sequence ← d.nodeAt path
  let some items := sequence.items? | .error (.notASequence path)
  let some item := items[index]? | .error (.indexOutOfRange path index items.length)
  if sequence.layout ≠ .block then .error (.unsupportedLayout path .notBlockSequence)
  if items.length < 2 then .error (.unsupportedLayout path .lastItem)
  d.checkOwned path item
  let start ← located path .entryWithoutLine (entryStart? d.text item)
  let stop ← match items[index + 1]? with
    | some next => located path .entryWithoutLine (entryStart? d.text next)
    | none =>
      let stop := entryEnd d.text item
      pure (if followsBlankLine d.text start then skipBlankLines d.text stop else stop)
  if stop ≤ start then .error (.unsupportedLayout path .sharedLine)
  return (start, stop)

def withoutItem (index : Nat) : Node → Node
  | .sequence info items => .sequence info (items.eraseIdx index)
  | node => node

def removeItem (d : Document) (path : Path) (index : Nat) : Except EditError (Node × Document) := do
  let (start, stop) ← d.removalRange path index
  let recorded ← d.record path ⟨start, stop, []⟩
  let some removed := (d.root.at? path).bind (·.items?) |>.bind (·[index]?)
    | .error (.pathNotFound path)
  let some root := d.root.update? path (withoutItem index) | .error (.pathNotFound path)
  return (removed, { recorded with root })

/-- The edit that writes a string in place of a scalar, in the style of the scalar if that can hold
it. Blanks behind the scalar stay. -/
def replacement (d : Document) (path : Path) (style : ScalarStyle) (span : Span)
    (value : List Char) : Except EditError TextEdit := do
  let content := span.start.offset d.text
  let start ← match style with
    | .literal | .folded => located path .headerMissing (headerStart? d.text content)
    | _ => pure content
  let stop := max (span.stop.offset d.text) content
  let current := slice d.text start stop
  let tail := current.drop (trimEnd current).length
  let indent := blockIndent d.text current span.start
  return ⟨start, stop, Written.render style value indent ++ tail⟩

/-- Writes a string in place of the scalar at a path. The node keeps its span and its style. -/
def replaceScalar (d : Document) (path : Path) (value : String) : Except EditError Document := do
  let node ← d.nodeAt path
  if node.scalar?.isNone then .error (.notAScalar path)
  let .scalar style := node.layout | .error (.unsupportedLayout path .scalarNotWritten)
  d.checkOwned path node
  let edit ← d.replacement path style node.span value.toList
  let recorded ← d.record path edit
  -- span and style stay
  let some root := d.root.update? path fun _ => .scalar ⟨node.span, .scalar style⟩ (.string value)
    | .error (.pathNotFound path)
  return { recorded with root }

end Document

end RuleTidy
