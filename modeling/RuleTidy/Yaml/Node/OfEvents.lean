import RuleTidy.Source.Span
import RuleTidy.Yaml.Event
import RuleTidy.Yaml.ParseError
import RuleTidy.Yaml.Scalar.Schema

/-! Nodes from events. Open collections wait on a stack, and a node that is complete goes to the
innermost of them. -/

namespace RuleTidy.Yaml

open Source

inductive Frame where
  | sequence (start : Nat) (anchor : Option Nat) (items : List Node)
  /-- A key may be waiting for its value. -/
  | mapping (start : Nat) (anchor : Option Nat) (entries : List (Node × Node)) (key : Option Node)

def Frame.add (frame : Frame) (node : Node) : Frame :=
  match frame with
  | .sequence start anchor items => .sequence start anchor (node :: items)
  | .mapping start anchor entries none => .mapping start anchor entries (some node)
  | .mapping start anchor entries (some key) => .mapping start anchor ((key, node) :: entries) none

/-- A configuration under construction. An anchor names the last complete node that bears it. -/
structure Builder where
  frames : List Frame := []
  anchors : List (Nat × Node) := []
  root : Option Node := none

structure SourceText where
  origin : Origin
  text : List Char

namespace SourceText

def span (source : SourceText) (start stop : Nat) : Span := source.origin.span source.text start stop

def collectionLayout (source : SourceText) (start : Nat) : Layout :=
  if source.text[start]? = some '[' ∨ source.text[start]? = some '\x7b' then .flow else .block

/-- The value of a scalar. Only a plain one without the tag suffix `str` can be other than a
string. -/
def scalarValue (style : ScalarStyle) (text : String) (tag : Option Tag) : Scalar :=
  if style = .plain ∧ tag.map (·.suffix) ≠ some "str" then Schema.resolve text else .string text

def close (source : SourceText) (frame : Frame) (stop : Nat) : Node × Option Nat :=
  match frame with
  | .sequence start anchor items =>
    (.sequence ⟨source.span start stop, source.collectionLayout start⟩ items.reverse, anchor)
  | .mapping start anchor entries _ =>
    (.mapping ⟨source.span start stop, source.collectionLayout start⟩ entries.reverse, anchor)

end SourceText

namespace Builder

def complete (b : Builder) (node : Node) (anchor : Option Nat) : Builder :=
  let b := match anchor with
    | some n => { b with anchors := (n, node) :: b.anchors }
    | none => b
  match b.frames with
  | frame :: outer => { b with frames := frame.add node :: outer }
  | [] => { b with root := b.root <|> some node }

def openFrame (b : Builder) (frame : Frame) : Except ParseError Builder :=
  if b.frames.length ≥ maxDepth then .error .nestingTooDeep
  else .ok { b with frames := frame :: b.frames }

def accept (source : SourceText) (b : Builder) (event : Event) : Except ParseError Builder :=
  match event.kind with
  | .scalar style text anchor tag =>
    let info : Info := ⟨source.span event.start event.stop, .scalar style⟩
    .ok (b.complete (.scalar info (SourceText.scalarValue style text tag)) anchor)
  | .sequenceStart anchor => b.openFrame (.sequence event.start anchor [])
  | .mappingStart anchor => b.openFrame (.mapping event.start anchor [] none)
  | .sequenceEnd | .mappingEnd =>
    match b.frames with
    | [] => .ok b
    | frame :: outer =>
      let (node, anchor) := source.close frame event.stop
      .ok ({ b with frames := outer }.complete node anchor)
  | .alias n =>
    match b.anchors.lookup n with
    | some node => .ok (b.complete node none)
    | none => .error (.unknownAnchor (source.span event.start event.stop))

end Builder

def Node.ofEvents (source : SourceText) (events : List Event) : Except ParseError (Option Node) := do
  return (← events.foldlM (Builder.accept source) {}).root

end RuleTidy.Yaml
