import RuleTidy.Text.Lines

/-! Replacements in a text. Edits that are recorded together do not overlap, and an edit makes the
ones that it covers void. -/

namespace RuleTidy.Document

/-- The characters from offset `start` up to offset `stop` become `replacement`. -/
structure TextEdit where
  start : Nat
  stop : Nat
  replacement : List Char
  deriving DecidableEq

namespace TextEdit

def covers (edit inner : TextEdit) : Bool := edit.start ≤ inner.start && inner.stop ≤ edit.stop

def overlaps (edit other : TextEdit) : Bool := other.start < edit.stop && edit.start < other.stop

/-- Adds an edit to recorded ones, unless it overlaps one that it does not cover. -/
def record? (edits : List TextEdit) (edit : TextEdit) : Option (List TextEdit) :=
  if edits.any fun other => edit.overlaps other && !edit.covers other then none
  else some (edits.filter (fun other => !edit.covers other) ++ [edit])

def apply (text : List Char) (edit : TextEdit) : List Char :=
  -- an edit that reaches past the end does nothing
  if edit.stop > text.length then text
  else text.take edit.start ++ edit.replacement ++ text.drop edit.stop

/-- Puts an edit behind those that start at the same offset or later. -/
def insertLastFirst (edit : TextEdit) : List TextEdit → List TextEdit
  | [] => [edit]
  | other :: rest =>
    if edit.start ≤ other.start then other :: insertLastFirst edit rest else edit :: other :: rest

def lastFirst (edits : List TextEdit) : List TextEdit :=
  edits.foldl (fun sorted edit => insertLastFirst edit sorted) []

/-- The text with all edits applied. An edit does not move what lies before it, so the last comes
first. -/
def applyAll (text : List Char) (edits : List TextEdit) : List Char :=
  -- an edit does not move what lies before it, so the last comes first
  (lastFirst edits).foldl apply text

end TextEdit

end RuleTidy.Document
