import RuleTidy.Yaml.Cursor

/-! Line folding: what the blanks and line breaks between two words of a scalar stand for. -/

namespace RuleTidy.Yaml

inductive Gap where
  /-- Blanks within one line. -/
  | blanks (text : List Char)
  /-- Line breaks, with any blanks around them. -/
  | breaks (count : Nat)
  /-- An escaped line break, and the breaks of the empty lines after it. -/
  | escaped (count : Nat)

namespace Gap

def none : Gap := .blanks []

/-- Blanks within a line are kept. A single break folds into a space, and of several all but the
first are kept. An escaped break leaves nothing behind. -/
def text : Gap → List Char
  | .blanks text => text
  | .breaks 0 => []
  | .breaks 1 => [' ']
  | .breaks (n + 1) => List.replicate n '\n'
  | .escaped n => List.replicate n '\n'

def hasBreak : Gap → Bool
  | .blanks _ => false
  | .breaks _ => true
  | .escaped _ => true

def addBlank (c : Char) : Gap → Gap
  | .blanks text => .blanks (text ++ [c])
  -- blanks beside a line break do not count
  | gap => gap

def addBreak : Gap → Gap
  | .blanks _ => .breaks 1
  | .breaks n => .breaks (n + 1)
  | .escaped n => .escaped (n + 1)

end Gap

end RuleTidy.Yaml
