/-! The keyword `return` in the text of a pattern. It counts where it stands as a word of its own
before a space or a tab, and the last one is the one that can be taken away. -/

namespace RuleTidy.Pattern

def returnKeyword : List Char := "return".toList

def isWordChar (c : Char) : Bool := c.isAlphanum || c = '_' || c = '$'

def isSpace (c : Char) : Bool := c = ' ' || c = '\t'

/-- The text behind a keyword at the start of `text`, where `previous` is the character before. -/
def afterKeyword? (previous : Option Char) (text : List Char) : Option (List Char) :=
  let behind := text.drop returnKeyword.length
  if returnKeyword.isPrefixOf text && !previous.any isWordChar && behind.head?.any isSpace then
    some behind
  else none

def splitAtReturn (previous : Option Char) : List Char → Option (List Char × List Char)
  | [] => none
  | c :: rest =>
    match splitAtReturn (some c) rest with
    | some (before, behind) => some (c :: before, behind)
    | none => (afterKeyword? previous (c :: rest)).map ([], ·)

def stripReturn? (pattern : String) : Option String :=
  (splitAtReturn none pattern.toList).map fun (before, behind) =>
    .ofList (before ++ behind.dropWhile isSpace)

def hasReturn (pattern : String) : Bool := (splitAtReturn none pattern.toList).isSome

end RuleTidy.Pattern
