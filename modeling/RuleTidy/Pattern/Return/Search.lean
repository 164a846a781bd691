import RuleTidy.Pattern.Return
import RuleTidy.Source.Slice

/-! The keyword searched for from the end of a pattern. It is known by its offset in bytes, and the
text on both sides of it is cut out at offsets. -/

namespace RuleTidy.Pattern

open Source Text

def isKeywordAt (text : List Char) (offset : Nat) : Bool :=
  let before := (takeBytes? text offset).bind List.getLast?
  let behind :=
    (LineIndex.dropBytes? text (offset + Utf8.byteLength returnKeyword)).bind List.head?
  !before.any isWordChar && behind.any isSpace

def lastKeyword? (text : List Char) : Option Nat :=
  (wordOffsets returnKeyword 0 text.reverse).find? (isKeywordAt text)

/-- A pattern without its last keyword and the spaces behind that. There is none either if an offset
is inside a character. -/
def cutReturn? (pattern : String) : Option String := do
  let text := pattern.toList
  let start ← lastKeyword? text
  let behind ← LineIndex.dropBytes? text (start + Utf8.byteLength returnKeyword)
  let before ← takeBytes? text start
  return .ofList (before ++ behind.dropWhile isSpace)

def showsReturn (pattern : String) : Bool := (lastKeyword? pattern.toList).isSome

end RuleTidy.Pattern
