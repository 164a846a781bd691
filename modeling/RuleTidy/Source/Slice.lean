import RuleTidy.Source.LineIndex

/-! Pieces of a text by offsets in bytes. A character is searched for from the front, a word from the
end. -/

namespace RuleTidy.Source

open Text

def takeBytes? : List Char → Nat → Option (List Char)
  | _, 0 => some []
  | [], _ + 1 => none
  | c :: rest, n + 1 =>
    if c.utf8Size ≤ n + 1 then (takeBytes? rest (n + 1 - c.utf8Size)).map (c :: ·) else none

def firstOffset? (p : Char → Bool) : List Char → Option Nat
  | [] => none
  | c :: rest => if p c then some 0 else (firstOffset? p rest).map (c.utf8Size + ·)

/-- The offsets of the places of a word in a text that is given back to front, the last place first.
No two of them share a character: the next `busy` characters belong to the place found before. -/
def wordOffsets (word : List Char) : Nat → List Char → List Nat
  | _, [] => []
  | busy + 1, _ :: before => wordOffsets word busy before
  | 0, c :: before =>
    if word.reverse.isPrefixOf (c :: before) then
      Utf8.byteLength ((c :: before).drop word.length) :: wordOffsets word (word.length - 1) before
    else wordOffsets word 0 before

end RuleTidy.Source
