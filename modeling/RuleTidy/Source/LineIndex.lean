import RuleTidy.Source.Position
import RuleTidy.Text.Utf8

/-! The lines of a text as a table, made in one pass over the text. Positions are looked up in it by
bisection. -/

namespace RuleTidy.Source

open Text

/-- The number of entries that satisfy `p`, if these stand before all the others. It is searched for
from `low` up to `high`. -/
def partitionPoint (p : Nat → Bool) (table : Array Nat) (low high : Nat) : Nat :=
  if low < high then
    let middle := (low + high) / 2
    if table[middle]?.any p then partitionPoint p table (middle + 1) high
    else partitionPoint p table low middle
  else low
termination_by high - low

structure LineIndex where
  bytes : Array Nat
  chars : Array Nat

namespace LineIndex

/-- Adds the lines that start behind the line feeds of a text. Before this text there are `byte`
bytes and `char` characters. -/
def extend (index : LineIndex) (byte char : Nat) : List Char → LineIndex
  | [] => index
  | c :: rest =>
    let index :=
      if c = '\n' then ⟨index.bytes.push (byte + 1), index.chars.push (char + 1)⟩ else index
    index.extend (byte + c.utf8Size) (char + 1) rest

def of (text : List Char) : LineIndex := extend ⟨#[0], #[0]⟩ 0 0 text

def position (index : LineIndex) (n : Nat) : Position :=
  let line := partitionPoint (· ≤ n) index.chars 0 index.chars.size - 1
  ⟨saturate line, saturate (n - index.chars[line]?.getD 0)⟩

def lineStart (index : LineIndex) (text : List Char) (p : Position) : Nat :=
  index.bytes[p.line.toNat]?.getD (Utf8.byteLength text)

def dropBytes? : List Char → Nat → Option (List Char)
  | text, 0 => some text
  | [], _ + 1 => none
  | c :: rest, n + 1 => if c.utf8Size ≤ n + 1 then dropBytes? rest (n + 1 - c.utf8Size) else none

def offset (index : LineIndex) (text : List Char) (p : Position) : Nat :=
  match index.bytes[p.line.toNat]? with
  | none => Utf8.byteLength text
  | some start =>
    let rest := (dropBytes? text start).getD []
    if p.column.toNat < rest.length then start + Utf8.byteLength (rest.take p.column.toNat)
    else Utf8.byteLength text

end LineIndex

end RuleTidy.Source
