/-! Lines of a text. A line ends at a line feed, and only at one. -/

namespace RuleTidy.Text

def splitLines : List Char → List (List Char)
  | [] => [[]]
  | c :: rest =>
    if c = '\n' then [] :: splitLines rest
    else match splitLines rest with
      | [] => [[c]]
      | line :: lines => (c :: line) :: lines

/-- A carriage return just before the line feed belongs to the line's end. -/
def dropReturn (line : List Char) : List Char :=
  if line.getLast? = some '\r' then line.dropLast else line

/-- The lines that a reader sees: line ends are left out, and a line feed at the end of the text
opens no further line. -/
def lines (text : List Char) : List (List Char) :=
  go (splitLines text)
where
  /-- Only a line that a line feed ends can lose a carriage return. -/
  go : List (List Char) → List (List Char)
    | [] => []
    | [last] => if last.isEmpty then [] else [last]
    | line :: rest => dropReturn line :: go rest

def lineStart? : List Char → Nat → Option Nat
  | _, 0 => some 0
  | [], _ + 1 => none
  | c :: rest, n + 1 =>
    (if c = '\n' then lineStart? rest n else lineStart? rest (n + 1)).map (· + 1)

def columnAfter (before : List Char) : Nat := (before.reverse.takeWhile (· ≠ '\n')).length

def lineStartBefore (text : List Char) (n : Nat) : Nat :=
  min n text.length - columnAfter (text.take n)

def slice (text : List Char) (start stop : Nat) : List Char := (text.take stop).drop start

@[simp] theorem length_slice (text : List Char) (start stop : Nat) :
    (slice text start stop).length = min stop text.length - start := by
  simp [slice]

end RuleTidy.Text
