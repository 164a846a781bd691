import RuleTidy.Text.Digit
import RuleTidy.Text.Unicode.GraphemeExtend
import RuleTidy.Text.Unicode.Invisible

/-! Text that is shown with every unusual character spelled out. -/

namespace RuleTidy.Text

def hexadecimal (n : Nat) : List Char := Nat.toDigits 16 n

def codeEscape (c : Char) : List Char := "\\u\x7b".toList ++ hexadecimal c.toNat ++ ['\x7d']

/-- One character of a text on display. Where `alone` holds, the character has none before it to
join. -/
def displayChar (quotes : List Char) (alone : Bool) (c : Char) : List Char :=
  match c with
  | '\x00' => ['\\', '0']
  | '\t' => ['\\', 't']
  | '\r' => ['\\', 'r']
  | '\n' => ['\\', 'n']
  | '\\' => ['\\', '\\']
  | c =>
    if c ∈ quotes then ['\\', c]
    else if 0x20 ≤ c.toNat && c.toNat < 0x7F then [c]
    else if alone && Unicode.isGraphemeExtend c then codeEscape c
    else if Unicode.isInvisible c then codeEscape c
    else [c]

def quoteDisplay (text : String) : String :=
  .ofList ('"' :: text.toList.flatMap (displayChar ['"'] true) ++ ['"'])

/-- A text without quotes around it. Both kinds of quotes in it are marked, and a character may join
the one before it. -/
def display (text : String) : String :=
  match text.toList with
  | [] => ""
  | first :: rest =>
    .ofList (displayChar ['"', '\''] true first ++ rest.flatMap (displayChar ['"', '\''] false))

end RuleTidy.Text
