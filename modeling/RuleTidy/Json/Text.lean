import RuleTidy.Json.Value
import RuleTidy.Text.Digit

/-! The compact text of JSON values. -/

namespace RuleTidy.Json

/-- One character of a string. Quotes, backslashes and control characters are escaped, and nothing
else is. -/
def escapeChar (c : Char) : List Char :=
  match c with
  | '"' => ['\\', '"']
  | '\\' => ['\\', '\\']
  | '\n' => ['\\', 'n']
  | '\r' => ['\\', 'r']
  | '\t' => ['\\', 't']
  | '\x08' => ['\\', 'b']
  | '\x0c' => ['\\', 'f']
  | c => if c.toNat < 0x20 then '\\' :: 'u' :: Text.hexDigits 4 c.toNat else [c]

def quote (text : String) : List Char := '"' :: text.toList.flatMap escapeChar ++ ['"']

mutual

def chars : Json → List Char
  | .null => "null".toList
  | .bool true => "true".toList
  | .bool false => "false".toList
  | .number n => n.render.toList
  | .string text => quote text
  | .array items => '[' :: charsOfItems items ++ [']']
  | .object entries => '{' :: charsOfEntries entries ++ ['}']

def charsOfItems : List Json → List Char
  | [] => []
  | [item] => chars item
  | item :: rest => chars item ++ ',' :: charsOfItems rest

def charsOfEntries : List (String × Json) → List Char
  | [] => []
  | [(name, value)] => quote name ++ ':' :: chars value
  | (name, value) :: rest => quote name ++ ':' :: chars value ++ ',' :: charsOfEntries rest

end

def render (json : Json) : String := String.ofList json.chars

end RuleTidy.Json
