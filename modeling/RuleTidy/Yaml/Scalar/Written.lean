import RuleTidy.Text.Blank
import RuleTidy.Text.Lines
import RuleTidy.Yaml.Scalar.Schema
import RuleTidy.Yaml.Token

/-! Strings as they are written in a YAML text. Each style is used only for strings that it can
hold; double quotes hold every string. -/

namespace RuleTidy.Yaml.Written

open Text

def indicators : List Char :=
  ['-', '?', ':', ',', '[', ']', '\x7b', '\x7d', '#', '&', '*', '!', '|', '>', '\'', '"', '%', '@',
    '\x60']

def hasPair (a b : Char) : List Char → Bool
  | c :: d :: rest => (c = a && d = b) || hasPair a b (d :: rest)
  | _ => false

/-- Whether a string reads back when it is written without quotes. -/
def isPlainSafe (text : List Char) : Bool :=
  match text with
  | [] => false
  | first :: _ =>
    first ∉ indicators && trim text = text &&
      !(text.contains '\n' || text.contains '\r' || text.contains '\t') &&
      !hasPair ':' ' ' text && !hasPair ' ' '#' text && text.getLast? ≠ some ':' &&
      Schema.resolve (.ofList text) = .string (.ofList text)

def singleQuoted (text : List Char) : List Char :=
  '\'' :: text.flatMap (fun c => if c = '\'' then ['\'', '\''] else [c]) ++ ['\'']

def isControl (c : Char) : Bool := c.val < 0x20 || (0x7F ≤ c.val && c.val < 0xA0)

def escapeChar (c : Char) : List Char :=
  match c with
  | '\\' => ['\\', '\\']
  | '"' => ['\\', '"']
  | '\n' => ['\\', 'n']
  | '\t' => ['\\', 't']
  | '\r' => ['\\', 'r']
  | c => if isControl c then '\\' :: 'u' :: (hexDigits 4 c.toNat).map Char.toUpper else [c]

def doubleQuoted (text : List Char) : List Char := '"' :: text.flatMap escapeChar ++ ['"']

def endsBlank (line : List Char) : Bool :=
  line.getLast? = some ' ' || line.getLast? = some '\t'

def blockLines (indent : List Char) (lines : List (List Char)) : List Char :=
  -- empty lines are not indented
  lines.flatMap fun line => '\n' :: if line.isEmpty then [] else indent ++ line

def literalBlock? (text indent : List Char) : Option (List Char) :=
  let (header, body) :=
    if text.getLast? = some '\n' then ("|".toList, text.dropLast) else ("|-".toList, text)
  if body.isEmpty || body.getLast? = some '\n' || body.head? = some ' ' || body.head? = some '\t' ||
      body.contains '\r' || (splitLines body).any endsBlank then
    none
  else some (header ++ blockLines indent (splitLines body))

/-- A string in a style, or in double quotes if the style cannot hold it. Lines of a block are
indented by `indent`. -/
def render (style : ScalarStyle) (text indent : List Char) : List Char :=
  match style with
  | .plain => if isPlainSafe text then text else doubleQuoted text
  | .singleQuoted =>
    if text.contains '\n' || text.contains '\r' then doubleQuoted text else singleQuoted text
  | .doubleQuoted => doubleQuoted text
  | .literal | .folded => (literalBlock? text indent).getD (doubleQuoted text)

end RuleTidy.Yaml.Written
