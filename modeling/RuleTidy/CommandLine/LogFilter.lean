import RuleTidy.Text.Blank
import RuleTidy.Text.Digit

/-! Log filters: directives with commas between them. A directive is a level, or a target with a
span in brackets, fields in braces and a level, all of which may be left out. -/

namespace RuleTidy.CommandLine.LogFilter

inductive Fault where
  | directive
  | level
  deriving DecidableEq

def Fault.message : Fault → String
  | .directive => "invalid filter directive"
  | .level =>
    "error parsing level filter: expected one of \"off\", \"error\", \"warn\", \"info\", " ++
      "\"debug\", \"trace\", or a number 0-5"

def levels : List String := ["off", "error", "warn", "info", "debug", "trace"]

def unsignedDigits? (text : List Char) : Option (List Char) :=
  let digits := match text with
    | '+' :: rest => rest
    | text => text
  if !digits.isEmpty && digits.all Char.isDigit then some digits else none

def isLevel (text : List Char) : Bool :=
  text.isEmpty || String.ofList (text.map Char.toLower) ∈ levels ||
    (unsignedDigits? text).any fun digits => Text.decimalValue digits ≤ 5

def checkLevel (text : List Char) : Except Fault Unit :=
  if isLevel text then .ok () else .error .level

def checkBehindSpan : List Char → Except Fault Unit
  | [] => .ok ()
  | '=' :: level => checkLevel level
  | _ => .error .directive

/-- A span behind its opening bracket: a name, and fields in braces just before the closing
bracket. -/
def checkSpan (text : List Char) : Except Fault Unit :=
  match text.dropWhile fun c => c ≠ ']' && c ≠ '\x7b' with
  | [] => .error .directive
  | ']' :: rest => checkBehindSpan rest
  | _ :: fields =>
    match fields.dropWhile (· ≠ '\x7d') with
    | '\x7d' :: ']' :: rest =>
      if fields.head? = some '\x7d' then .error .directive else checkBehindSpan rest
    | _ => .error .directive

/-- The characters with which a directive starts. Of the characters beyond ASCII, all count as
letters. -/
def startsDirective (c : Char) : Bool :=
  c = '[' || c = '-' || c = ':' || c = '_' || c.isAlphanum || c.toNat ≥ 0x80

def checkDirective (text : List Char) : Except Fault Unit :=
  match text with
  | [] => .error .directive
  | '[' :: rest => checkSpan rest
  | first :: _ =>
    if !startsDirective first then .error .directive
    else match text.dropWhile fun c => c ≠ '=' && c ≠ '[' with
      | [] => .ok ()
      | '[' :: rest => checkSpan rest
      | _ :: level => checkLevel level

def splitCommas : List Char → List (List Char)
  | [] => [[]]
  | c :: rest =>
    if c = ',' then [] :: splitCommas rest
    else match splitCommas rest with
      | [] => [[c]]
      | piece :: pieces => (c :: piece) :: pieces

def check (filter : String) : Except Fault Unit :=
  -- empty directives do not count
  ((splitCommas filter.toList).filter (!·.isEmpty)).forM fun piece =>
    checkDirective (Text.trim piece)

end RuleTidy.CommandLine.LogFilter
