import RuleTidy.Text.Digit
import RuleTidy.Yaml.Scalar

/-! The core schema: which plain texts are null, truth values or numbers. Every other text is a
string. -/

namespace RuleTidy.Yaml.Schema

open Text

def splitSign : List Char → Bool × List Char
  | '-' :: rest => (true, rest)
  | '+' :: rest => (false, rest)
  | text => (false, text)

def isDigits (text : List Char) : Bool := text.all Char.isDigit

def isDecimalInt (text : List Char) : Bool :=
  let digits := (splitSign text).2
  !digits.isEmpty && isDigits digits

def radixDigit? (base : Nat) (c : Char) : Option Nat := (hexValue? c).filter (· < base)

def radixValue? (base : Nat) (digits : List Char) : Option Nat :=
  digits.foldl (fun n c => do return base * (← n) + (← radixDigit? base c)) (some 0)

/-- A whole number of sixty-four bits with a sign, written in a base: an optional sign and at least
one digit. -/
def radixInt? (base : Nat) (text : List Char) : Option Int :=
  let (negative, digits) := splitSign text
  if digits.isEmpty then none
  else do
    let magnitude ← radixValue? base digits
    let value : Int := if negative then -magnitude else magnitude
    if -Number.signedLimit ≤ value && value < Number.signedLimit then some value else none

def splitExponent (body : List Char) : List Char × Option (List Char) :=
  match body.dropWhile fun c => c ≠ 'e' && c ≠ 'E' with
  | [] => (body, none)
  | _ :: exponent => (body.takeWhile fun c => c ≠ 'e' && c ≠ 'E', some exponent)

def splitPoint (mantissa : List Char) : List Char × Option (List Char) :=
  match mantissa.dropWhile (· ≠ '.') with
  | [] => (mantissa, none)
  | _ :: fraction => (mantissa.takeWhile (· ≠ '.'), some fraction)

def isMantissa (mantissa : List Char) : Bool :=
  match splitPoint mantissa with
  | (whole, some fraction) =>
    isDigits whole && isDigits fraction && !(whole.isEmpty && fraction.isEmpty)
  | (whole, none) => !whole.isEmpty && isDigits whole

/-- An optional sign, digits with at most one point among them, and an optional exponent. -/
def isDecimalFloat (text : List Char) : Bool :=
  match splitExponent (splitSign text).2 with
  | (mantissa, none) => isMantissa mantissa
  | (mantissa, some exponent) => isMantissa mantissa && isDecimalInt exponent

def floatValue? (text : List Char) : Option Binary64 :=
  let (negative, body) := splitSign text
  let (mantissa, exponent) := splitExponent body
  let (whole, fraction) := splitPoint mantissa
  let fraction := fraction.getD []
  let (exponentNegative, exponentDigits) := splitSign (exponent.getD [])
  let stated : Int := decimalValue exponentDigits
  let exponent := (if exponentNegative then -stated else stated) - fraction.length
  Binary64.ofDecimal negative (decimalValue (whole ++ fraction)) exponent

def number? (text : List Char) : Option Number :=
  match text with
  | '0' :: 'o' :: digits => (radixInt? 8 digits).map .integer
  | '0' :: 'x' :: digits => (radixInt? 16 digits).map .integer
  | _ =>
    if isDecimalInt text then
      let (negative, digits) := splitSign text
      let magnitude : Int := decimalValue digits
      Number.ofInt? (if negative then -magnitude else magnitude)
    else if isDecimalFloat text then (floatValue? text).map .real
    else none

def resolve (text : String) : Scalar :=
  if text ∈ ["", "~", "null", "Null", "NULL"] then .null
  else if text ∈ ["true", "True", "TRUE"] then .bool true
  else if text ∈ ["false", "False", "FALSE"] then .bool false
  else match number? text.toList with
    | some n => .number n
    | none => .string text

end RuleTidy.Yaml.Schema
