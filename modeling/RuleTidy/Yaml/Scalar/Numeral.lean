import RuleTidy.Source.Slice
import RuleTidy.Yaml.Scalar.Schema

/-! The numbers of the core schema read step by step. Whole numbers are read digit by digit in
sixty-four bits, with a sign or without one, and refused at the first step that leaves these. -/

namespace RuleTidy.Yaml.Numeral

open Schema Source

inductive Bits where
  | signed
  | unsigned

namespace Bits

def least : Bits → Int
  | .signed => -Number.signedLimit
  | .unsigned => 0

def limit : Bits → Int
  | .signed => Number.signedLimit
  | .unsigned => Number.unsignedLimit

def check? (bits : Bits) (n : Int) : Option Int :=
  if bits.least ≤ n && n < bits.limit then some n else none

/-- The number with one more digit, which counts away from zero. Both the product and the sum have to
fit. -/
def push? (bits : Bits) (base : Nat) (negative : Bool) (n : Int) (c : Char) : Option Int := do
  let digit ← radixDigit? base c
  let scaled ← bits.check? (n * base)
  bits.check? (if negative then scaled - digit else scaled + digit)

/-- The text behind a sign. A number that is never negative has no minus, which is then left where a
digit should be. -/
def splitSign : Bits → List Char → Bool × List Char
  | .unsigned, '-' :: rest => (false, '-' :: rest)
  | _, text => Schema.splitSign text

def read? (bits : Bits) (base : Nat) (text : List Char) : Option Int :=
  let (negative, digits) := bits.splitSign text
  if digits.isEmpty then none else digits.foldlM (bits.push? base negative) 0

end Bits

def isExponentLetter (c : Char) : Bool := c = 'e' || c = 'E'

def cutExponent (body : List Char) : List Char × Option (List Char) :=
  match firstOffset? isExponentLetter body with
  | some offset => ((takeBytes? body offset).getD [], LineIndex.dropBytes? body (offset + 1))
  | none => (body, none)

def isDecimalFloat (text : List Char) : Bool :=
  let (mantissa, exponent) := cutExponent (Schema.splitSign text).2
  isMantissa mantissa && exponent.all isDecimalInt

/-- The number that a plain text denotes, if it denotes one. A decimal whole number that does not fit
with a sign is read once more without. -/
def number? (text : List Char) : Option Number :=
  match text with
  | '0' :: 'o' :: digits => (Bits.signed.read? 8 digits).map .integer
  | '0' :: 'x' :: digits => (Bits.signed.read? 16 digits).map .integer
  | _ =>
    if isDecimalInt text then
      ((Bits.signed.read? 10 text).or (Bits.unsigned.read? 10 text)).map .integer
    else if isDecimalFloat text then (floatValue? text).map .real
    else none

end RuleTidy.Yaml.Numeral
