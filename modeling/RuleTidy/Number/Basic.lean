import RuleTidy.Number.Shortest
import RuleTidy.Text.Digit

/-! The numbers of configuration values: whole numbers of sixty-four bits, signed or not, and
floating-point numbers. A whole number and a floating-point number are never equal. -/

namespace RuleTidy

inductive Number where
  | integer (value : Int)
  | real (value : Binary64)
  deriving DecidableEq

namespace Number

def unsignedLimit : Nat := Nat.pow 2 64

def signedLimit : Nat := Nat.pow 2 63

def fits (n : Int) : Bool := -signedLimit ≤ n && n < unsignedLimit

def ofInt? (n : Int) : Option Number := if fits n then some (.integer n) else none

protected def beq : Number → Number → Bool
  | .integer a, .integer b => a == b
  | .real a, .real b => a == b
  | _, _ => false

instance : BEq Number := ⟨Number.beq⟩

structure Layout where
  /-- The least and the greatest decimal exponent that are written without an exponent. -/
  leastPositional : Int
  greatestPositional : Int

/-- A number between 10^-5 and 10^16 is written with a point and at least one digit after it, and
any other with a signed exponent. -/
def layout : Layout := ⟨-5, 15⟩

private def zeros (n : Nat) : List Char := List.replicate n '0'

def Layout.render (l : Layout) (x : Decimal) : List Char :=
  let digits := Text.decimal x.digits
  let exponent := x.exponent + digits.length - 1
  if l.leastPositional ≤ exponent && exponent ≤ l.greatestPositional then
    if x.exponent ≥ 0 then digits ++ zeros x.exponent.toNat ++ ".0".toList
    else if exponent ≥ 0 then
      digits.take (exponent + 1).toNat ++ '.' :: digits.drop (exponent + 1).toNat
    else "0.".toList ++ zeros (-exponent - 1).toNat ++ digits
  else
    let fraction := if digits.length > 1 then '.' :: digits.tail else []
    let sign := if exponent < 0 then '-' else '+'
    digits.take 1 ++ fraction ++ 'e' :: sign :: Text.decimal exponent.natAbs

def renderReal (x : Binary64) : List Char :=
  let body := if x.isZero then "0.0".toList else layout.render (Decimal.shortest x)
  if x.negative then '-' :: body else body

def renderInteger (n : Int) : List Char :=
  if n < 0 then '-' :: Text.decimal n.natAbs else Text.decimal n.natAbs

def render : Number → String
  | .integer n => String.ofList (renderInteger n)
  | .real x => String.ofList (renderReal x)

end Number

end RuleTidy
