import RuleTidy.Json.Reader.Basic
import RuleTidy.Number.Basic

/-! Numbers in JSON text. Whole numbers of sixty-four bits are exact. The others are scaled from
their leading digits by a power of ten, with one rounding for the digits, one for the power and one
for the product. -/

namespace RuleTidy.Json.Reader

open Text

/-- The digits of a number as far as they fit sixty-four bits, and the number of the others. -/
def significandOf : Nat → List Char → Nat × Nat
  | n, [] => (n, 0)
  | n, c :: cs =>
    let next := 10 * n + digitValue c
    if next < Number.unsignedLimit then significandOf next cs else (n, cs.length + 1)

def nearest (n : Nat) : Binary64 := (Binary64.ofQuotient false n 1).getD (.zero false)

def greatestPower : Nat := 308

def powerOfTen (exponent : Nat) : Binary64 :=
  (Binary64.ofQuotient false (Nat.pow 10 exponent) 1).getD (.zero false)

/-- A number divided by ten to the given power. Powers beyond the greatest are taken in steps, until
nothing is left. -/
def divideByPower : Nat → Binary64 → Nat → Binary64
  | 0, x, _ => x
  | fuel + 1, x, exponent =>
    if exponent ≤ greatestPower then (x.div (powerOfTen exponent)).getD x
    else if x.isZero then x
    else
      divideByPower fuel ((x.div (powerOfTen greatestPower)).getD x) (exponent - greatestPower)

def scale (significand : Nat) (exponent : Int) : Option Binary64 :=
  let x := nearest significand
  if exponent < 0 then some (divideByPower 8 x exponent.natAbs)
  else if exponent ≤ greatestPower then x.mul (powerOfTen exponent.toNat)
  else if x.isZero then some x
  else none

def realOf (negative : Bool) (significand : Nat) (exponent : Int) : Reader Number := do
  match scale significand exponent with
  | some x => return .real (if negative then x.negate else x)
  | none => fail .numberOutOfRange

def greatestExponent : Nat := Nat.pow 2 31 - 1

def exponentDigits : Nat → List Char → Nat × Bool
  | _, [] => (0, false)
  | n, c :: cs =>
    let next := 10 * n + digitValue c
    -- the digit that makes it too large is counted, and none behind it
    if next > greatestExponent then (1, true)
    else
      let (count, tooLarge) := exponentDigits next cs
      (count + 1, tooLarge)

def exponentPart (negative : Bool) (significand : Nat) (exponent : Int) : Reader Number := do
  drop 1
  let sign ← peek?
  if sign = some '+' ∨ sign = some '-' then drop 1
  match ← peek? with
  | none => fail .endInValue
  | some c =>
    if !c.isDigit then failAhead .numberInvalid
    else
      let stated := (← rest).takeWhile Char.isDigit
      let (count, tooLarge) := exponentDigits 0 stated
      if tooLarge && sign ≠ some '-' && significand ≠ 0 then
        drop count
        fail .numberOutOfRange
      else
        drop stated.length
        if tooLarge then return .real (.zero negative)
        let value : Int := decimalValue stated
        realOf negative significand (if sign = some '-' then exponent - value else exponent + value)

def exponentOrEnd (negative : Bool) (significand : Nat) (exponent : Int) : Reader Number := do
  match ← peek? with
  | some 'e' | some 'E' => exponentPart negative significand exponent
  | _ => realOf negative significand exponent

/-- The digits behind a point. Those that do not fit sixty-four bits do not count. -/
def fractionPart (negative : Bool) (significand : Nat) (exponent : Int) : Reader Number := do
  drop 1
  let fraction ← digits
  if fraction.isEmpty then
    match ← peek? with
    | none => fail .endInValue
    | some _ => failAhead .numberInvalid
  else
    let (significand, unused) := significandOf significand fraction
    exponentOrEnd negative significand (exponent - (fraction.length - unused : Nat))

def wholeNumber (negative : Bool) (significand : Nat) : Number :=
  if !negative then .integer significand
  -- a negative zero is a floating-point number
  else if significand = 0 || significand > Number.signedLimit then .real (nearest significand).negate
  else .integer (-significand)

def unsignedNumber (negative : Bool) : Reader Number := do
  match ← peek? with
  | none => fail .endInValue
  | some c =>
    if !c.isDigit then failAhead .numberInvalid
    else
      let whole ← if c = '0' then do drop 1; pure ['0'] else digits
      if c = '0' && (← peek?).any Char.isDigit then failAhead .numberInvalid
      else
        let (significand, unused) := significandOf 0 whole
        match ← peek? with
        | some '.' => fractionPart negative significand unused
        | some 'e' | some 'E' => exponentPart negative significand unused
        | _ =>
          if unused > 0 then realOf negative significand unused
          else return wholeNumber negative significand

def number : Reader Number := do
  match ← peek? with
  | some '-' => do
    drop 1
    unsignedNumber true
  | _ => unsignedNumber false

end RuleTidy.Json.Reader
