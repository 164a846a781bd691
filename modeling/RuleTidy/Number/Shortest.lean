import RuleTidy.Number.Binary64

/-! The shortest decimal that reads back as a given floating-point number, and of those the one
nearest to it. -/

namespace RuleTidy

structure Decimal where
  digits : Nat
  exponent : Int
  deriving DecidableEq

namespace Decimal

def trimmed : Nat → Decimal → Decimal
  | 0, x => x
  | fuel + 1, x =>
    if x.digits ≠ 0 && x.digits % 10 = 0 then trimmed fuel ⟨x.digits / 10, x.exponent + 1⟩ else x

def commonScale (digits : Nat) (p : Int) (units : Nat) (e : Int) : Nat × Nat :=
  (digits * Nat.pow 10 p.toNat * Nat.pow 2 (-e).toNat,
    units * Nat.pow 2 e.toNat * Nat.pow 10 (-p).toNat)

/-- The real numbers that round to a floating-point number lie between `low` and `high` units of
2^`exponent`, and the ends belong to them when the significand is even. -/
structure Interval where
  low : Nat
  middle : Nat
  high : Nat
  exponent : Int
  closed : Bool

def Interval.of (x : Binary64) : Interval :=
  let below :=
    -- below a power of two the neighbour is nearer, except at the least exponent
    if x.significand = Nat.pow 2 52 && x.exponent > Binary64.leastExponent then 1 else 2
  ⟨4 * x.significand - below, 4 * x.significand, 4 * x.significand + 2, x.exponent - 2,
    x.significand % 2 = 0⟩

def Interval.holds (i : Interval) (digits : Nat) (p : Int) : Bool :=
  let (low, lowUnits) := commonScale digits p i.low i.exponent
  let (high, highUnits) := commonScale digits p i.high i.exponent
  if i.closed then lowUnits ≤ low && high ≤ highUnits else lowUnits < low && high < highUnits

/-- Of the multiples of 10^`p` next to the number, the nearer one that rounds to it, and the even
one of two that are equally near. -/
def Interval.onGrid (i : Interval) (p : Int) : Option Nat :=
  let (unit, middle) := commonScale 1 p i.middle i.exponent
  let below := middle / unit
  let twice := 2 * (middle % unit)
  let fits := i.holds below p && below ≠ 0
  let fitsAbove := i.holds (below + 1) p
  if fits && fitsAbove then
    if twice < unit || (twice = unit && below % 2 = 0) then some below else some (below + 1)
  else if fits then some below
  else if fitsAbove then some (below + 1)
  else none

def Interval.magnitude (i : Interval) : Nat → Int → Int
  | 0, k => k
  | fuel + 1, k =>
    let (bound, middle) := commonScale 1 k i.middle i.exponent
    if middle < bound then k else magnitude i fuel (k + 1)

def Interval.shortest (i : Interval) (magnitude : Int) : Nat → Nat → Decimal
  | 0, n => ⟨0, magnitude - n⟩
  | fuel + 1, n =>
    match i.onGrid (magnitude - n) with
    | some digits => ⟨digits, magnitude - n⟩
    | none => shortest i magnitude fuel (n + 1)

/-- The shortest decimal for the absolute value of a number other than zero. Seventeen digits are
always enough. -/
def shortest (x : Binary64) : Decimal :=
  let i := Interval.of x
  let guess := ((Nat.log2 x.significand : Int) + x.exponent) * 30103 / 100000 - 1
  trimmed 20 (i.shortest (i.magnitude 4 guess) 17 1)

end Decimal

end RuleTidy
