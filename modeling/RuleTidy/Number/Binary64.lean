/-! Finite binary floating-point numbers of sixty-four bits, and rounding to them. All arithmetic
is exact on natural numbers. -/

namespace RuleTidy

/-- The number ±`significand` · 2^`exponent`. Either the significand has fifty-three bits, or the
exponent is the least one. -/
structure Binary64 where
  negative : Bool
  significand : Nat
  exponent : Int
  deriving DecidableEq

namespace Binary64

def leastExponent : Int := -1074

def greatestExponent : Int := 971

def zero (negative : Bool) : Binary64 := ⟨negative, 0, leastExponent⟩

def isZero (x : Binary64) : Bool := x.significand = 0

def negate (x : Binary64) : Binary64 := { x with negative := !x.negative }

protected def beq (x y : Binary64) : Bool := (x.isZero && y.isZero) || decide (x = y)

instance : BEq Binary64 := ⟨Binary64.beq⟩

@[simp] theorem beq_self (x : Binary64) : (x == x) = true := by
  simp [BEq.beq, Binary64.beq]

theorem beq_comm (x y : Binary64) : (x == y) = (y == x) := by
  simp only [BEq.beq, Binary64.beq, Bool.and_comm, eq_comm]

theorem beq_trans {x y z : Binary64} (hxy : (x == y) = true) (hyz : (y == z) = true) :
    (x == z) = true := by
  simp only [BEq.beq, Binary64.beq, Bool.or_eq_true, Bool.and_eq_true, decide_eq_true_eq] at *
  rcases hxy with ⟨hx, hy⟩ | rfl
  · rcases hyz with ⟨_, hz⟩ | rfl
    · exact .inl ⟨hx, hz⟩
    · exact .inl ⟨hx, hy⟩
  · exact hyz

def divNearest (num den : Nat) : Nat :=
  let q := num / den
  let twice := 2 * (num % den)
  if twice < den || (twice = den && q % 2 = 0) then q else q + 1

def scaleDown (num den : Nat) (exponent : Int) : Nat × Nat :=
  (num * Nat.pow 2 (-exponent).toNat, den * Nat.pow 2 exponent.toNat)

def ofQuotient (negative : Bool) (num den : Nat) : Option Binary64 :=
  if num = 0 then some (zero negative) else
    let guess : Int := num.log2 - den.log2 - 52
    let (n, d) := scaleDown num den guess
    let exponent := max (if n / d < Nat.pow 2 52 then guess - 1 else guess) leastExponent
    let (n, d) := scaleDown num den exponent
    let significand := divNearest n d
    let (significand, exponent) :=
      if significand = Nat.pow 2 53 then (Nat.pow 2 52, exponent + 1) else (significand, exponent)
    if exponent > greatestExponent then none else some ⟨negative, significand, exponent⟩

def digitCount (n : Nat) : Nat := (Nat.toDigits 10 n).length

/-- The number nearest to `digits` · 10^`exponent`, unless it is too large. Exponents far outside
the range are settled by the size of the number alone. -/
def ofDecimal (negative : Bool) (digits : Nat) (exponent : Int) : Option Binary64 :=
  let size := exponent + digitCount digits
  if digits = 0 || size < -400 then some (zero negative)
  else if size > 400 then none
  else ofQuotient negative (digits * Nat.pow 10 exponent.toNat)
    (Nat.pow 10 (-exponent).toNat)

def quotient (x : Binary64) : Nat × Nat :=
  (x.significand * Nat.pow 2 x.exponent.toNat, Nat.pow 2 (-x.exponent).toNat)

def mul (x y : Binary64) : Option Binary64 :=
  let (a, b) := x.quotient
  let (c, d) := y.quotient
  ofQuotient (x.negative != y.negative) (a * c) (b * d)

def div (x y : Binary64) : Option Binary64 :=
  let (a, b) := x.quotient
  let (c, d) := y.quotient
  ofQuotient (x.negative != y.negative) (a * d) (b * c)

end Binary64

end RuleTidy
