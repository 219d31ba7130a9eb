namespace FormulaMigration

/-- The finite double with this sign and the value `significand * 2 ^ exponent`. The significand is
below `2 ^ 53`, and not below `2 ^ 52` unless the exponent is the least. -/
structure Double where
  negative : Bool
  significand : Nat
  exponent : Int
deriving DecidableEq

namespace Double

def leastExponent : Int := -1074

def greatestExponent : Int := 971

def roundQuotient (n d : Nat) : Nat :=
  if 2 * (n % d) < d then n / d
  else if d < 2 * (n % d) then n / d + 1
  else n / d + n / d % 2

def scaleFraction (n d : Nat) (exponent : Int) : Nat × Nat :=
  if 0 ≤ exponent then (n, d * Nat.pow 2 exponent.toNat)
  else (n * Nat.pow 2 (-exponent).toNat, d)

def exponentOf (n d : Nat) : Int :=
  let guess : Int := (Nat.log2 n : Int) - Nat.log2 d - 52
  let (p, q) := scaleFraction n d guess
  max leastExponent (if p / q < Nat.pow 2 52 then guess - 1 else guess)

def ofFraction (negative : Bool) (n d : Nat) : Option Double :=
  if n = 0 then some ⟨negative, 0, leastExponent⟩
  else
    let exponent := exponentOf n d
    let (p, q) := scaleFraction n d exponent
    let significand := roundQuotient p q
    let rounded : Double :=
      if significand = Nat.pow 2 53 then ⟨negative, Nat.pow 2 52, exponent + 1⟩
      else ⟨negative, significand, exponent⟩
    if rounded.exponent ≤ greatestExponent then some rounded else none

def numerator (x : Double) : Nat :=
  x.significand * Nat.pow 2 x.exponent.toNat

def denominator (x : Double) : Nat :=
  Nat.pow 2 (-x.exponent).toNat

def zero (negative : Bool) : Double := ⟨negative, 0, leastExponent⟩

def powerOfTen (k : Nat) : Double :=
  (ofFraction false (Nat.pow 10 k) 1).getD (zero false)

def timesPower (x : Double) (k : Nat) : Option Double :=
  let y := powerOfTen k
  ofFraction x.negative (x.numerator * y.numerator) (x.denominator * y.denominator)

def overPower (x : Double) (k : Nat) : Double :=
  let y := powerOfTen k
  (ofFraction x.negative (x.numerator * y.denominator) (x.denominator * y.numerator)).getD x

def greatestPower : Nat := 308

/-- The quotient by a power of ten of any size, by dividing by the greatest one as often as needed.
Three such divisions take every number of 64 bits to zero. -/
def overLargePower (x : Double) (k : Nat) : Double :=
  let rounds := (k - 1) / greatestPower
  (Nat.repeat (·.overPower greatestPower) (min rounds 3) x).overPower (k - greatestPower * rounds)

/-- The double for `significand * 10 ^ exponent`: the significand is rounded to a double, and then
multiplied or divided by a rounded power of ten. None when the result is too large. -/
def ofScientific (negative : Bool) (significand : Nat) (exponent : Int) : Option Double :=
  if significand = 0 then some (zero negative)
  else do
    let x ← ofFraction negative significand 1
    if exponent < 0 then some (x.overLargePower (-exponent).toNat)
    else if exponent ≤ greatestPower then x.timesPower exponent.toNat
    else none

end Double

end FormulaMigration
