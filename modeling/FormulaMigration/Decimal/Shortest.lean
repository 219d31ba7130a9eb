import FormulaMigration.Decimal.Double
import FormulaMigration.Text

/-!
The shortest decimal that reads back as a given double, and its text. Grids of 1, 2, … 17 digits are
tried in turn; on each the two neighbours of the double are tested against the interval of the reals
that round to it.
-/

namespace FormulaMigration

namespace Decimal

structure Scientific where
  digits : Nat
  exponent : Int
deriving DecidableEq

def Scientific.normal : (fuel : Nat) → Scientific → Scientific
  | 0, s => s
  | fuel + 1, s =>
    if s.digits % 10 = 0 ∧ s.digits ≠ 0 then normal fuel ⟨s.digits / 10, s.exponent + 1⟩ else s

def magnitude (n d : Nat) : Int :=
  if d ≤ n then (Nat.toDigits 10 (n / d)).length - 1
  else -((Nat.toDigits 10 ((d + n - 1) / n - 1)).length : Int)

structure Interval where
  lower : Nat
  value : Nat
  upper : Nat
  denominator : Nat
  closed : Bool

def Interval.ofDouble (x : Double) : Interval :=
  let below := if x.significand = Nat.pow 2 52 ∧ x.exponent ≠ Double.leastExponent then 1 else 2
  let exponent := x.exponent - 2
  let scale := Nat.pow 2 exponent.toNat
  ⟨(4 * x.significand - below) * scale, 4 * x.significand * scale, (4 * x.significand + 2) * scale,
    Nat.pow 2 (-exponent).toNat, x.significand % 2 = 0⟩

def Interval.holds (i : Interval) (s : Scientific) : Bool :=
  let p := s.digits * Nat.pow 10 s.exponent.toNat * i.denominator
  let scale := Nat.pow 10 (-s.exponent).toNat
  if i.closed then i.lower * scale ≤ p && p ≤ i.upper * scale
  else i.lower * scale < p && p < i.upper * scale

/-- The neighbours of the value among the multiples of `10 ^ exponent` that lie in the interval; of
two the nearer, and of two equally near ones the one with the even last digit. -/
def Interval.nearest? (i : Interval) (exponent : Int) : Option Scientific :=
  let n := i.value * Nat.pow 10 (-exponent).toNat
  let d := i.denominator * Nat.pow 10 exponent.toNat
  let below : Scientific := ⟨n / d, exponent⟩
  let above : Scientific := ⟨n / d + 1, exponent⟩
  match i.holds below, i.holds above with
  | true, true => some ⟨Double.roundQuotient n d, exponent⟩
  | true, false => some below
  | false, true => some above
  | false, false => none

def shortest (x : Double) : Scientific :=
  let i := Interval.ofDouble x
  let top := magnitude i.value i.denominator
  let grids := (List.range 17).map fun (n : Nat) => top - (n : Int)
  match grids.findSome? i.nearest? with
  | some s => s.normal 17
  | none => ⟨x.numerator, 0⟩

/-- The text of a decimal: with a point and at least one digit after it when the power of ten at or
below it is from -5 to 15, else with an exponent that has a sign. -/
def text (s : Scientific) : Text :=
  let digits := Text.ofNat s.digits
  let magnitude : Int := s.exponent + digits.length - 1
  if -5 ≤ magnitude ∧ magnitude ≤ 15 then
    if magnitude < 0 then
      '0' :: '.' :: List.replicate ((-magnitude).toNat - 1) '0' ++ digits
    else
      let whole := digits ++ List.replicate s.exponent.toNat '0'
      let point := magnitude.toNat + 1
      let fraction := whole.drop point
      whole.take point ++ '.' :: (if fraction.isEmpty then ['0'] else fraction)
  else
    let fraction := digits.drop 1
    digits.take 1 ++ (if fraction.isEmpty then [] else '.' :: fraction) ++ 'e' ::
      (if magnitude < 0 then '-' else '+') :: Text.ofNat magnitude.natAbs

def ofDouble (x : Double) : Text :=
  let digits := if x.significand = 0 then ['0', '.', '0'] else text (shortest x)
  if x.negative then '-' :: digits else digits

end Decimal

end FormulaMigration
