import FormulaMigration.Json

namespace FormulaMigration

structure Numeral where
  negative : Bool
  whole : Text
  fraction : Option Text
  exponent : Option (Bool × Text)
deriving DecidableEq

namespace Numeral

def digit (c : Char) : Nat :=
  c.toNat - '0'.toNat

def ofDigits (digits : Text) : Nat :=
  digits.foldl (fun n c => 10 * n + digit c) 0

def wordSize : Nat := Nat.pow 2 64

def absorb (n : Nat) : Text → Nat × Text
  | [] => (n, [])
  | c :: rest =>
    if 10 * n + digit c < wordSize then absorb (10 * n + digit c) rest else (n, c :: rest)

def writtenExponent (n : Numeral) : Int :=
  match n.exponent with
  | none => 0
  | some (true, digits) => -(ofDigits digits : Int)
  | some (false, digits) => ofDigits digits

/-- The value as a double. Digits that do not fit in 64 bits are dropped; one before the point
counts in the exponent still. None when the value is too large. -/
def double? (n : Numeral) : Option Double :=
  let (upper, dropped) := absorb 0 n.whole
  let fraction := n.fraction.getD []
  let (significand, rest) := absorb upper fraction
  let exponent := (dropped.length : Int) - (fraction.length - rest.length : Nat) + n.writtenExponent
  Double.ofScientific n.negative significand exponent

def value? (n : Numeral) : Option JsonNumber :=
  let magnitude := ofDigits n.whole
  if n.fraction.isNone && n.exponent.isNone && !n.negative && magnitude < wordSize then
    some (.natural (UInt64.ofNat magnitude))
  else if n.fraction.isNone && n.exponent.isNone && n.negative && 0 < magnitude &&
      magnitude ≤ Nat.pow 2 63 then
    some (.negative (Int64.ofInt (-magnitude)))
  else n.double?.map .double

end Numeral

end FormulaMigration
