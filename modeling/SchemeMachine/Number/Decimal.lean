import SchemeMachine.Number.Double

/-!
# Decimals

A decimal is a whole number of units of a power of ten.  This module relates
decimals and doubles both ways: the double nearest to a decimal, and the
shortest decimal that a double is nearest to.

`Double.shortest` looks on ever finer decimal grids, of one significant digit,
two, and so on up to seventeen, for a neighbour of the double that reads back as
the double itself.  Of two such neighbours it takes the nearer one, and the even
one if they are equally near.
-/

namespace SchemeMachine

/-- The number `units * 10 ^ exponent`. -/
structure Decimal where
  units : Nat
  exponent : Int
  deriving DecidableEq

namespace Decimal

/-- The number a decimal denotes. -/
def toRat (d : Decimal) : Rat :=
  (d.units : Rat) * (10 : Rat) ^ d.exponent

/-- The number of decimal digits of a whole number. -/
def digitCount (n : Nat) : Nat :=
  (Nat.toDigits 10 n).length

/-- The double nearest to a decimal, with the given sign.  A decimal of more
than 309 places before the point is past every double, and one below
`10 ^ -324` is nearer to zero than to any other. -/
def toDouble (negative : Bool) (d : Decimal) : Double :=
  let places : Int := d.exponent + (digitCount d.units : Int)
  if d.units = 0 then Double.zero negative
  else if 309 < places then Double.infinite negative
  else if places < -323 then Double.zero negative
  else Double.round negative d.toRat

end Decimal

namespace Double

/-- The greatest `k` with `10 ^ k ≤ x`, for a positive `x`. -/
def decimalOrder (x : Rat) : Int :=
  let k : Int := (Decimal.digitCount x.num.natAbs : Int) - (Decimal.digitCount x.den : Int)
  if (10 : Rat) ^ k ≤ x then k else k - 1

/-- Whether a decimal is read as the positive double of these parts. -/
def readsBack (mantissa : Nat) (exponent : Int) (d : Decimal) : Bool :=
  match d.toDouble false with
  | finite false m e _ => m = mantissa && e = exponent
  | _ => false

/-- The neighbour of the double's value on the grid of units `10 ^ place` that
reads back as the double, if there is one. -/
def neighbour? (mantissa : Nat) (exponent : Int) (place : Int) : Option Decimal :=
  let scaled := magnitude mantissa exponent / (10 : Rat) ^ place
  let lower : Decimal := ⟨scaled.floor.toNat, place⟩
  let upper : Decimal := ⟨scaled.floor.toNat + 1, place⟩
  match readsBack mantissa exponent lower, readsBack mantissa exponent upper with
  | false, false => none
  | true, false => some lower
  | false, true => some upper
  | true, true =>
    if roundHalfEven scaled = scaled.floor then some lower else some upper

/-- The value itself as a decimal. -/
def exactDecimal (mantissa : Nat) (exponent : Int) : Decimal :=
  if 0 ≤ exponent then ⟨mantissa * Nat.pow 2 exponent.toNat, 0⟩
  else ⟨mantissa * Nat.pow 5 (-exponent).toNat, exponent⟩

/-- The shortest decimal that reads back as the double with these parts, which
is not zero. -/
def shortest (mantissa : Nat) (exponent : Int) : Decimal :=
  let order := decimalOrder (magnitude mantissa exponent)
  ((List.range 17).findSome? fun (finer : Nat) =>
    neighbour? mantissa exponent (order - (finer : Int))).getD (exactDecimal mantissa exponent)

end Double

end SchemeMachine
