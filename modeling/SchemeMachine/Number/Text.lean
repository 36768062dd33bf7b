import SchemeMachine.Number.Basic

/-!
# The text of a number

An exact number is written in decimal.  A finite inexact number is written with
the shortest digits that read back as it, in plain notation when its first digit
stands between `10 ^ -4` and `10 ^ 15`, and otherwise with an exponent of at
least two digits.  Plain notation always has a fractional part, so that the text
of an inexact number never reads as an exact one.
-/

namespace SchemeMachine

namespace Decimal

/-- The significant digits of a decimal: its digits without the zeros at the end. -/
def significant (d : Decimal) : List Char :=
  ((Nat.toDigits 10 d.units).reverse.dropWhile (· = '0')).reverse

/-- The power of ten at which the first digit stands. -/
def order (d : Decimal) : Int :=
  d.exponent + (digitCount d.units : Int) - 1

/-- A row of zeros. -/
def zeros (n : Nat) : List Char :=
  List.replicate n '0'

/-- Plain notation of significant digits whose first stands at `10 ^ order`. -/
def plain (digits : List Char) (order : Int) : List Char :=
  if order < 0 then '0' :: '.' :: (zeros (-order - 1).toNat ++ digits)
  else
    let whole := order.toNat + 1
    if digits.length ≤ whole then digits ++ zeros (whole - digits.length) ++ ['.', '0']
    else digits.take whole ++ '.' :: digits.drop whole

/-- The digits of an exponent, at least two. -/
def exponentDigits (n : Nat) : List Char :=
  let digits := Nat.toDigits 10 n
  zeros (2 - digits.length) ++ digits

/-- Notation with an exponent: one digit before the point, which is left out
when no digit follows it. -/
def scientific (digits : List Char) (order : Int) : List Char :=
  let mantissa :=
    if digits.length ≤ 1 then digits else digits.take 1 ++ '.' :: digits.drop 1
  mantissa ++ 'e' :: (if order < 0 then '-' else '+') :: exponentDigits order.natAbs

/-- The text of a decimal that is not zero. -/
def text (d : Decimal) : List Char :=
  if -4 ≤ d.order && d.order < 16 then plain d.significant d.order
  else scientific d.significant d.order

end Decimal

namespace Double

/-- The text of the magnitude of a finite double. -/
def magnitudeText (mantissa : Nat) (exponent : Int) : List Char :=
  if mantissa = 0 then "0.0".toList else (shortest mantissa exponent).text

/-- The text of a double. -/
def text : Double → String
  | nan => "+nan.0"
  | infinite negative => if negative then "-inf.0" else "+inf.0"
  | finite negative m e _ =>
    String.ofList (if negative then '-' :: magnitudeText m e else magnitudeText m e)

end Double

namespace Number

/-- The decimal text of an integer. -/
def integerText (n : Int) : String :=
  String.ofList (if n < 0 then '-' :: Nat.toDigits 10 n.natAbs else Nat.toDigits 10 n.natAbs)

/-- The text of a number. -/
def text : Number → String
  | exact n => integerText n
  | inexact x => x.text

end Number

end SchemeMachine
