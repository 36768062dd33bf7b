/-!
# Doubles

The inexact numbers are the binary floating-point numbers of 64 bits: a sign, a
mantissa below `2 ^ 53` and a binary exponent, two infinities, and one NaN.

A finite double is kept in its only canonical form, so two doubles are equal
exactly when they are the same number with the same sign; in particular `0` and
`-0` differ and NaN equals itself.  The arithmetic is exact rational arithmetic
followed by one rounding, to the nearest double and, between two equally near
ones, to the one with the even mantissa.
-/

namespace SchemeMachine

namespace Double

/-- The least binary exponent, that of the subnormal numbers. -/
def minExponent : Int := -1074

/-- The greatest binary exponent. -/
def maxExponent : Int := 971

/-- The number of mantissas, `2 ^ 53`. -/
def mantissaBound : Nat := 9007199254740992

/-- The least mantissa of a normal number, `2 ^ 52`. -/
def normalMantissa : Nat := 4503599627370496

/-- The mantissa and exponent of exactly one finite double: a normal number has
a full mantissa, a subnormal number the least exponent. -/
def Canonical (mantissa : Nat) (exponent : Int) : Prop :=
  mantissa < mantissaBound ∧ minExponent ≤ exponent ∧ exponent ≤ maxExponent ∧
    (normalMantissa ≤ mantissa ∨ exponent = minExponent)

instance (mantissa : Nat) (exponent : Int) : Decidable (Canonical mantissa exponent) :=
  inferInstanceAs (Decidable (_ ∧ _ ∧ _ ∧ (_ ∨ _)))

end Double

/-- A floating-point number of 64 bits.  `finite negative m e` is `m * 2 ^ e`,
or its negative. -/
inductive Double where
  | nan
  | infinite (negative : Bool)
  | finite (negative : Bool) (mantissa : Nat) (exponent : Int)
      (canonical : Double.Canonical mantissa exponent)
  deriving DecidableEq

namespace Double

/-! ## Rounding -/

/-- Zero, with a sign. -/
def zero (negative : Bool) : Double :=
  .finite negative 0 minExponent (by decide)

/-- The double with these parts.  A mantissa that rounding has carried to the
next power of two moves one binary place up; an exponent out of range gives an
infinity. -/
def ofParts (negative : Bool) (mantissa : Nat) (exponent : Int) : Double :=
  if h : Canonical mantissa exponent then
    .finite negative mantissa exponent h
  else if h : Canonical normalMantissa (exponent + 1) ∧ mantissa = mantissaBound then
    .finite negative normalMantissa (exponent + 1) h.1
  else
    .infinite negative

/-- The integer nearest to `x`; the even one of two equally near integers. -/
def roundHalfEven (x : Rat) : Int :=
  let below := x.floor
  let excess := 2 * (x - below)
  if excess < 1 then below
  else if 1 < excess then below + 1
  else if below % 2 = 0 then below
  else below + 1

/-- The greatest `k` with `2 ^ k ≤ x`, for a positive `x`. -/
def binaryOrder (x : Rat) : Int :=
  let k : Int := (x.num.natAbs.log2 : Int) - (x.den.log2 : Int)
  if (2 : Rat) ^ k ≤ x then k else k - 1

/-- The binary exponent of the doubles around a positive `x`. -/
def gridExponent (x : Rat) : Int :=
  max (binaryOrder x - 52) minExponent

/-- The double nearest to the magnitude `x`, with the given sign. -/
def round (negative : Bool) (x : Rat) : Double :=
  if x = 0 then zero negative
  else
    ofParts negative (roundHalfEven (x / (2 : Rat) ^ gridExponent x)).toNat (gridExponent x)

/-- The double nearest to `x`. -/
def ofRat (x : Rat) : Double :=
  if x < 0 then round true (-x) else round false x

/-- The double nearest to an integer, if it is not too large to have one. -/
def ofInt? (n : Int) : Option Double :=
  match ofRat n with
  | .finite s m e h => some (.finite s m e h)
  | _ => none

/-! ## Values -/

/-- The magnitude of a finite double. -/
def magnitude (mantissa : Nat) (exponent : Int) : Rat :=
  (mantissa : Rat) * (2 : Rat) ^ exponent

/-- The rational number that a finite double with these parts is. -/
def toRat (negative : Bool) (mantissa : Nat) (exponent : Int) : Rat :=
  if negative then -magnitude mantissa exponent else magnitude mantissa exponent

/-! ## Arithmetic -/

/-- The same number with the other sign. -/
def neg : Double → Double
  | nan => nan
  | infinite s => infinite (!s)
  | finite s m e h => finite (!s) m e h

/-- The sum, rounded.  An exact zero is negative only if both terms are. -/
def add : Double → Double → Double
  | nan, _ => nan
  | _, nan => nan
  | infinite s, infinite t => if s = t then infinite s else nan
  | infinite s, finite .. => infinite s
  | finite .., infinite t => infinite t
  | finite s m e _, finite t n f _ =>
    let sum := toRat s m e + toRat t n f
    if sum = 0 then zero (s && t) else ofRat sum

/-- The difference, rounded. -/
def sub (x y : Double) : Double :=
  add x (neg y)

/-- The product, rounded.  It is negative when the signs differ. -/
def mul : Double → Double → Double
  | nan, _ => nan
  | _, nan => nan
  | infinite s, infinite t => infinite (s != t)
  | infinite s, finite t n _ _ => if n = 0 then nan else infinite (s != t)
  | finite s m _ _, infinite t => if m = 0 then nan else infinite (s != t)
  | finite s m e _, finite t n f _ => round (s != t) (magnitude m e * magnitude n f)

end Double

end SchemeMachine
