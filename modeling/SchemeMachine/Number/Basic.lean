import SchemeMachine.Number.Decimal

/-!
# Numbers

A number is exact, an integer of any size, or inexact, a double.  Arithmetic on
two exact numbers is exact; once one of the operands is inexact the other is
converted, and an exact operand past the largest double cannot be.

Comparison never converts.  Every number but NaN has a place on the real line
extended by two infinities, and it is places that are compared, so an exact and
an inexact number are equal exactly when they are the same real number.
-/

namespace SchemeMachine

/-- An exact or an inexact number. -/
inductive Number where
  | exact (n : Int)
  | inexact (x : Double)
  deriving DecidableEq

/-- A place on the real line extended by the two infinities. -/
inductive Place where
  | below
  | real (q : Rat)
  | above
  deriving DecidableEq

namespace Place

/-- The order of the extended line. -/
def lt : Place → Place → Bool
  | below, below => false
  | below, _ => true
  | real _, below => false
  | real p, real q => p < q
  | real _, above => true
  | above, _ => false

end Place

namespace Number

/-! ## Comparison -/

/-- Where a number lies; NaN lies nowhere. -/
def place? : Number → Option Place
  | exact n => some (.real n)
  | inexact .nan => none
  | inexact (.infinite negative) => some (if negative then .below else .above)
  | inexact (.finite s m e _) => some (.real (Double.toRat s m e))

/-- Whether `x` lies below `y`. -/
def lt (x y : Number) : Bool :=
  match x.place?, y.place? with
  | some p, some q => p.lt q
  | _, _ => false

/-- Whether `x` and `y` lie at the same place.  NaN equals no number, itself
included. -/
def equals (x y : Number) : Bool :=
  match x.place?, y.place? with
  | some p, some q => p = q
  | _, _ => false

/-- `-1`, `0` or `1` as `x` is below `y`, neither, or above it.  A pair with a
NaN in it is unordered and gives `0`. -/
def compare (x y : Number) : Int :=
  if y.lt x then 1 else if x.lt y then -1 else 0

/-- Whether two numbers have the same exactness and the same value.  NaN is the
same as itself, and the two zeros are not the same. -/
def same (x y : Number) : Bool :=
  x = y

/-! ## Arithmetic -/

/-- The arithmetic operations. -/
inductive Operation where
  | add
  | subtract
  | multiply
  deriving DecidableEq

/-- The operation on exact numbers. -/
def Operation.onInts : Operation → Int → Int → Int
  | add, m, n => m + n
  | subtract, m, n => m - n
  | multiply, m, n => m * n

/-- The operation on inexact numbers. -/
def Operation.onDoubles : Operation → Double → Double → Double
  | add, x, y => x.add y
  | subtract, x, y => x.sub y
  | multiply, x, y => x.mul y

/-- The double a number is converted to, if it is not too large. -/
def toDouble? : Number → Option Double
  | exact n => Double.ofInt? n
  | inexact x => some x

/-- Apply an operation.  There is no result when an exact operand has to be
converted and is past the largest double. -/
def Operation.apply? (op : Operation) : Number → Number → Option Number
  | exact m, exact n => some (exact (op.onInts m n))
  | x, y =>
    match x.toDouble?, y.toDouble? with
    | some a, some b => some (inexact (op.onDoubles a b))
    | _, _ => none

end Number

end SchemeMachine
