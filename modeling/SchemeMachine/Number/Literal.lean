import SchemeMachine.Number.Basic
import SchemeMachine.Text.Digit

/-!
# Number literals

The texts that denote numbers:

* exact: an optional sign and at least one digit;
* inexact: an optional sign, digits with at most one point among them (and at
  least one digit), and optionally `e` or `E`, an optional sign and digits;
* the four spellings `+inf.0`, `-inf.0`, `+nan.0` and `-nan.0`.

A text that is none of these denotes no number.
-/

namespace SchemeMachine.Number

/-- Take an optional sign off a text; the flag says whether it was a minus. -/
def takeSign : List Char → Bool × List Char
  | '+' :: cs => (false, cs)
  | '-' :: cs => (true, cs)
  | cs => (false, cs)

/-- An integer from its sign and its digits. -/
def signed (negative : Bool) (n : Nat) : Int :=
  if negative then -(n : Int) else (n : Int)

/-- An optionally signed row of digits, and nothing after it. -/
def readInteger? (cs : List Char) : Option Int :=
  let (negative, rest) := takeSign cs
  let digits := Text.leadingDigits rest
  if digits.isEmpty || !(Text.afterDigits rest).isEmpty then none
  else some (signed negative (Text.ofDigits digits))

/-- The exponent part of an inexact literal: nothing, or a mark and an integer. -/
def readExponent? : List Char → Option Int
  | [] => some 0
  | c :: cs => if c = 'e' || c = 'E' then readInteger? cs else none

/-- The digits after the point of an inexact literal, if there is a point, and
what follows them. -/
def takeFraction : List Char → List Nat × List Char
  | '.' :: cs => (Text.leadingDigits cs, Text.afterDigits cs)
  | cs => ([], cs)

/-- An inexact literal in digits. -/
def readDecimal? (cs : List Char) : Option Double :=
  let (negative, unsigned) := takeSign cs
  let whole := Text.leadingDigits unsigned
  let (fraction, rest) := takeFraction (Text.afterDigits unsigned)
  if whole.isEmpty && fraction.isEmpty then none
  else
    (readExponent? rest).map fun exponent =>
      Decimal.toDouble negative
        ⟨Text.ofDigits (whole ++ fraction), exponent - (fraction.length : Int)⟩

/-- The spellings of the doubles that have no digits. -/
def special? (cs : List Char) : Option Double :=
  if cs = "+inf.0".toList then some (.infinite false)
  else if cs = "-inf.0".toList then some (.infinite true)
  else if cs = "+nan.0".toList || cs = "-nan.0".toList then some .nan
  else none

/-- The number a text denotes, if it denotes one. -/
def read? (cs : List Char) : Option Number :=
  match readInteger? cs with
  | some n => some (exact n)
  | none =>
    match readDecimal? cs with
    | some x => some (inexact x)
    | none => (special? cs).map inexact

end SchemeMachine.Number
