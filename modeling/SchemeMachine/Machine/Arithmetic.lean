import SchemeMachine.Fault
import SchemeMachine.Value.Text

/-!
# Arithmetic on values

The numeric operations take any two values and refuse those that are not both
numbers.  Booleans are never numbers.
-/

namespace SchemeMachine.Value

/-- The two numbers that an operator is applied to. -/
def bothNumbers [Saving] (s : Store) (operator : String) :
    Value → Value → Except Fault (Number × Number)
  | number m, number n => .ok (m, n)
  | x, y => .error (.numberExpected operator (x.written s) (y.written s))

/-- The sign of an arithmetic operation. -/
def operationSign : Number.Operation → String
  | .add => "+"
  | .subtract => "-"
  | .multiply => "*"

/-- Apply an arithmetic operation to two values. -/
def arithmetic [Saving] (x : Value) (s : Store) (op : Number.Operation) (y : Value) :
    Except Fault Value :=
  match bothNumbers s (operationSign op) x y with
  | .error fault => .error fault
  | .ok (m, n) =>
    match op.apply? m n with
    | some result => .ok (number result)
    | none => .error .tooLargeForDouble

/-- Compare two values: an exact `-1`, `0` or `1`. -/
def compare [Saving] (x : Value) (s : Store) (y : Value) : Except Fault Int :=
  (bothNumbers s "compare" x y).map fun (m, n) => m.compare n

/-- Whether two values are equal numbers. -/
def numbersEqual [Saving] (x : Value) (s : Store) (y : Value) : Except Fault Bool :=
  (bothNumbers s "=" x y).map fun (m, n) => m.equals n

/-- Whether two values are the same number. -/
def sameNumber : Value → Value → Bool
  | number m, number n => m.same n
  | _, _ => false

end SchemeMachine.Value
