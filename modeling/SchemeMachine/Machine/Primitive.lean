import SchemeMachine.Machine.Arithmetic
import SchemeMachine.Machine.Shared

/-!
# What the primitives do

`Primitive.perform` gives the result of a primitive on its arguments.  Input and
output suspend the evaluation; everything else answers at once.
-/

namespace SchemeMachine.Primitive

/-- The fault of calling a primitive with the wrong number of arguments. -/
def arityFault [Saving] (p : Primitive) (s : Store) (count : Nat) (arguments : Value) : Fault :=
  let tooFew :=
    match p.arity with
    | .exactly n => count < n
    | .any => false
  .arity tooFew p.text (arguments.written s)

/-- Answer with a value, or fail. -/
def answer (sh : Shared) : Except Fault Value → Except Fault Reply × Shared
  | .error fault => (.error fault, sh)
  | .ok v => (.ok (.value v), sh)

/-- Answer with a boolean. -/
def answerBool (sh : Shared) (b : Bool) : Except Fault Reply × Shared :=
  (.ok (.value (.bool b)), sh)

/-- Write a text and let the host bring it to its destination. -/
def emit (sh : Shared) (text : String) : Except Fault Reply × Shared :=
  (.ok (.suspend (.yielding .void)), sh.write text)

/-- A part of the pair that a primitive is applied to. -/
def part [Saving] (p : Primitive) (s : Store) (select : Value → Value → Value) :
    Value → Except Fault Value
  | .pair _ head tail => .ok (select head tail)
  | other => .error (.pairExpected p.name (other.written s))

/-- Answer with a new object. -/
def answerNew (sh : Shared) (make : Store → Value × Store) : Except Fault Reply × Shared :=
  let (v, sh) := sh.onStore make
  (.ok (.value v), sh)

/-- Perform a primitive.  `arguments` is the list that holds the values `args`. -/
def perform [Saving] (p : Primitive) (arguments : Value) (args : List Value) (sh : Shared) :
    Except Fault Reply × Shared :=
  match p, args with
  | car, [x] => answer sh (part car sh.store (fun head _ => head) x)
  | cdr, [x] => answer sh (part cdr sh.store (fun _ tail => tail) x)
  | cons, [x, y] => answerNew sh (Store.newPair x y)
  | eq, [x, y] => answerBool sh (x.same y)
  | eqv, [x, y] => answerBool sh (x.equivalent y)
  | isPair, [x] => answerBool sh (match x with | .pair .. => true | _ => false)
  | isNull, [x] => answerBool sh (match x with | .nil => true | _ => false)
  | not, [x] => answerBool sh (!x.isTrue)
  | list, items => answerNew sh (Store.newList items)
  | display, [x] => emit sh (x.displayed sh.store)
  | newline, [] => emit sh "\n"
  | read, [] => sh.read "" ""
  | isEofObject, [x] => answerBool sh (match x with | .eof => true | _ => false)
  | isSymbol, [x] => answerBool sh (match x with | .symbol _ => true | _ => false)
  | add, [x, y] => answer sh (x.arithmetic sh.store .add y)
  | subtract, [x, y] => answer sh (x.arithmetic sh.store .subtract y)
  | multiply, [x, y] => answer sh (x.arithmetic sh.store .multiply y)
  | less, [x, y] => answer sh ((x.compare sh.store y).map fun c => .bool (c < 0))
  | equal, [x, y] => answer sh ((x.numbersEqual sh.store y).map .bool)
  | isNumber, [x] => answerBool sh (match x with | .number _ => true | _ => false)
  | error, [x, y] =>
    let s := sh.store
    (.error (.raised (x.displayed s) (x.written s) (y.written s)), sh)
  | globals, [] =>
    answerNew sh (Store.newList (sh.store.bound Store.global))
  | p, args => (.error (p.arityFault sh.store args.length arguments), sh)

end SchemeMachine.Primitive
