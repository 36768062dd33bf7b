/-!
# The primitive procedures

The names and arities of the procedures that every program starts with.  What
they do is said in `SchemeMachine.Machine.Primitive`.
-/

namespace SchemeMachine

/-- How many arguments a primitive takes. -/
inductive Arity where
  | exactly (n : Nat)
  | any
  deriving DecidableEq, Repr

namespace Arity

/-- The text of an arity; any number of arguments is written `-1`. -/
def text : Arity → String
  | exactly n => n.repr
  | any => "-1"

end Arity

/-- A primitive procedure. -/
inductive Primitive where
  | car
  | cdr
  | cons
  | eq
  | eqv
  | isPair
  | isNull
  | not
  | list
  | display
  | newline
  | read
  | isEofObject
  | isSymbol
  | add
  | subtract
  | multiply
  | less
  | equal
  | isNumber
  | error
  | globals
  deriving DecidableEq, Repr

namespace Primitive

/-- All the primitives, in the order in which the global environment holds them. -/
def all : List Primitive :=
  [car, cdr, cons, eq, eqv, isPair, isNull, not, list, display, newline, read, isEofObject,
    isSymbol, add, subtract, multiply, less, equal, isNumber, error, globals]

/-- The name a primitive is bound to. -/
def name : Primitive → String
  | car => "car"
  | cdr => "cdr"
  | cons => "cons"
  | eq => "eq?"
  | eqv => "eqv?"
  | isPair => "pair?"
  | isNull => "null?"
  | not => "not"
  | list => "list"
  | display => "display"
  | newline => "newline"
  | read => "read"
  | isEofObject => "eof-object?"
  | isSymbol => "symbol?"
  | add => "+"
  | subtract => "-"
  | multiply => "*"
  | less => "<"
  | equal => "="
  | isNumber => "number?"
  | error => "error"
  | globals => "globals"

/-- How many arguments a primitive takes. -/
def arity : Primitive → Arity
  | car | cdr | isPair | isNull | not | display | isEofObject | isSymbol | isNumber => .exactly 1
  | cons | eq | eqv | add | subtract | multiply | less | equal | error => .exactly 2
  | newline | read | globals => .exactly 0
  | list => .any

/-- The text of a primitive. -/
def text (p : Primitive) : String :=
  "#<" ++ p.name ++ ":" ++ p.arity.text ++ ">"

end Primitive

end SchemeMachine
