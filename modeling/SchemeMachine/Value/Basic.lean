import SchemeMachine.Datum.Basic
import SchemeMachine.Value.Primitive

/-!
# Values

What expressions evaluate to, and what the machine keeps on its stack.

Pairs, closures and continuations are objects: each is stamped with a number
when it is made, and two of them are the same object exactly when their stamps
are equal.  No object is ever changed after it is made, so a value may hold its
parts directly.  Environments do change; a value refers to one by the address of
a node in the store.

A frame is a piece of work that waits for a value: its kind says what will be
done and its payload with what.  A continuation is a whole stack of frames.
-/

namespace SchemeMachine

/-- The address of an environment node. -/
abbrev Addr := Nat

/-- What a frame does with the value it waits for. -/
inductive FrameKind where
  /-- Choose between the consequent and the alternative in the payload. -/
  | choose
  /-- Drop the value and go on with the expressions in the payload. -/
  | sequence
  /-- Bind the symbol in the payload to the value. -/
  | define
  /-- Assign the value to the environment node in the payload. -/
  | assign
  /-- Take the value as an operator; the payload lists the operands. -/
  | operands
  /-- The evaluated operator of a call. -/
  | operator
  /-- An operand yet to be evaluated. -/
  | operand
  /-- Take the value as an argument; the payload lists the earlier ones, last
  first. -/
  | collect
  /-- Return to the environment in the payload. -/
  | restore
  deriving DecidableEq, Repr

namespace FrameKind

/-- The name of a kind of frame in a printed stack. -/
def name : FrameKind → String
  | choose => "THEN"
  | sequence => "BEGIN"
  | define => "DEFINE"
  | assign => "SETQ"
  | operands => "APPLY"
  | operator => "APPLY_FUN"
  | operand => "EVAL_ARG"
  | collect => "CONS_ARGS"
  | restore => "RESTORE_ENV"

/-- All the kinds of frames, in the order of their numbers. -/
def all : List FrameKind :=
  [choose, sequence, define, assign, operands, operator, operand, collect, restore]

/-- The number of a kind of frame. -/
def number (kind : FrameKind) : Nat :=
  all.idxOf kind

end FrameKind

/-- What an expression evaluates to. -/
inductive Value where
  | nil
  | bool (b : Bool)
  | number (n : Number)
  | string (s : String)
  | symbol (name : String)
  | pair (stamp : Nat) (head tail : Value)
  | closure (stamp : Nat) (parameters body : Value) (env : Addr)
  | primitive (p : Primitive)
  | continuation (stamp : Nat) (frames : List (FrameKind × Value))
  | environment (node : Addr)
  /-- The value of an expression that has none. -/
  | void
  /-- What reading gives at the end of the input. -/
  | eof
  /-- The procedure `call/cc`. -/
  | callWithContinuation
  /-- The procedure `apply`. -/
  | applyToList

/-- A kind of work together with what it works on. -/
abbrev Frame := FrameKind × Value

namespace Value

/-! ## Lists -/

/-- The elements of a proper list, or else the tail that a chain of pairs ends
in. -/
def elements : Value → Except Value (List Value)
  | nil => .ok []
  | pair _ head tail => (elements tail).map (head :: ·)
  | other => .error other

/-- The elements of a chain of pairs, whatever it ends in. -/
def items : Value → List Value
  | pair _ head tail => head :: items tail
  | _ => []

/-- The number of elements, if the value is a proper list. -/
def length? (v : Value) : Option Nat :=
  match v.elements with
  | .ok items => some items.length
  | .error _ => none

/-- Whether the value is a proper list of at least one element. -/
def isBody : Value → Bool
  | pair _ _ tail => tail.length?.isSome
  | _ => false

/-! ## Identity -/

/-- Whether two values are the same: the same object, the same symbol, the same
string, or the same number with the same exactness. -/
def same : Value → Value → Bool
  | nil, nil => true
  | bool a, bool b => a = b
  | number m, number n => m.same n
  | string s, string t => s = t
  | symbol a, symbol b => a = b
  | pair i _ _, pair j _ _ => i = j
  | closure i _ _ _, closure j _ _ _ => i = j
  | primitive p, primitive q => p = q
  | continuation i _, continuation j _ => i = j
  | environment a, environment b => a = b
  | void, void => true
  | eof, eof => true
  | callWithContinuation, callWithContinuation => true
  | applyToList, applyToList => true
  | _, _ => false

/-- Whether two values are the same, or numbers that are equal whatever their
exactness. -/
def equivalent (x y : Value) : Bool :=
  x.same y ||
    match x, y with
    | number m, number n => m.equals n
    | _, _ => false

/-- Whether a value counts as true; only `#f` does not. -/
def isTrue : Value → Bool
  | bool false => false
  | _ => true

/-- The type of a value, as named when a part is asked of it that it lacks. -/
def typeName : Value → String
  | nil => "NilType"
  | bool _ => "bool"
  | number (.exact _) => "int"
  | number (.inexact _) => "float"
  | string _ => "str"
  | symbol _ => "Symbol"
  | _ => "object"

end Value

end SchemeMachine
