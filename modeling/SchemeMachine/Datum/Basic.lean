import SchemeMachine.Number.Basic

/-!
# Data

A datum is what program text denotes: the empty list, a boolean, a number, a
string, a symbol, or a pair of data.  Lists are chains of pairs; a chain that
ends in the empty list is proper and one that ends in anything else is dotted.
-/

namespace SchemeMachine

/-- What program text denotes. -/
inductive Datum where
  | nil
  | bool (b : Bool)
  | number (n : Number)
  | string (s : String)
  | symbol (name : String)
  | pair (head tail : Datum)
  deriving DecidableEq

namespace Datum

/-- The chain of `items` that ends in `tail`. -/
def ofList (items : List Datum) (tail : Datum) : Datum :=
  items.foldr pair tail

/-- The datum `'d` stands for. -/
def quoted (d : Datum) : Datum :=
  pair (symbol "quote") (pair d nil)

end Datum

end SchemeMachine
