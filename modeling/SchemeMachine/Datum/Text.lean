import SchemeMachine.Datum.Basic
import SchemeMachine.Number.Text
import SchemeMachine.Text.Outline

/-!
# The text of a datum

Booleans are written `#t` and `#f`, numbers in decimal, symbols by name, strings
between double quotes (or bare, for display) and pairs in list notation.
-/

namespace SchemeMachine.Datum

open Text (Style Outline)

/-- The text of a boolean. -/
def boolText (b : Bool) : String :=
  if b then "#t" else "#f"

/-- The outline of a datum. -/
def outline (style : Style) : Datum → Outline
  | nil => .nil
  | bool b => .leaf (boolText b)
  | number n => .leaf n.text
  | string s => .leaf (style.string s)
  | symbol name => .leaf name
  | pair head tail => .pair (head.outline style) (tail.outline style)

/-- The text of a datum. -/
def text (style : Style) (d : Datum) : String :=
  (d.outline style).text

end SchemeMachine.Datum
