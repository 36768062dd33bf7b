/-!
# List notation

An outline is what a printer sees of a value: its pairs, its empty lists, and
the texts of everything else.  `Outline.text` writes a chain of pairs as a
parenthesised list, with a dot before a tail that is not the empty list.
-/

namespace SchemeMachine.Text

/-- The two forms in which a value is written: one that can be read back, and
one for display, which leaves strings without their quotes. -/
inductive Style where
  | write
  | display
  deriving DecidableEq, Repr

/-- The text of a string. -/
def Style.string : Style → String → String
  | write, s => "\"" ++ s ++ "\""
  | display, s => s

/-- What a printer sees of a value. -/
inductive Outline where
  | nil
  | leaf (text : String)
  | pair (head tail : Outline)
  deriving DecidableEq, Repr

/-- The text of an outline, by itself or (`continued`) as what follows the first
element of a list. -/
def Outline.textIn (continued : Bool) : Outline → String
  | nil => if continued then "" else "()"
  | leaf text => if continued then " . " ++ text else text
  | pair head tail =>
    let inner := head.textIn false ++ tail.textIn true
    if continued then " " ++ inner else "(" ++ inner ++ ")"

/-- The text of an outline. -/
def Outline.text (outline : Outline) : String :=
  outline.textIn false

end SchemeMachine.Text
