import SchemeMachine.Datum.Text
import SchemeMachine.Environment.Store
import SchemeMachine.Machine.Saving

/-!
# The text of a value

A value that a program text can denote is written as that datum is.  Procedures,
environments and continuations are written between `#<` and `>`:

* an environment lists the names of its chain, a bar for the marker of a call,
  and ends at the marker of the global environment;
* a closure is written as its parameters, its body and its environment;
* a continuation lists its frames, the first to have been pushed first.

Every value has a text, however deeply it is nested: a limit that a host sets to the depth of a
recursion is not part of the model.
-/

namespace SchemeMachine

open Text (Style Outline)

/-- The names that an environment is written with. -/
def Entry.names : List (Addr × Entry) → List String
  | [] => []
  | (_, .globalMarker) :: _ => ["GlobalEnv"]
  | (_, .marker) :: rest => "|" :: names rest
  | (_, .binding name _) :: rest => name :: names rest
  | (_, .keyed label _ _) :: rest => label :: names rest

/-- The text of an environment. -/
def Store.environmentText (s : Store) (a : Addr) : String :=
  "#<" ++ " ".intercalate (Entry.names (s.chain a)) ++ ">"

mutual

/-- The outline of a value. -/
def Value.outline (s : Store) (style : Style) : Value → Outline
  | .nil => .nil
  | .bool b => .leaf (Datum.boolText b)
  | .number n => .leaf n.text
  | .string text => .leaf (style.string text)
  | .symbol name => .leaf name
  | .pair _ head tail => .pair (head.outline s style) (tail.outline s style)
  | .closure _ parameters body env =>
    .leaf ("#<" ++ (parameters.outline s .write).text ++ ":" ++ (body.outline s .write).text ++
      ":" ++ s.environmentText env ++ ">")
  | .primitive p => .leaf p.text
  | .continuation _ frames =>
    .leaf ("#<" ++ "\n\t  ".intercalate (Frame.texts s frames).reverse ++ ">")
  | .environment a => .leaf (s.environmentText a)
  | .void => .leaf "#<VOID>"
  | .eof => .leaf "#<EOF>"
  | .callWithContinuation => .leaf "#<call/cc>"
  | .applyToList => .leaf "#<apply>"

/-- The texts of some frames. -/
def Frame.texts (s : Store) : List (FrameKind × Value) → List String
  | [] => []
  | (kind, payload) :: frames =>
    (kind.name ++ " " ++ (payload.outline s .write).text) :: Frame.texts s frames

end

/-- The text of a value. -/
def Value.text [Saving] (s : Store) (style : Style) (v : Value) : String :=
  ((Saving.shown v).outline s style).text

/-- The text of a value in the form that can be read back. -/
def Value.written [Saving] (s : Store) (v : Value) : String :=
  v.text s .write

/-- The text of a value in the form for display. -/
def Value.displayed [Saving] (s : Store) (v : Value) : String :=
  v.text s .display

/-- The text of a stack of frames, whose top comes first: that of a continuation
that holds them. -/
def Frame.stackText [Saving] (s : Store) (frames : List Frame) : String :=
  (Value.continuation 0 frames).written s

/-- The label under which a key that is no symbol is listed. -/
def Value.label [Saving] (s : Store) : Value → String
  | .bool b => if b then "True" else "False"
  | .number (.inexact .nan) => "nan"
  | .number (.inexact (.infinite negative)) => if negative then "-inf" else "inf"
  | .string text => text
  | v => v.written s

end SchemeMachine
