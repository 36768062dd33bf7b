import SchemeMachine.Datum.Reader

/-!
# The input buffer

The tokens that have been typed and not yet read.  The interactive loop and the
`read` procedure draw from the same buffer, so what is typed after an expression
on one line is what the next `read` sees.

Reading from a buffer whose tokens end too early leaves them in place and asks
for another line; the prompt tells whether a datum has been begun.  A syntax
error drops everything that was typed.
-/

namespace SchemeMachine

/-- A request for a line of input: the prompt to show, and the prompts to choose
from when the reading goes on. -/
structure LineRequest where
  prompt : String
  freshPrompt : String
  openPrompt : String
  deriving DecidableEq, Repr

/-- Tokens not yet read. -/
structure InputBuffer where
  tokens : List Token
  deriving DecidableEq, Repr

namespace InputBuffer

/-- What reading from the buffer gives. -/
inductive Answer where
  | datum (d : Datum)
  | awaiting (request : LineRequest)
  | endOfFile

/-- Nothing typed. -/
def empty : InputBuffer :=
  ⟨[]⟩

/-- Add the tokens of a text. -/
def feed (text : String) (buffer : InputBuffer) : Except Fault InputBuffer :=
  (Token.ofText text).map fun tokens => ⟨buffer.tokens ++ tokens⟩

/-- Read one datum, or ask for more. -/
def read (freshPrompt openPrompt : String) (buffer : InputBuffer) :
    Except Fault Answer × InputBuffer :=
  match Datum.readOne buffer.tokens with
  | (.ok d, rest) => (.ok (.datum d), ⟨rest⟩)
  | (.error .endOfInput, _) =>
    let prompt := if buffer.tokens.isEmpty then freshPrompt else openPrompt
    (.ok (.awaiting ⟨prompt, freshPrompt, openPrompt⟩), buffer)
  | (.error fault, _) => (.error fault, empty)

/-- Add a line and read again; without a line the input has ended. -/
def supply (line : Option String) (freshPrompt openPrompt : String) (buffer : InputBuffer) :
    Except Fault Answer × InputBuffer :=
  match line with
  | none => (.ok .endOfFile, buffer)
  | some text =>
    match buffer.feed text with
    | .error fault => (.error fault, buffer)
    | .ok fed => fed.read freshPrompt openPrompt

end InputBuffer

end SchemeMachine
