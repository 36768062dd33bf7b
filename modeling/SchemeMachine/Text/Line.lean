/-!
# Lines

A line of input ends with its newline, or with the text.  In a file a carriage
return, alone or before a newline, counts as a newline.
-/

namespace SchemeMachine.Text

/-- The lines of a text, each with its newline; the last may have none. -/
def inputLines (cs : List Char) : List (List Char) :=
  cs.foldr
    (fun c lines =>
      if c = '\n' then ['\n'] :: lines
      else
        match lines with
        | [] => [[c]]
        | line :: rest => (c :: line) :: rest)
    []

/-- The text with every line ending as a newline. -/
def newlines : List Char → List Char
  | [] => []
  | '\r' :: '\n' :: cs => '\n' :: newlines cs
  | '\r' :: cs => '\n' :: newlines cs
  | c :: cs => c :: newlines cs

end SchemeMachine.Text
