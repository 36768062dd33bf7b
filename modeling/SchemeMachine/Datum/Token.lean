import SchemeMachine.Fault
import SchemeMachine.Text.Blank

/-!
# Tokens

A program text is cut into tokens line by line.  A line is first cut at its
double quotes: every second piece is a string literal (the last one may run to
the end of the line), and each literal leaves a slot in the code around it.  The
code then loses its comment, is cut at blanks and around parentheses and quote
marks, and the slots that are left take the literals of the line in order.

A literal inside the comment has lost its slot but not its place in the order.
The slot is an ordinary character, so a line may also hold one that no literal
left there; it takes a literal like any other, and the line has no tokens at all
if none is left for it.
-/

namespace SchemeMachine

/-- A token: a parenthesis, a quote mark, a double quote followed by the content
of a string literal, or any other run of characters. -/
abbrev Token := String

namespace Token

/-- The character that stands for a string literal while a line is cut up. -/
def slot : Char := '\x00'

/-- The start of a comment. -/
def commentStart : Char := ';'

/-- Whether a character is a token wherever it stands. -/
def standsAlone (c : Char) : Bool :=
  c = '(' || c = ')' || c = '\'' || c = slot

/-- The code of a line, with a slot for each literal, and the literals, from the
pieces between its double quotes. -/
def codeAndLiterals : List (List Char) → List Char × List (List Char)
  | [] => ([], [])
  | [code] => (code, [])
  | code :: literal :: rest =>
    let (moreCode, literals) := codeAndLiterals rest
    (code ++ slot :: moreCode, literal :: literals)

/-- The code without its comment. -/
def uncommented (code : List Char) : List Char :=
  code.takeWhile (· ≠ commentStart)

/-- The code with blanks around the characters that stand alone. -/
def spaced (code : List Char) : List Char :=
  code.flatMap fun c => if standsAlone c then [' ', c, ' '] else [c]

/-- The words of a line as tokens, each slot taking the next literal. -/
def fillSlots : List (List Char) → List (List Char) → Except Fault (List Token)
  | [], _ => .ok []
  | word :: words, literals =>
    if word = [slot] then
      match literals with
      | [] => .error .literalMissing
      | literal :: literals =>
        (fillSlots words literals).map (String.ofList ('"' :: literal) :: ·)
    else
      (fillSlots words literals).map (String.ofList word :: ·)

/-- The tokens of one line. -/
def ofLine (line : List Char) : Except Fault (List Token) :=
  let (code, literals) := codeAndLiterals (Text.pieces '"' line)
  fillSlots (Text.words (spaced (uncommented code))) literals

/-- The tokens of some lines. -/
def ofLines : List (List Char) → Except Fault (List Token)
  | [] => .ok []
  | line :: lines =>
    match ofLine line with
    | .error fault => .error fault
    | .ok tokens => (ofLines lines).map (tokens ++ ·)

/-- The tokens of a text. -/
def ofText (text : String) : Except Fault (List Token) :=
  ofLines (Text.pieces '\n' text.toList)

end Token

end SchemeMachine
