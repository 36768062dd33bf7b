/-!
# Blank characters and words

Tokens of a program text are kept apart by blank characters.  A character is
blank when it is one of the white space characters of Unicode or one of the
four information separators; the zero-width characters are not blank.

`words` cuts a text into its maximal runs of characters that are not blank.
-/

namespace SchemeMachine.Text

/-- The blank characters, as ascending inclusive ranges of code points. -/
def blankRanges : List (Nat × Nat) :=
  [(0x09, 0x0D), (0x1C, 0x20), (0x85, 0x85), (0xA0, 0xA0), (0x1680, 0x1680), (0x2000, 0x200A),
    (0x2028, 0x2029), (0x202F, 0x202F), (0x205F, 0x205F), (0x3000, 0x3000)]

/-- Whether a character separates words. -/
def isBlank (c : Char) : Bool :=
  blankRanges.any fun r => r.1 ≤ c.toNat && c.toNat ≤ r.2

/-- Put a finished word in front of the words after it; an empty word is none. -/
def closeWord (word : List Char) (rest : List (List Char)) : List (List Char) :=
  if word.isEmpty then rest else word :: rest

/-- The word a text starts with (empty when it starts with a blank), and the
words after that one. -/
def leadingWord (cs : List Char) : List Char × List (List Char) :=
  cs.foldr
    (fun c seen => if isBlank c then ([], closeWord seen.1 seen.2) else (c :: seen.1, seen.2))
    ([], [])

/-- The maximal runs of characters that are not blank, in order. -/
def words (cs : List Char) : List (List Char) :=
  let seen := leadingWord cs
  closeWord seen.1 seen.2

/-- The text without the blanks at its two ends. -/
def trim (s : String) : String :=
  String.ofList ((s.toList.dropWhile isBlank).reverse.dropWhile isBlank).reverse

/-- Put one more character in front of the first of some pieces. -/
def extendFirst (c : Char) : List (List Char) → List (List Char)
  | [] => [[c]]
  | piece :: pieces => (c :: piece) :: pieces

/-- The pieces of a text between the occurrences of `separator`: one more than
there are occurrences, empty ones included. -/
def pieces (separator : Char) (cs : List Char) : List (List Char) :=
  cs.foldr (fun c rest => if c = separator then [] :: rest else extendFirst c rest) [[]]

end SchemeMachine.Text
