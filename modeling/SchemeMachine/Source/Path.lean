import SchemeMachine.Text.Blank

/-!
# Paths

A path is absolute or relative and has named parts.  Repeated slashes, parts that
are a single dot and slashes at the end say nothing and are dropped; two dots are
kept.  A path that starts with exactly two slashes keeps both.
-/

namespace SchemeMachine.Source

/-- Where a path starts. -/
inductive Anchor where
  | here
  | root
  | doubleRoot
  deriving DecidableEq, Repr

/-- The text of an anchor. -/
def Anchor.text : Anchor → String
  | here => ""
  | root => "/"
  | doubleRoot => "//"

/-- A path to a file or directory. -/
structure Path where
  anchor : Anchor
  parts : List String
  deriving DecidableEq, Repr

namespace Path

/-- The anchor of a path text. -/
def anchorOf : List Char → Anchor
  | '/' :: '/' :: '/' :: _ => .root
  | '/' :: '/' :: _ => .doubleRoot
  | '/' :: _ => .root
  | _ => .here

/-- The path that a text spells. -/
def ofText (text : String) : Path :=
  let cs := text.toList
  ⟨anchorOf cs, ((Text.pieces '/' cs).filter fun part => !part.isEmpty && part ≠ ['.']).map
    String.ofList⟩

/-- The text of a path; the path without parts that starts here is a dot. -/
def text (p : Path) : String :=
  if p.anchor = .here && p.parts.isEmpty then "."
  else p.anchor.text ++ "/".intercalate p.parts

/-- Whether a path does not depend on the current directory. -/
def isAbsolute (p : Path) : Bool :=
  p.anchor ≠ .here

/-- Whether a path holds the null character, which no name on a disk can. -/
def hasNull (p : Path) : Bool :=
  p.parts.any fun part => part.toList.contains '\x00'

/-- A relative path as seen from a directory. -/
def under (directory p : Path) : Path :=
  ⟨directory.anchor, directory.parts ++ p.parts⟩

end Path

end SchemeMachine.Source
