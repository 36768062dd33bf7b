import SchemeMachine.Text.Digit

/-!
# Options of the command line

The command line names at most one source file and may go on with a dash, which
asks for the interactive loop after the file.  The flags `-v` (`--verbose`) and
`-h` (`--help`) may stand anywhere; long flags may be shortened as long as they
stay unambiguous, short flags may be run together, also with an equals sign after
the first, and after `--` nothing is a flag.

The file and the dash have to stand next to each other: the first run of
arguments that are not flags is taken for them, and any further argument is one
too many.
-/

namespace SchemeMachine.CommandLine

/-- What the command line asks for. -/
structure Options where
  file : Option String
  repl : Bool
  verbose : Bool
  deriving DecidableEq, Repr

/-- How the command line is understood. -/
inductive Request where
  | run (options : Options)
  | help
  | wrongUsage
  deriving DecidableEq, Repr

/-- A flag. -/
inductive Flag where
  | help
  | verbose
  deriving DecidableEq, Repr

/-- The spellings of the flags. -/
def flagNames : List (String × Flag) :=
  [("-h", .help), ("--help", .help), ("-v", .verbose), ("--verbose", .verbose)]

/-- One argument of the command line. -/
inductive Argument where
  | plain (text : String)
  /-- The `--` after which nothing is a flag. -/
  | separator
  /-- A flag, or short flags run together. -/
  | flags (flags : List Flag)
  /-- A flag with something after it that it does not take. -/
  | flagWithValue
  | unknownFlag
  /-- A shortened flag that could stand for several. -/
  | ambiguous
  deriving DecidableEq, Repr

/-- Short flags run together after a first one, each given by its letter. -/
def flagCluster (first : Flag) (letters : List Char) : Argument :=
  match letters.mapM fun letter => flagNames.lookup (String.ofList ['-', letter]) with
  | some rest => .flags (first :: rest)
  | none => .flagWithValue

/-- A flag with an equals sign after it.  Only a short one may go on, with the
letters of further short flags. -/
def flagEquals (flag : Flag) (name value : List Char) : Argument :=
  if name.length = 2 && !value.isEmpty then flagCluster flag value else .flagWithValue

/-- The part of an argument before its first equals sign, and the part after
it if there is one. -/
def splitAtEquals (cs : List Char) : List Char × Option (List Char) :=
  match cs.dropWhile (· ≠ '=') with
  | [] => (cs, none)
  | _ :: value => (cs.takeWhile (· ≠ '='), some value)

/-- A line without the line break at its end. -/
def chomp (cs : List Char) : List Char :=
  if cs.getLast? = some '\n' then cs.dropLast else cs

/-- Whether an argument is a negative number, which is no flag.  A line break at
its end does not count. -/
def isNegativeNumber (argument : List Char) : Bool :=
  match chomp argument with
  | '-' :: cs =>
    let whole := cs.takeWhile Text.isDigit
    match cs.dropWhile Text.isDigit with
    | [] => !whole.isEmpty
    | '.' :: fraction => !fraction.isEmpty && fraction.all Text.isDigit
    | _ => false
  | _ => false

/-- An argument that starts with a dash and is no spelling of a flag. -/
def classifyOther (cs : List Char) : Argument :=
  if isNegativeNumber cs || cs.contains ' ' then .plain (String.ofList cs) else .unknownFlag

/-- An argument that starts with a dash and is no spelling of a flag, unless a
long flag has been shortened or short flags have been run together. -/
def classifyShortened (cs : List Char) : Argument :=
  if cs.take 2 = ['-', '-'] then
    let (start, value) := splitAtEquals cs
    match flagNames.filter fun (name, _) => start.isPrefixOf name.toList with
    | [] => classifyOther cs
    | [(_, flag)] =>
      if value.isSome then .flagWithValue else .flags [flag]
    | _ => .ambiguous
  else
    match flagNames.lookup (String.ofList (cs.take 2)) with
    | some flag => flagCluster flag (cs.drop 2)
    | none => classifyOther cs

/-- Understand one argument by itself. -/
def classify (text : String) : Argument :=
  let cs := text.toList
  if cs.head? ≠ some '-' || cs = ['-'] then .plain text
  else
    match flagNames.lookup text with
    | some flag => .flags [flag]
    | none =>
      let (start, value) := splitAtEquals cs
      match flagNames.lookup (String.ofList start), value with
      | some flag, some value => flagEquals flag start value
      | _, _ => classifyShortened cs

/-- Understand the arguments one by one; after `--` all are plain. -/
def classifyAll : List String → List Argument
  | [] => []
  | text :: rest =>
    if text = "--" then .separator :: rest.map .plain
    else classify text :: classifyAll rest

/-- The arguments of the first place in a run: at most one plain one, with the
separators around it; and the rest of the run. -/
def takePlace (run : List Argument) : List Argument × List Argument :=
  let before := run.takeWhile (· = .separator)
  match run.dropWhile (· = .separator) with
  | .plain text :: rest =>
    (before ++ .plain text :: rest.takeWhile (· = .separator), rest.dropWhile (· = .separator))
  | rest => (before, rest)

/-- The text of an argument as it was given. -/
def givenText : Argument → Option String
  | .plain text => some text
  | .separator => some "--"
  | _ => none

/-- The argument in a place, after its first separator has been dropped. -/
def placed (place : List Argument) : Option String :=
  ((place.filterMap givenText).erase "--").head?

/-- Whether an argument is a plain one or a separator. -/
def isPositional : Argument → Bool
  | .plain _ | .separator => true
  | _ => false

/-- What has been understood of a command line so far. -/
structure Understood where
  /-- The file and the word after it, once the places for them are filled. -/
  places : Option (Option String × Option String)
  verbose : Bool
  surplus : Bool

/-- Fill the two places from a run of arguments that are not flags. -/
def fillPlaces (run : List Argument) (u : Understood) : Understood :=
  match u.places with
  | some _ => { u with surplus := u.surplus || !run.isEmpty }
  | none =>
    let (first, rest) := takePlace run
    let (second, rest) := takePlace rest
    { u with places := some (placed first, placed second), surplus := u.surplus || !rest.isEmpty }

/-- Whether the word after the file is something other than a dash. -/
def wrongWord (u : Understood) : Bool :=
  match u.places with
  | some (_, some word) => word ≠ "-"
  | _ => false

/-- The request of a command line that has been understood to the end. -/
def conclude (u : Understood) : Request :=
  if wrongWord u || u.surplus then .wrongUsage
  else
    match u.places with
    | some (file, word) => .run ⟨file, word.isSome, u.verbose⟩
    | none => .run ⟨none, false, u.verbose⟩

/-- Go through the arguments, collecting runs of those that are not flags (last
first) and obeying the flags. -/
def understand (u : Understood) (run : List Argument) : List Argument → Request
  | [] => conclude (fillPlaces run.reverse u)
  | argument :: rest =>
    if isPositional argument then understand u (argument :: run) rest
    else
      let u := if run.isEmpty then u else fillPlaces run.reverse u
      if wrongWord u then .wrongUsage
      else
        match argument with
        | .flags flags =>
          if flags.contains .help then .help else understand { u with verbose := true } [] rest
        | .unknownFlag => understand { u with surplus := true } [] rest
        | _ => .wrongUsage

/-- Understand a command line. -/
def parse (arguments : List String) : Request :=
  let classified := classifyAll arguments
  if classified.contains .ambiguous then .wrongUsage
  else understand ⟨none, false, false⟩ [] classified

end SchemeMachine.CommandLine
