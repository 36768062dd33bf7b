/-!
# Faults

Everything that can go wrong, from a stray parenthesis to an unreadable file,
is one cause of type `Fault`.  A fault holds the texts of the values it speaks
of, as they were when it arose.  `Fault.label` names the class a cause belongs
to and `Fault.message` words it.

A `Failure` is a fault together with the trace of the frames that were pending
when it arose, if one was taken.
-/

namespace SchemeMachine

/-- A cause of failure. -/
inductive Fault where
  /-- A closing parenthesis where a datum should start. -/
  | unexpectedClose
  /-- A dot before the first element of a list. -/
  | unexpectedDot
  /-- Something other than a closing parenthesis after a dotted tail. -/
  | closeExpected
  /-- The tokens end inside a datum. -/
  | endOfInput
  /-- A string slot with no string literal left on its line. -/
  | literalMissing
  /-- A special form with too few, too many or improperly listed operands. -/
  | malformed (keyword form : String)
  /-- A form that names something with `found`, which is no symbol. -/
  | symbolExpected (form found : String)
  /-- A parameter that is no symbol. -/
  | badParameter (found : String)
  /-- Parameters that end in neither nothing nor a symbol. -/
  | badParameterList (parameters : String)
  /-- A symbol without a binding. -/
  | unbound (name : String)
  /-- A call that leaves parameters over. -/
  | surplusParameters (parameters : String)
  /-- A call that leaves arguments over. -/
  | surplusArguments (arguments : String)
  /-- A primitive called with the wrong number of arguments. -/
  | arity (tooFew : Bool) (callee arguments : String)
  /-- `call/cc` or `apply` called with the wrong number of arguments. -/
  | argumentCount (tooFew : Bool) (callee : String) (expected : Nat) (arguments : String)
  /-- A call of something that cannot be called. -/
  | notCallable (callee arguments : String)
  /-- An operand that should have been a pair. -/
  | pairExpected (operator found : String)
  /-- Operands that should both have been numbers. -/
  | numberExpected (operator left right : String)
  /-- Arguments for `apply` that are no list. -/
  | listExpected (found : String)
  /-- A list that should have been proper and ends in `tail`. -/
  | improperList (tail : String)
  /-- An error raised by the program itself: its reason as shown and as
  written, and what it is about. -/
  | raised (reasonShown reasonWritten irritant : String)
  /-- A part asked of a value that has no such part. -/
  | noPart (type part : String)
  /-- An exact number that is too large to become inexact. -/
  | tooLargeForDouble
  /-- A frame asked of an empty stack. -/
  | emptyStack
  /-- A frame where frames of its kind cannot be resumed. -/
  | invalidOperation (frame : String)
  /-- A second start of one evaluation. -/
  | alreadyStarted
  /-- A resumption of an evaluation that is not suspended. -/
  | notSuspended
  /-- No source file under this name. -/
  | sourceNotFound (name : String)
  /-- No file at this path. -/
  | fileMissing (path : String)
  /-- A directory where a file should be. -/
  | isDirectory (path : String)
  /-- A path, or a name in it, that is longer than the system allows. -/
  | nameTooLong (path : String)
  /-- A null character in the path of a file. -/
  | nullInPath
  /-- A file that is not UTF-8 text. -/
  | undecodable (problem : String)
  deriving DecidableEq, Repr

namespace Fault

/-- The class a cause of failure belongs to. -/
def label : Fault → String
  | unexpectedClose | unexpectedDot | closeExpected => "SchemeSyntaxError"
  | malformed .. | symbolExpected .. | badParameter _ | badParameterList _ => "SchemeSyntaxError"
  | endOfInput => "EndOfInput"
  | literalMissing => "IndexError"
  | unbound _ => "UnboundSymbolError"
  | surplusParameters _ => "TooFewArgumentsError"
  | surplusArguments _ => "TooManyArgumentsError"
  | arity tooFew .. | argumentCount tooFew .. =>
    if tooFew then "TooFewArgumentsError" else "TooManyArgumentsError"
  | notCallable .. => "NotCallableError"
  | pairExpected .. | numberExpected .. | listExpected _ => "SchemeTypeError"
  | improperList _ => "ImproperListError"
  | raised .. => "GuestError"
  | noPart .. => "AttributeError"
  | tooLargeForDouble => "OverflowError"
  | emptyStack | invalidOperation _ | alreadyStarted | notSuspended => "SchemeError"
  | sourceNotFound _ | fileMissing _ => "FileNotFoundError"
  | isDirectory _ => "IsADirectoryError"
  | nameTooLong _ => "OSError"
  | nullInPath => "ValueError"
  | undecodable _ => "UnicodeDecodeError"

/-- The wording of a cause of failure. -/
def message : Fault → String
  | unexpectedClose => "unexpected )"
  | unexpectedDot => "unexpected ."
  | closeExpected => ") is expected"
  | endOfInput => "unexpected EOF"
  | literalMissing => "pop from an empty deque"
  | malformed keyword form => "malformed " ++ keyword ++ ": " ++ form
  | symbolExpected form found => "symbol expected in " ++ form ++ ": " ++ found
  | badParameter found => "bad parameter: " ++ found
  | badParameterList parameters => "bad parameter list: " ++ parameters
  | unbound name => name
  | surplusParameters parameters => "surplus param: " ++ parameters
  | surplusArguments arguments => "surplus arg: " ++ arguments
  | arity _ callee arguments => "arity not matched: " ++ callee ++ " and " ++ arguments
  | argumentCount _ callee expected arguments =>
    callee ++ " expects " ++ expected.repr ++ " argument(s): " ++ arguments
  | notCallable callee arguments => "not a function: " ++ callee ++ " with " ++ arguments
  | pairExpected operator found => operator ++ ": pair expected: " ++ found
  | numberExpected operator left right =>
    operator ++ ": number expected: " ++ left ++ " " ++ right
  | listExpected found => "apply: list expected: " ++ found
  | improperList _ => "improper list"
  | raised reason _ irritant => reason ++ ": " ++ irritant
  | noPart type part => "'" ++ type ++ "' object has no attribute '" ++ part ++ "'"
  | tooLargeForDouble => "int too large to convert to float"
  | emptyStack => "the continuation is empty"
  | invalidOperation frame => "invalid operation: " ++ frame
  | alreadyStarted => "evaluation already started"
  | notSuspended => "evaluation is not suspended"
  | sourceNotFound name => name
  | fileMissing path => "[Errno 2] No such file or directory: " ++ path
  | isDirectory path => "[Errno 21] Is a directory: " ++ path
  | nameTooLong path => "[Errno 36] File name too long: " ++ path
  | nullInPath => "embedded null byte"
  | undecodable problem => problem

/-- Whether a cause of failure is one of the language, rather than a fault of
the tokens, the arithmetic or the files underneath it. -/
def ofLanguage : Fault → Bool
  | literalMissing | noPart .. | tooLargeForDouble => false
  | sourceNotFound _ | fileMissing _ | isDirectory _ | nameTooLong _ => false
  | nullInPath | undecodable _ => false
  | _ => true

/-- Whether an evaluation that fails for this cause tells which frames were
pending.  An error raised by the program itself is left as it is. -/
def traced : Fault → Bool
  | raised .. => false
  | fault => fault.ofLanguage

end Fault

/-- A fault and the trace taken of it. -/
structure Failure where
  fault : Fault
  trace : Option String
  deriving DecidableEq, Repr

namespace Failure

/-- A fault without a trace. -/
def plain (fault : Fault) : Failure :=
  ⟨fault, none⟩

/-- The message, followed by the trace on a line of its own. -/
def text (failure : Failure) : String :=
  match failure.trace with
  | none => failure.fault.message
  | some trace => failure.fault.message ++ "\n\t" ++ trace

/-- The line that reports a failure. -/
def report (failure : Failure) : String :=
  failure.fault.label ++ ": " ++ failure.text ++ "\n"

end Failure

end SchemeMachine
