import SchemeMachine.CommandLine.Log
import SchemeMachine.CommandLine.Options
import SchemeMachine.Interpreter
import SchemeMachine.Settings
import SchemeMachine.Source.File

/-!
# A session from the command line

The command line loads a source file, if it names one, and goes on to the
interactive loop if it asks for it or names no file.  A file that cannot be
loaded ends the session.
-/

namespace SchemeMachine.CommandLine

/-- How a session ends: its exit status, and what it wrote. -/
structure Report where
  exit : Nat
  output : String
  errors : String
  deriving DecidableEq, Repr

/-- How the program ends. -/
inductive Ending where
  /-- With a text on how the program is used. -/
  | usage (exit : Nat)
  | session (report : Report)
  deriving DecidableEq, Repr

/-- What went wrong, as a line of the error output. -/
def stopLine : Stop → String
  | .failure f => f.report
  | .exhausted => ""

/-- Whether everything is logged. -/
def logsAll (options : Options) (settings : Settings) : Bool :=
  options.verbose || settings.logLevel ≤ Settings.debugLevel

/-- The report of a session that left the interpreter like this. -/
def reportOf (options : Options) (settings : Settings) (exit : Nat) (complaint : String)
    (i : Interpreter) : Report :=
  let log := if logsAll options settings then logText i.shared.journal else ""
  ⟨exit, i.shared.output, log ++ complaint⟩

/-- The interactive loop of a session. -/
def interact (steps : Nat) (options : Options) (settings : Settings) (i : Interpreter) : Report :=
  let (_, i) := i.repl steps settings.freshPrompt settings.openPrompt
  reportOf options settings 0 "" i

/-- Run a session. -/
def runSession (steps : Nat) (options : Options) (settings : Settings) (disk : Source.Disk)
    (lines : List String) : Report :=
  match options.file with
  | none => interact steps options settings (.start lines)
  | some name =>
    let source := Source.readNamed disk settings.searched name
    match (Interpreter.start lines).load steps name source with
    | (.error stop, i) => reportOf options settings 1 (stopLine stop) (i.note .loadFailed)
    | (.ok _, i) =>
      if options.repl then interact steps options settings i
      else reportOf options settings 0 "" i

/-- Run the program with these arguments, variables, files and input. -/
def run (steps : Nat) (arguments : List String) (get : String → Option String)
    (disk : Source.Disk) (input : String) : Ending :=
  match parse arguments with
  | .help => .usage 0
  | .wrongUsage => .usage 2
  | .run options =>
    let lines := (Text.inputLines input.toList).map String.ofList
    .session (runSession steps options (Settings.ofVariables get) disk lines)

end SchemeMachine.CommandLine
