import SchemeMachine.CommandLine.Session

/-!
# The program

The outer layer: it asks the system for arguments, variables, files and lines,
and brings output to its destination.  Everything in between is decided by the
modules it imports.
-/

namespace SchemeMachine.Console

/-- How many steps one evaluation may take. -/
def stepLimit : Nat := 1000000000000

/-- What there is at a path of the system's disk. -/
def presence (path : Source.Path) : IO Source.Presence := do
  let name := path.text
  if path.hasNull then return .missing
  try
    let bytes ← IO.FS.readBinFile name
    return .file (bytes.toList.map UInt8.toNat)
  catch problem =>
    if let .invalidArgument .. := problem then return .tooLong
    try
      let _ ← IO.FS.realPath name >>= fun real => real.readDir
      return .directory
    catch _ => return .missing

/-- The part of the system's disk that the search for a file looks at. -/
def diskFor (settings : Settings) (name : String) : IO Source.Disk := do
  let paths := Source.candidates settings.searched name
  let found ← paths.mapM fun path => return (path, ← presence path)
  return fun path => (found.lookup path).getD .missing

/-- Bring output and log to their destinations. -/
def flush (logging : Bool) (i : Interpreter) : IO Interpreter := do
  let out ← IO.getStdout
  out.putStr i.shared.output
  out.flush
  if logging then
    (← IO.getStderr).putStr (CommandLine.logText i.shared.journal)
  return { i with shared := { i.shared with output := "", journal := [] } }

/-- Read a line; at the end of the input there is none. -/
def readLine : IO (Option String) := do
  let line ← (← IO.getStdin).getLine
  return if line.isEmpty then none else some line

/-- Do what a suspension asks of the host. -/
def service (logging : Bool) (suspension : Suspension) (i : Interpreter) :
    IO (Option String × Interpreter) := do
  match suspension with
  | .awaiting request =>
    let i ← flush logging (i.write request.prompt)
    return (← readLine, i)
  | .yielding _ => return (none, ← flush logging i)

/-- See an evaluation to its end. -/
partial def serve (logging : Bool) (outcome : Outcome) (ev : Evaluation) (i : Interpreter) :
    IO (Except Stop Value × Interpreter) := do
  match outcome with
  | .value v => return (.ok v, i)
  | .failed failure => return (.error (.failure failure), i)
  | .exhausted => return (.error .exhausted, i)
  | .suspended s =>
    let (answer, i) ← service logging s i
    let ((outcome, ev), i) := i.onShared (ev.resume stepLimit answer)
    serve logging outcome ev i

/-- Evaluate an expression in the global environment. -/
def evaluate (logging : Bool) (expression : Value) (i : Interpreter) :
    IO (Except Stop Value × Interpreter) := do
  let ((outcome, ev), i) :=
    i.onShared ((Evaluation.ofExpression expression Store.global).start stepLimit)
  serve logging outcome ev i

/-- Evaluate expressions in order, up to the first that has no value. -/
def evaluateAll (logging : Bool) : List Datum → Interpreter → IO (Except Stop Unit × Interpreter)
  | [], i => return (.ok (), i)
  | expression :: rest, i => do
    let (v, i) := i.place expression
    match ← evaluate logging v i with
    | (.error stop, i) => return (.error stop, i)
    | (.ok _, i) => evaluateAll logging rest i

/-- Load a source file. -/
def load (logging : Bool) (name : String) (source : Except Fault String) (i : Interpreter) :
    IO (Except Stop Unit × Interpreter) := do
  let i := i.note (.loading name)
  match source with
  | .error f => return (.error (Interpreter.fault f), i)
  | .ok text =>
    let (expressions, ending) := Datum.allOfText text
    match ← evaluateAll logging expressions i, ending with
    | (.ok (), i), some f => return (.error (Interpreter.fault f), i)
    | result, _ => return result

/-- See a reading to its end. -/
partial def serveReading (logging : Bool) (reply : Except Fault Reply) (i : Interpreter) :
    IO (Except Stop Value × Interpreter) := do
  match reply with
  | .error f => return (.error (Interpreter.fault f), i)
  | .ok (.value v) => return (.ok v, i)
  | .ok (.suspend s) =>
    let (answer, i) ← service logging s i
    let (reply, i) := i.onShared (Shared.resume s answer)
    serveReading logging reply i

/-- The interactive loop. -/
partial def repl (logging : Bool) (settings : Settings) (i : Interpreter) : IO Interpreter := do
  let (reply, i) := i.onShared (Shared.read settings.freshPrompt settings.openPrompt)
  match ← serveReading logging reply i with
  | (.error .exhausted, i) => return i
  | (.error (.failure failure), i) => repl logging settings (i.report failure)
  | (.ok .eof, i) => return i.write "Goodbye\n"
  | (.ok expression, i) =>
    match ← evaluate logging expression i with
    | (.error .exhausted, i) => return i
    | (.error (.failure failure), i) => repl logging settings (i.report failure)
    | (.ok v, i) => repl logging settings (i.echo v)

/-- Run a session at the console. -/
def session (options : CommandLine.Options) (settings : Settings) : IO UInt32 := do
  let logging := CommandLine.logsAll options settings
  let mut i := Interpreter.start []
  if let some name := options.file then
    let source := Source.readNamed (← diskFor settings name) settings.searched name
    let (result, loaded) ← load logging name source i
    i := loaded
    if let .error stop := result then
      let _ ← flush logging (i.note .loadFailed)
      (← IO.getStderr).putStr (CommandLine.stopLine stop)
      return 1
    if !options.repl then
      let _ ← flush logging i
      return 0
  let done ← repl logging settings i
  let _ ← flush logging done
  return 0

/-- How the program is used. -/
def usage : String :=
  "usage: littlescheme [-h] [-v] [file] [-]\n"

end SchemeMachine.Console

open SchemeMachine in
/-- The program. -/
def main (arguments : List String) : IO UInt32 := do
  match CommandLine.parse arguments with
  | .help => IO.print Console.usage; return 0
  | .wrongUsage => IO.eprint Console.usage; return 2
  | .run options =>
    let found ← Settings.variableNames.mapM fun name => return (name, ← IO.getEnv name)
    let get := fun name => (found.lookup name).join
    Console.session options (Settings.ofVariables get)
