import SchemeMachine.Evaluation

/-!
# The interpreter

An interpreter evaluates program texts one after another against one global
environment, and serves the evaluations that suspend: it writes the prompt and
hands over the next line of input, or the end of the input when there is none.

`repl` is the interactive loop.  It reads an expression, evaluates it and writes
its value, until the input ends; a failure is reported and the loop goes on.

Every evaluation may take at most the given number of steps, and a loop may take
at most as many rounds.
-/

namespace SchemeMachine

/-- Why there is no value: a failure, or more steps than were allowed. -/
inductive Stop where
  | failure (f : Failure)
  | exhausted
  deriving DecidableEq, Repr

/-- The state of an interpreter, and the lines of input still to come. -/
structure Interpreter where
  shared : Shared
  lines : List String

namespace Interpreter

/-- An interpreter at the start, with these lines of input to come. -/
def start (lines : List String) : Interpreter :=
  ⟨.initial, lines⟩

/-- Stop with a fault that has no trace. -/
def fault (f : Fault) : Stop :=
  .failure (.plain f)

/-- Act on the state that evaluations share. -/
def onShared {α : Type} (act : Shared → α × Shared) : Interpreter → α × Interpreter
  | ⟨shared, lines⟩ =>
    let (a, shared) := act shared
    (a, ⟨shared, lines⟩)

/-- Take the next line of input. -/
def readLine (i : Interpreter) : Option String × Interpreter :=
  match i.lines with
  | [] => (none, i)
  | line :: lines => (some line, { i with lines := lines })

/-- Write a text to the output. -/
def write (text : String) (i : Interpreter) : Interpreter :=
  { i with shared := i.shared.write text }

/-- Note an event in the journal. -/
def note (event : Event) (i : Interpreter) : Interpreter :=
  { i with shared := i.shared.note event }

/-- Do what a suspension asks of the host. -/
def service (suspension : Suspension) (i : Interpreter) : Option String × Interpreter :=
  match suspension with
  | .awaiting request => (i.write request.prompt).readLine
  | .yielding _ => (none, i)

/-! ## Evaluating -/

/-- See an evaluation to its end, serving at most so many suspensions. -/
def serve [Saving] (steps : Nat) : Nat → Outcome → Evaluation → Interpreter →
    Except Stop Value × Interpreter
  | _, .value v, _, i => (.ok v, i)
  | _, .failed failure, _, i => (.error (.failure failure), i)
  | _, .exhausted, _, i => (.error .exhausted, i)
  | 0, .suspended _, _, i => (.error .exhausted, i)
  | rounds + 1, .suspended s, ev, i =>
    let (answer, i) := i.service s
    let ((outcome, ev), i) := i.onShared (ev.resume steps answer)
    serve steps rounds outcome ev i

/-- Evaluate a value as an expression in the global environment. -/
def evaluateValue [Saving] (steps : Nat) (expression : Value) (i : Interpreter) :
    Except Stop Value × Interpreter :=
  let ((outcome, ev), i) :=
    i.onShared ((Evaluation.ofExpression expression Store.global).start steps)
  serve steps steps outcome ev i

/-- Make a datum into a value of the interpreter. -/
def place (d : Datum) (i : Interpreter) : Value × Interpreter :=
  i.onShared (Shared.onStore (Store.place d))

/-- Evaluate an expression in the global environment. -/
def evaluate [Saving] (steps : Nat) (expression : Datum) (i : Interpreter) :
    Except Stop Value × Interpreter :=
  let (v, i) := i.place expression
  i.evaluateValue steps v

/-- Evaluate expressions in order; the value is that of the last one, or else
`last`. -/
def evaluateAll [Saving] (steps : Nat) (last : Value) : List Datum → Interpreter →
    Except Stop Value × Interpreter
  | [], i => (.ok last, i)
  | expression :: rest, i =>
    match i.evaluate steps expression with
    | (.error stop, i) => (.error stop, i)
    | (.ok v, i) => evaluateAll steps v rest i

/-- Evaluate every expression of a program text.  Those before a fault in the
text are evaluated; a text that cannot be cut into tokens is not evaluated at
all. -/
def eval [Saving] (steps : Nat) (text : String) (i : Interpreter) :
    Except Stop Value × Interpreter :=
  let (expressions, ending) := Datum.allOfText text
  match i.evaluateAll steps .void expressions with
  | (.error stop, i) => (.error stop, i)
  | (.ok v, i) =>
    match ending with
    | none => (.ok v, i)
    | some f => (.error (fault f), i)

/-- Evaluate a source file, given what reading it gave. -/
def load [Saving] (steps : Nat) (name : String) (source : Except Fault String) (i : Interpreter) :
    Except Stop Value × Interpreter :=
  let i := i.note (.loading name)
  match source with
  | .error f => (.error (fault f), i)
  | .ok text => i.eval steps text

/-- See an evaluation to its end without a host, resuming it at most so many times: whoever
asks for a line is told that the input has ended. -/
def serveAlone [Saving] (steps : Nat) : Nat → Outcome → Evaluation → Shared →
    Except Stop Value × Shared
  | _, .value v, _, sh => (.ok v, sh)
  | _, .failed failure, _, sh => (.error (.failure failure), sh)
  | _, .exhausted, _, sh => (.error .exhausted, sh)
  | 0, .suspended _, _, sh => (.error .exhausted, sh)
  | rounds + 1, .suspended _, ev, sh =>
    let ((outcome, ev), sh) := ev.resume steps none sh
    serveAlone steps rounds outcome ev sh

/-- Evaluate an expression in the global environment without a host. -/
def evaluateAlone [Saving] (steps : Nat) (expression : Datum) (i : Interpreter) :
    Except Stop Value × Interpreter :=
  let (v, i) := i.place expression
  i.onShared fun sh =>
    let ((outcome, ev), sh) := (Evaluation.ofExpression v Store.global).start steps sh
    serveAlone steps steps outcome ev sh

/-! ## Reading -/

/-- See a reading to its end.  Each round but the last takes a line. -/
def serveReading : Nat → Except Fault Reply → Interpreter → Except Stop Value × Interpreter
  | _, .error f, i => (.error (fault f), i)
  | _, .ok (.value v), i => (.ok v, i)
  | 0, .ok (.suspend _), i => (.error .exhausted, i)
  | rounds + 1, .ok (.suspend s), i =>
    let (answer, i) := i.service s
    let (reply, i) := i.onShared (Shared.resume s answer)
    serveReading rounds reply i

/-- Read an expression from the input, asking for lines as needed.  The result
is `Value.eof` when the input has ended. -/
def readExpression (freshPrompt openPrompt : String) (i : Interpreter) :
    Except Stop Value × Interpreter :=
  let (reply, i) := i.onShared (Shared.read freshPrompt openPrompt)
  serveReading (i.lines.length + 1) reply i

/-! ## The interactive loop -/

/-- Report a failure. -/
def report (failure : Failure) (i : Interpreter) : Interpreter :=
  (i.note .topLevelError).write failure.report

/-- Write the value of an expression, unless it has none. -/
def echo [Saving] (v : Value) (i : Interpreter) : Interpreter :=
  match v with
  | .void => i
  | v => i.write (v.written i.shared.store ++ "\n")

/-- Read, evaluate and write until the input ends, for at most so many rounds. -/
def replFrom [Saving] (steps : Nat) (freshPrompt openPrompt : String) : Nat → Interpreter →
    Except Stop Unit × Interpreter
  | 0, i => (.error .exhausted, i)
  | rounds + 1, i =>
    match i.readExpression freshPrompt openPrompt with
    | (.error .exhausted, i) => (.error .exhausted, i)
    | (.error (.failure failure), i) =>
      replFrom steps freshPrompt openPrompt rounds (i.report failure)
    | (.ok .eof, i) => (.ok (), i.write "Goodbye\n")
    | (.ok expression, i) =>
      match i.evaluateValue steps expression with
      | (.error .exhausted, i) => (.error .exhausted, i)
      | (.error (.failure failure), i) =>
        replFrom steps freshPrompt openPrompt rounds (i.report failure)
      | (.ok v, i) => replFrom steps freshPrompt openPrompt rounds (i.echo v)

/-- The interactive loop. -/
def repl [Saving] (steps : Nat) (freshPrompt openPrompt : String) (i : Interpreter) :
    Except Stop Unit × Interpreter :=
  replFrom steps freshPrompt openPrompt steps i

end Interpreter

end SchemeMachine
