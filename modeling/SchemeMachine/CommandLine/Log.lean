import SchemeMachine.Machine.Shared

/-!
# The log

How the events of a journal are written to the log.  All of them are of the
lowest level.
-/

namespace SchemeMachine.CommandLine

/-- The part of the program that an event comes from. -/
def eventSource : Event → String
  | .loading _ | .topLevelError => "littlescheme.interpreter"
  | .inputExhausted _ => "littlescheme.reader.input_buffer"
  | .awaitingInput | .yielded => "littlescheme.evaluation.evaluator"
  | .loadFailed => "littlescheme.__main__"

/-- The wording of an event. -/
def eventText : Event → String
  | .loading name => "loading " ++ name
  | .topLevelError => "top-level error"
  | .inputExhausted kept => "input exhausted, awaiting a line (" ++ kept.repr ++ " tokens kept)"
  | .awaitingInput => "evaluation suspended: AwaitingInput(prompt='')"
  | .yielded => "evaluation suspended: Yielding(#<VOID>)"
  | .loadFailed => "load failed"

/-- The line that an event is logged with. -/
def eventLine (event : Event) : String :=
  "DEBUG:" ++ eventSource event ++ ":" ++ eventText event ++ "\n"

/-- The log of a journal, which has its latest event first. -/
def logText (journal : List Event) : String :=
  String.join (journal.reverse.map eventLine)

end SchemeMachine.CommandLine
