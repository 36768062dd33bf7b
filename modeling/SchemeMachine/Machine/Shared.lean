import SchemeMachine.Machine.InputBuffer
import SchemeMachine.Value.Text

/-!
# What evaluations share

Evaluations of one interpreter, one after another or interleaved, work on the
same store, read from the same input buffer and write to the same output.  They
also keep a journal of notable events.

A primitive that cannot finish without the host gives a suspension in place of a
value: a request for a line of input, or a pause in which the host may bring the
output to its destination.
-/

namespace SchemeMachine

/-- Why an evaluation has stopped to let the host act. -/
inductive Suspension where
  /-- A line of input is needed. -/
  | awaiting (request : LineRequest)
  /-- Output was written; the evaluation goes on with this value. -/
  | yielding (value : Value)

/-- What a primitive gives. -/
inductive Reply where
  | value (v : Value)
  | suspend (s : Suspension)

/-- A notable event. -/
inductive Event where
  | loading (name : String)
  | inputExhausted (kept : Nat)
  | awaitingInput
  | yielded
  | topLevelError
  | loadFailed
  deriving DecidableEq, Repr

/-- The state that evaluations share.  The journal has the latest event first. -/
structure Shared where
  store : Store
  input : InputBuffer
  output : String
  journal : List Event

namespace Shared

/-- The state that an interpreter starts in. -/
def initial : Shared :=
  ⟨.initial, .empty, "", []⟩

/-- Act on the store. -/
def onStore {α : Type} (act : Store → α × Store) : Shared → α × Shared
  | ⟨store, input, output, journal⟩ =>
    let (a, store) := act store
    (a, ⟨store, input, output, journal⟩)

/-- Write a text to the output. -/
def write (text : String) (sh : Shared) : Shared :=
  { sh with output := sh.output ++ text }

/-- Note an event in the journal. -/
def note (event : Event) (sh : Shared) : Shared :=
  { sh with journal := event :: sh.journal }

/-- Note that an evaluation is suspended. -/
def noteSuspension (suspension : Suspension) (sh : Shared) : Shared :=
  match suspension with
  | .awaiting _ => sh.note .awaitingInput
  | .yielding _ => sh.note .yielded

/-- Take over what reading from the buffer gave. -/
def takeAnswer (sh : Shared) : Except Fault InputBuffer.Answer × InputBuffer →
    Except Fault Reply × Shared
  | (.error fault, buffer) => (.error fault, { sh with input := buffer })
  | (.ok .endOfFile, buffer) => (.ok (.value .eof), { sh with input := buffer })
  | (.ok (.datum d), buffer) =>
    let (v, sh) := { sh with input := buffer }.onStore (Store.place d)
    (.ok (.value v), sh)
  | (.ok (.awaiting request), buffer) =>
    (.ok (.suspend (.awaiting request)),
      { sh with input := buffer }.note (.inputExhausted buffer.tokens.length))

/-- Read a datum from the input buffer. -/
def read (freshPrompt openPrompt : String) (sh : Shared) : Except Fault Reply × Shared :=
  sh.takeAnswer (sh.input.read freshPrompt openPrompt)

/-- Finish a suspended call with the answer of the host. -/
def resume (suspension : Suspension) (answer : Option String) (sh : Shared) :
    Except Fault Reply × Shared :=
  match suspension with
  | .yielding v => (.ok (.value v), sh)
  | .awaiting request =>
    sh.takeAnswer (sh.input.supply answer request.freshPrompt request.openPrompt)

end Shared

end SchemeMachine
