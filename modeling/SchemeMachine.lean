import SchemeMachine.CommandLine.Log
import SchemeMachine.CommandLine.Options
import SchemeMachine.CommandLine.Session
import SchemeMachine.Datum.Basic
import SchemeMachine.Datum.Reader
import SchemeMachine.Datum.Text
import SchemeMachine.Datum.Token
import SchemeMachine.Environment.Store
import SchemeMachine.Evaluation
import SchemeMachine.Fault
import SchemeMachine.Interpreter
import SchemeMachine.Machine.Arithmetic
import SchemeMachine.Machine.Call
import SchemeMachine.Machine.Config
import SchemeMachine.Machine.Drain
import SchemeMachine.Machine.InputBuffer
import SchemeMachine.Machine.Parameters
import SchemeMachine.Machine.Primitive
import SchemeMachine.Machine.Reduce
import SchemeMachine.Machine.Run
import SchemeMachine.Machine.Saving
import SchemeMachine.Machine.Shared
import SchemeMachine.Machine.Stack
import SchemeMachine.Main
import SchemeMachine.Number.Basic
import SchemeMachine.Number.Decimal
import SchemeMachine.Number.Double
import SchemeMachine.Number.Literal
import SchemeMachine.Number.Text
import SchemeMachine.Proofs.ApplyToList
import SchemeMachine.Proofs.Behaviour
import SchemeMachine.Proofs.Binding
import SchemeMachine.Proofs.Changes
import SchemeMachine.Proofs.Code
import SchemeMachine.Proofs.Comparison
import SchemeMachine.Proofs.Composition
import SchemeMachine.Proofs.Continuation
import SchemeMachine.Proofs.Dialogue.Evaluating
import SchemeMachine.Proofs.Dialogue.Loop
import SchemeMachine.Proofs.Dialogue.Reading
import SchemeMachine.Proofs.Direct.Journal
import SchemeMachine.Proofs.Direct.Machine
import SchemeMachine.Proofs.Direct.Transparency
import SchemeMachine.Proofs.Dispatch
import SchemeMachine.Proofs.Elision.Collapse
import SchemeMachine.Proofs.Elision.Commutation
import SchemeMachine.Proofs.Elision.Evaluation
import SchemeMachine.Proofs.Elision.Interpreter
import SchemeMachine.Proofs.Elision.Invisible
import SchemeMachine.Proofs.Elision.Lockstep
import SchemeMachine.Proofs.Elision.Step
import SchemeMachine.Proofs.EnoughSteps
import SchemeMachine.Proofs.Environment.AppendOnly
import SchemeMachine.Proofs.Environment.Chains
import SchemeMachine.Proofs.Environment.Log
import SchemeMachine.Proofs.Environment.Markers
import SchemeMachine.Proofs.EnvironmentDiscipline
import SchemeMachine.Proofs.Form
import SchemeMachine.Proofs.History
import SchemeMachine.Proofs.Interleaving.Alone
import SchemeMachine.Proofs.Interleaving.Calls
import SchemeMachine.Proofs.Interleaving.Play
import SchemeMachine.Proofs.Matching.Primitives
import SchemeMachine.Proofs.Matching.Step
import SchemeMachine.Proofs.Matching.Stores
import SchemeMachine.Proofs.Matching.Values
import SchemeMachine.Proofs.Matching.Worlds
import SchemeMachine.Proofs.Moves
import SchemeMachine.Proofs.NarrowStacks
import SchemeMachine.Proofs.Natural.Equivalence
import SchemeMachine.Proofs.Natural.Progress
import SchemeMachine.Proofs.Natural.Realised
import SchemeMachine.Proofs.Natural.Rules
import SchemeMachine.Proofs.Natural.Run
import SchemeMachine.Proofs.Number.Decimals
import SchemeMachine.Proofs.Number.Nearest
import SchemeMachine.Proofs.Number.ReadBack
import SchemeMachine.Proofs.Number.Rounding
import SchemeMachine.Proofs.Number.Shortest
import SchemeMachine.Proofs.OneShot
import SchemeMachine.Proofs.Reading.Data
import SchemeMachine.Proofs.Reading.Grammar
import SchemeMachine.Proofs.Reading.Interactive
import SchemeMachine.Proofs.Reading.Lexemes
import SchemeMachine.Proofs.Reading.Rereading
import SchemeMachine.Proofs.Reading.Scanner
import SchemeMachine.Proofs.Reading.Tokens
import SchemeMachine.Proofs.Reading.WriteForm
import SchemeMachine.Proofs.Requirement.Basic
import SchemeMachine.Proofs.Requirement.Step
import SchemeMachine.Proofs.Service
import SchemeMachine.Proofs.Silence
import SchemeMachine.Proofs.StackIntegrity
import SchemeMachine.Proofs.Surroundings
import SchemeMachine.Proofs.TailCalls
import SchemeMachine.Proofs.Transitions
import SchemeMachine.Proofs.WellFormed
import SchemeMachine.Proofs.Width
import SchemeMachine.Proofs.World.Basic
import SchemeMachine.Proofs.World.Captures
import SchemeMachine.Proofs.World.Laws
import SchemeMachine.Proofs.World.Sessions
import SchemeMachine.Settings
import SchemeMachine.Source.File
import SchemeMachine.Source.Path
import SchemeMachine.Text.Blank
import SchemeMachine.Text.Digit
import SchemeMachine.Text.Line
import SchemeMachine.Text.Outline
import SchemeMachine.Text.Printable
import SchemeMachine.Text.Quoted
import SchemeMachine.Text.Utf8
import SchemeMachine.Value.Basic
import SchemeMachine.Value.Primitive
import SchemeMachine.Value.Text
