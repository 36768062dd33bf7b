import SchemeMachine.Machine.Run

/-!
# Evaluations

An evaluation of one expression in one environment.  It is started once; while
it is suspended it can be resumed with the answer of the host; after a value or
a failure it is over.  Anything else that is asked of it is refused and changes
nothing.
-/

namespace SchemeMachine

/-- Where an evaluation stands. -/
inductive Evaluation.Status where
  | ready (expression : Value)
  | suspended (suspension : Suspension)
  | over

/-- The evaluation of an expression: where it stands, its environment and its
stack. -/
structure Evaluation where
  status : Evaluation.Status
  env : Addr
  stack : Stack

/-- What starting or resuming an evaluation gives. -/
inductive Outcome where
  | value (v : Value)
  | suspended (suspension : Suspension)
  | failed (failure : Failure)
  /-- The evaluation did not end within the steps allowed. -/
  | exhausted

namespace Evaluation

/-- An evaluation not yet started. -/
def ofExpression (expression : Value) (env : Addr) : Evaluation :=
  ⟨.ready expression, env, .empty⟩

/-- Whether an evaluation waits for the host. -/
def isPending (ev : Evaluation) : Bool :=
  match ev.status with
  | .suspended _ => true
  | _ => false

/-- The evaluation after a run of the machine has ended. -/
def ofHalt : Halt → (Outcome × Evaluation) × Shared
  | .finished v c => ((.value v, ⟨.over, c.env, c.stack⟩), c.shared)
  | .suspended s c => ((.suspended s, ⟨.suspended s, c.env, c.stack⟩), c.shared)
  | .failed failure c => ((.failed failure, ⟨.over, c.env, c.stack⟩), c.shared)
  | .exhausted c => ((.exhausted, ⟨.over, c.env, c.stack⟩), c.shared)

/-- Start an evaluation. -/
def start [Saving] (steps : Nat) (ev : Evaluation) (sh : Shared) :
    (Outcome × Evaluation) × Shared :=
  match ev.status with
  | .ready expression => ofHalt (Config.run steps ⟨.reduce expression, ev.env, ev.stack, sh⟩)
  | _ => ((.failed (.plain .alreadyStarted), ev), sh)

/-- Resume a suspended evaluation with the answer of the host. -/
def resume [Saving] (steps : Nat) (answer : Option String) (ev : Evaluation) (sh : Shared) :
    (Outcome × Evaluation) × Shared :=
  match ev.status with
  | .suspended s =>
    ofHalt ((Config.resume s answer ⟨.drain .void, ev.env, ev.stack, sh⟩).run steps)
  | _ => ((.failed (.plain .notSuspended), ev), sh)

end Evaluation

end SchemeMachine
