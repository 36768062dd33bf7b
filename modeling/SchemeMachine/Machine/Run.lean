import SchemeMachine.Machine.Call
import SchemeMachine.Machine.Drain
import SchemeMachine.Machine.Reduce

/-!
# Running the machine

`Config.step` is one step of the machine and `Transition.run` follows steps until
there is a value, a suspension or a failure.  A run may go on for ever, so it is
given the greatest number of steps that it may take; running out of them is an
end of its own, and more of them never change any other end.
-/

namespace SchemeMachine

/-- One step of the machine. -/
def Config.step [Saving] (c : Config) : Transition :=
  match c.focus with
  | .reduce expression => c.reduce expression
  | .drain value => c.drain value
  | .call callee arguments => c.call callee arguments

/-- How a run ends, and the configuration it ends in. -/
inductive Halt where
  | finished (value : Value) (c : Config)
  | suspended (suspension : Suspension) (c : Config)
  | failed (failure : Failure) (c : Config)
  /-- All the steps allowed were taken. -/
  | exhausted (c : Config)

/-- The failure that a fault amounts to: with a trace of the frames left on the
stack, if there are any. -/
def Config.failure [Saving] (c : Config) (fault : Fault) : Failure :=
  if fault.traced && !c.stack.frames.isEmpty then
    ⟨fault, some (Frame.stackText c.store c.stack.frames)⟩
  else .plain fault

theorem Config.fault_failure [Saving] (c : Config) (fault : Fault) :
    (c.failure fault).fault = fault := by
  unfold failure
  split <;> rfl

/-- Go on from a transition for at most so many steps. -/
def Transition.run [Saving] : Nat → Transition → Halt
  | _, .finished value c => .finished value c
  | _, .suspended suspension c =>
    .suspended suspension { c with shared := c.shared.noteSuspension suspension }
  | _, .failed fault c => .failed (c.failure fault) c
  | 0, .running c => .exhausted c
  | steps + 1, .running c => run steps c.step

/-- More steps change nothing about a run that has ended. -/
theorem Transition.run_add [Saving] {n : Nat} {t : Transition} (h : ∀ c, t.run n ≠ .exhausted c)
    (k : Nat) : t.run (n + k) = t.run n := by
  induction n generalizing t with
  | zero =>
    cases t with
    | running c => exact absurd rfl (h c)
    | _ => simp only [run]
  | succ n ih =>
    cases t with
    | running c =>
      rw [Nat.add_right_comm]
      exact ih h
    | _ => simp only [run]

/-- Run a configuration for at most so many steps. -/
def Config.run [Saving] (steps : Nat) (c : Config) : Halt :=
  Transition.run steps (.running c)

/-- Go on after a suspension with the answer of the host. -/
def Config.resume (suspension : Suspension) (answer : Option String) (c : Config) : Transition :=
  match c.shared.resume suspension answer with
  | (.error fault, shared) => .failed fault { c with shared := shared }
  | (.ok (.value v), shared) => { c with shared := shared }.toDrain v
  | (.ok (.suspend s), shared) => .suspended s { c with shared := shared }

end SchemeMachine
