import SchemeMachine.Proofs.Direct.Machine
import SchemeMachine.Proofs.Surroundings

/-!
# Nothing depends on the journal

The journal is written and never read.  `quiet` empties it, and a step of the direct machine
from a configuration without a journal leads to the same as a step from the configuration
itself, up to the journal: `quiet_stepInPlace`.
-/

namespace SchemeMachine

/-! ## States without a journal -/

/-- The shared state without its journal. -/
def Shared.quiet (sh : Shared) : Shared :=
  { sh with journal := [] }

/-- A configuration without a journal. -/
def Config.quiet (c : Config) : Config :=
  { c with shared := c.shared.quiet }

/-- A transition to a configuration without a journal. -/
def Transition.quiet : Transition → Transition
  | .running c => .running c.quiet
  | .finished v c => .finished v c.quiet
  | .suspended suspension c => .suspended suspension c.quiet
  | .failed fault c => .failed fault c.quiet

/-- A run whose journal is dropped. -/
def Served.quiet (s : Served) : Served :=
  ⟨s.transition.quiet, s.lines⟩

/-- An interpreter without a journal. -/
def Interpreter.quiet (i : Interpreter) : Interpreter :=
  ⟨i.shared.quiet, i.lines⟩

@[simp] theorem Transition.quiet_quiet (t : Transition) : t.quiet.quiet = t.quiet := by
  cases t <;> rfl

/-! ## The machine -/

/-- What a primitive gives, without the journal. -/
def Primitive.quietly {α : Type} (given : α × Shared) : α × Shared :=
  (given.1, given.2.quiet)

open Primitive (quietly)

theorem Shared.quiet_takeAnswer (sh : Shared)
    (answer : Except Fault InputBuffer.Answer × InputBuffer) :
    quietly (sh.quiet.takeAnswer answer) = quietly (sh.takeAnswer answer) := by
  obtain ⟨fault | d | request | _, buffer⟩ := answer <;> rfl

namespace Config

/-- In surroundings with the same input and output, a transition differs in its journal
only. -/
theorem quiet_amid {t : Transition} {around : Surroundings}
    (hinput : t.config.shared.input = around.input)
    (houtput : t.config.shared.output = around.output) : (t.amid around).quiet = t.quiet := by
  obtain ⟨input, output, journal⟩ := around
  subst hinput houtput
  cases t <;> rfl

theorem quiet_replied (c : Config) {here there : Except Fault Reply × Shared}
    (h : quietly here = quietly there) :
    (c.quiet.replied here).quiet = (c.replied there).quiet := by
  obtain ⟨reply, sh⟩ := here
  obtain ⟨other, sh'⟩ := there
  obtain ⟨rfl, hshared⟩ : reply = other ∧ sh.quiet = sh'.quiet := Prod.mk.inj h
  obtain fault | v | suspension := reply
  all_goals simp only [replied, toDrain, Transition.quiet, quiet, hshared]

/-- A step does not depend on the journal. -/
theorem quiet_step (c : Config) : c.quiet.step.quiet = c.step.quiet := by
  by_cases hreads : c.Reads
  · have hanswer := c.shared.quiet_takeAnswer (c.shared.input.read "" "")
    have hnone : Value.nil.elements = .ok [] := rfl
    rw [step_primitive hreads hnone, step_primitive (c := c.quiet) hreads hnone]
    exact quiet_replied c hanswer
  · obtain ⟨said, halike⟩ := c.step_amid c.shared.quiet.surroundings hreads
    have hquiet : c.quiet.step = c.step.amid (c.shared.quiet.surroundings.plus said) := halike.there
    have hsaid := halike.said
    rw [hquiet]
    refine quiet_amid ?_ ?_
    · exact congrArg Surroundings.input hsaid
    · exact congrArg Surroundings.output hsaid

end Config

/-! ## The direct machine -/

theorem Shared.quiet_readInPlace (sh : Shared) (lines : List String) :
    sh.quiet.readInPlace lines =
      (quietly (sh.readInPlace lines).1, (sh.readInPlace lines).2) := by
  simp only [readInPlace, quiet]
  obtain ⟨⟨fault | _ | d, buffer⟩, rest⟩ := sh.input.readInPlace lines <;> rfl

theorem Primitive.quiet_performInPlace? (p : Primitive) (args : List Value) (sh : Shared)
    (lines : List String) :
    p.performInPlace? args sh.quiet lines =
      (p.performInPlace? args sh lines).map fun given => (quietly given.1, given.2) := by
  unfold performInPlace?
  split
  · rfl
  · rfl
  · exact congrArg some (sh.quiet_readInPlace lines)
  · rfl

namespace Config

theorem quiet_answered (c : Config) (given : (Except Fault Value × Shared) × List String) :
    c.quiet.answered (quietly given.1, given.2) = (c.answered given).quiet := by
  obtain ⟨⟨fault | v, sh⟩, rest⟩ := given <;> rfl

theorem quiet_stepInPlace (c : Config) (lines : List String) :
    (c.quiet.stepInPlace lines).quiet = (c.stepInPlace lines).quiet := by
  have hstep : (Served.mk c.quiet.step lines).quiet = (Served.mk c.step lines).quiet :=
    congrArg (Served.mk · lines) c.quiet_step
  have hfocus : c.quiet.focus = c.focus := rfl
  simp only [stepInPlace, hfocus]
  split
  · next p arguments _ =>
      split
      · exact hstep
      · next args _ =>
          have hshared : c.quiet.shared = c.shared.quiet := rfl
          rw [hshared, p.quiet_performInPlace?]
          cases p.performInPlace? args c.shared lines with
          | none => exact hstep
          | some given =>
              simp only [Option.map_some, quiet_answered, Served.quiet, Transition.quiet_quiet]
  · exact hstep

end Config

namespace Served

theorem quiet_nextInPlace (s : Served) : s.quiet.nextInPlace.quiet = s.nextInPlace.quiet := by
  obtain ⟨transition, lines⟩ := s
  cases transition with
  | running c => exact c.quiet_stepInPlace lines
  | _ => rfl

/-- Runs of the direct machine that differ in their journals go the same way. -/
theorem quiet_afterInPlace {s t : Served} (h : s.quiet = t.quiet) (n : Nat) :
    (s.afterInPlace n).quiet = (t.afterInPlace n).quiet := by
  induction n generalizing s t with
  | zero => exact h
  | succ n ih =>
      apply ih
      rw [← quiet_nextInPlace, h, quiet_nextInPlace]

theorem quiet_result? (s : Served) :
    s.quiet.result? = s.result?.map fun result => (result.1, result.2.quiet) := by
  obtain ⟨transition, lines⟩ := s
  cases transition <;> rfl

end Served

end SchemeMachine
