import SchemeMachine.Proofs.Service
import SchemeMachine.Proofs.Silence

/-!
# A machine that does not suspend

The direct machine is the machine with its host inside.  `display` and `newline` give their
value as soon as they have written, and `read` reads in place: where the tokens of the input
buffer run out it takes the next line of the host, and at the end of the input it gives the
end-of-file object.  All else is as in the machine that suspends.
-/

namespace SchemeMachine

/-- Read one datum, taking a line from the host each time the tokens run out.  There is none
at the end of the input. -/
def InputBuffer.readInPlace (buffer : InputBuffer) (lines : List String) :
    (Except Fault (Option Datum) × InputBuffer) × List String :=
  match Datum.readOne buffer.tokens, lines with
  | (.ok d, rest), lines => ((.ok (some d), ⟨rest⟩), lines)
  | (.error .endOfInput, _), [] => ((.ok none, buffer), [])
  | (.error .endOfInput, _), line :: lines =>
    match buffer.feed line with
    | .error fault => ((.error fault, buffer), lines)
    | .ok fed => fed.readInPlace lines
  | (.error fault, _), lines => ((.error fault, .empty), lines)

/-- Read a value in place. -/
def Shared.readInPlace (sh : Shared) (lines : List String) :
    (Except Fault Value × Shared) × List String :=
  match sh.input.readInPlace lines with
  | ((.error fault, buffer), lines) => ((.error fault, { sh with input := buffer }), lines)
  | ((.ok none, buffer), lines) => ((.ok .eof, { sh with input := buffer }), lines)
  | ((.ok (some d), buffer), lines) =>
    let (v, sh) := { sh with input := buffer }.onStore (Store.place d)
    ((.ok v, sh), lines)

/-- What a primitive that needs the host gives in place. -/
def Primitive.performInPlace? (p : Primitive) (args : List Value) (sh : Shared)
    (lines : List String) : Option ((Except Fault Value × Shared) × List String) :=
  match p, args with
  | .display, [x] => some ((.ok .void, sh.write (x.displayed sh.store)), lines)
  | .newline, [] => some ((.ok .void, sh.write "\n"), lines)
  | .read, [] => some (sh.readInPlace lines)
  | _, _ => none

namespace Config

/-- Go on with what a primitive gave in place. -/
def answered (c : Config) : (Except Fault Value × Shared) × List String → Served
  | ((.error fault, sh), lines) => ⟨.failed fault { c with shared := sh }, lines⟩
  | ((.ok v, sh), lines) => ⟨{ c with shared := sh }.toDrain v, lines⟩

/-- One step of the direct machine. -/
def stepInPlace (c : Config) (lines : List String) : Served :=
  match c.focus with
  | .call (.primitive p) arguments =>
    match arguments.elements with
    | .error _ => ⟨c.step, lines⟩
    | .ok args =>
      match p.performInPlace? args c.shared lines with
      | some given => c.answered given
      | none => ⟨c.step, lines⟩
  | _ => ⟨c.step, lines⟩

end Config

namespace Served

/-- One step of the direct machine.  What has ended stays as it is. -/
def nextInPlace : Served → Served
  | ⟨.running c, lines⟩ => c.stepInPlace lines
  | ended => ended

/-- So many steps later. -/
def afterInPlace : Nat → Served → Served
  | 0, s => s
  | n + 1, s => afterInPlace n s.nextInPlace

end Served

/-- Evaluate a value as an expression in the global environment, on the direct machine. -/
def Interpreter.evaluateInPlace (steps : Nat) (expression : Value) (i : Interpreter) :
    Except Stop Value × Interpreter :=
  match ((Served.start expression Store.global .empty i).afterInPlace steps).result? with
  | some result => result
  | none => (.error .exhausted, i)

/-! ## Reading in place -/

namespace InputBuffer

theorem readInPlace_of_ok {buffer : InputBuffer} {d : Datum} {rest : List Token}
    (h : Datum.readOne buffer.tokens = (.ok d, rest)) (lines : List String) :
    buffer.readInPlace lines = ((.ok (some d), ⟨rest⟩), lines) := by
  rw [readInPlace.eq_def, h]

theorem readInPlace_of_fault {buffer : InputBuffer} {fault : Fault} {rest : List Token}
    (h : Datum.readOne buffer.tokens = (.error fault, rest)) (hfault : fault ≠ .endOfInput)
    (lines : List String) : buffer.readInPlace lines = ((.error fault, .empty), lines) := by
  rw [readInPlace.eq_def, h]
  cases fault with
  | endOfInput => exact absurd rfl hfault
  | _ => rfl

theorem readInPlace_of_end {buffer : InputBuffer}
    (h : (Datum.readOne buffer.tokens).1 = .error .endOfInput) :
    buffer.readInPlace [] = ((.ok none, buffer), []) := by
  rw [readInPlace.eq_def, show Datum.readOne buffer.tokens = (.error .endOfInput, _) from
    Prod.ext h rfl]

theorem readInPlace_of_line {buffer : InputBuffer}
    (h : (Datum.readOne buffer.tokens).1 = .error .endOfInput) (line : String)
    (lines : List String) :
    buffer.readInPlace (line :: lines) =
      match buffer.feed line with
      | .error fault => ((.error fault, buffer), lines)
      | .ok fed => fed.readInPlace lines := by
  rw [readInPlace.eq_def, show Datum.readOne buffer.tokens = (.error .endOfInput, _) from
    Prod.ext h rfl]

end InputBuffer

theorem Shared.readInPlace_of_feed {sh : Shared} {line : String} {fed : InputBuffer}
    (hend : (Datum.readOne sh.input.tokens).1 = .error .endOfInput)
    (hfeed : sh.input.feed line = .ok fed) (lines : List String) :
    sh.readInPlace (line :: lines) = Shared.readInPlace { sh with input := fed } lines := by
  rw [readInPlace, InputBuffer.readInPlace_of_line hend, hfeed, readInPlace]

/-! ## The direct machine never suspends -/

theorem Primitive.ne_suspend_of_answer {sh after : Shared} {result : Except Fault Value}
    {suspension : Suspension} : answer sh result ≠ (.ok (.suspend suspension), after) := by
  cases result <;> rintro ⟨⟩

/-- A primitive that suspends is one that is performed in place. -/
theorem Primitive.performInPlace?_of_suspend {p : Primitive} {arguments : Value}
    {args : List Value} {sh after : Shared} {suspension : Suspension} (lines : List String)
    (h : p.perform arguments args sh = (.ok (.suspend suspension), after)) :
    p.performInPlace? args sh lines ≠ none := by
  unfold perform at h
  split at h
  case h_10 => exact Option.some_ne_none _
  case h_11 => exact Option.some_ne_none _
  case h_12 => exact Option.some_ne_none _
  -- no other primitive replies with a suspension
  all_goals first | exact absurd h ne_suspend_of_answer | cases h

namespace Config

theorem stepInPlace_of_some {c : Config} {p : Primitive} {arguments : Value} {args : List Value}
    {lines : List String} {given : (Except Fault Value × Shared) × List String}
    (hfocus : c.focus = .call (.primitive p) arguments) (helements : arguments.elements = .ok args)
    (hgiven : p.performInPlace? args c.shared lines = some given) :
    c.stepInPlace lines = c.answered given := by
  simp only [stepInPlace, hfocus, helements, hgiven]

/-- What the direct machine does not do in place, it does as the other machine. -/
theorem stepInPlace_cases (c : Config) (lines : List String) :
    (∃ p arguments args given, c.focus = .call (.primitive p) arguments ∧
      arguments.elements = .ok args ∧ p.performInPlace? args c.shared lines = some given) ∨
    c.stepInPlace lines = ⟨c.step, lines⟩ ∧ c.step.suspension? = none := by
  rw [Classical.or_iff_not_imp_left]
  intro hother
  constructor
  · unfold stepInPlace
    split
    · next p arguments hfocus =>
        split
        · rfl
        · next args helements =>
            split
            · next given hgiven =>
                exact absurd ⟨p, arguments, args, given, hfocus, helements, hgiven⟩ hother
            · rfl
    · rfl
  · cases hstep : c.step with
    | suspended suspension d =>
        obtain ⟨p, arguments, args, after, hfocus, helements, hperform, _⟩ := step_suspended hstep
        obtain ⟨given, hgiven⟩ :=
          Option.ne_none_iff_exists'.mp (Primitive.performInPlace?_of_suspend lines hperform)
        exact absurd ⟨p, arguments, args, given, hfocus, helements, hgiven⟩ hother
    | _ => rfl

theorem suspension?_stepInPlace (c : Config) (lines : List String) :
    (c.stepInPlace lines).transition.suspension? = none := by
  obtain ⟨p, arguments, args, given, hfocus, helements, hgiven⟩ | ⟨heq, hnone⟩ :=
    c.stepInPlace_cases lines
  · rw [stepInPlace_of_some hfocus helements hgiven]
    obtain ⟨⟨fault | v, sh⟩, rest⟩ := given <;> rfl
  · rw [heq, hnone]

end Config

end SchemeMachine
