import SchemeMachine.Interpreter
import SchemeMachine.Proofs.Transitions

/-!
# Suspensions of an evaluation

Only a call of a primitive suspends an evaluation, and only `read` asks for a line.  It does
so without a prompt, and goes on asking without one.  So nothing is written when a line is
asked for, and a host that has no lines left is no host at all: `evaluateAlone_eq`.
-/

namespace SchemeMachine

/-- The suspension that a step leads to, if it leads to one. -/
def Transition.suspension? : Transition → Option Suspension
  | .suspended suspension _ => some suspension
  | _ => none

namespace Config

/-! ## Only a primitive suspends -/

variable [Saving]

/-- A step that suspends is a call of a primitive whose reply is the suspension. -/
theorem step_suspended {c d : Config} {suspension : Suspension}
    (h : c.step = .suspended suspension d) :
    ∃ p arguments args shared, c.focus = .call (.primitive p) arguments ∧
      arguments.elements = .ok args ∧
      p.perform arguments args c.shared = (.ok (.suspend suspension), shared) ∧
      d = { c with shared := shared } := by
  have hfollows := c.step_follows
  rw [h] at hfollows
  obtain ⟨⟨p, arguments, hfocus⟩, _⟩ := hfollows
  simp only [step, hfocus, call, callPrimitive] at h
  split at h
  · cases h
  · next args helements =>
      split at h
      · cases h
      · cases h
      · next shared hperform =>
          cases h
          exact ⟨p, arguments, args, shared, hfocus, helements, hperform, by rw [hfocus]⟩

end Config

/-! ## Asking without a prompt -/

/-- A suspension that has nothing to show. -/
def Suspension.Silent : Suspension → Prop
  | .awaiting request => request = ⟨"", "", ""⟩
  | .yielding _ => True

/-- What a primitive gives leads to no prompt. -/
def Reply.Silent : Except Fault Reply → Prop
  | .ok (.suspend suspension) => suspension.Silent
  | _ => True

/-- A run of the machine that shows no prompt where it stands. -/
def Transition.Silent (t : Transition) : Prop :=
  ∀ suspension ∈ t.suspension?, suspension.Silent

theorem InputBuffer.awaiting_of_read {buffer after : InputBuffer} {request : LineRequest}
    (h : buffer.read "" "" = (.ok (.awaiting request), after)) : request = ⟨"", "", ""⟩ := by
  unfold read at h
  split at h
  · cases h
  · cases h
    rw [ite_self]
  · cases h

namespace Shared

theorem takeAnswer_silent (sh : Shared) {answer : Except Fault InputBuffer.Answer × InputBuffer}
    (h : ∀ request, answer.1 = .ok (.awaiting request) → request = ⟨"", "", ""⟩) :
    Reply.Silent (sh.takeAnswer answer).1 := by
  obtain ⟨fault | d | request | _, buffer⟩ := answer
  · trivial
  · trivial
  · exact h request rfl
  · trivial

theorem read_silent (sh : Shared) : Reply.Silent (sh.read "" "").1 :=
  sh.takeAnswer_silent fun _ h => InputBuffer.awaiting_of_read (Prod.ext h rfl)

theorem resume_silent (sh : Shared) {suspension : Suspension} (h : suspension.Silent)
    (answer : Option String) : Reply.Silent (sh.resume suspension answer).1 := by
  cases suspension with
  | yielding v => trivial
  | awaiting request =>
      obtain rfl : request = ⟨"", "", ""⟩ := h
      refine sh.takeAnswer_silent fun request hrequest => ?_
      unfold InputBuffer.supply at hrequest
      split at hrequest
      · cases hrequest
      · split at hrequest
        · cases hrequest
        · exact InputBuffer.awaiting_of_read (Prod.ext hrequest rfl)

end Shared

theorem Primitive.perform_silent [Saving] (p : Primitive) (arguments : Value) (args : List Value)
    (sh : Shared) : Reply.Silent (p.perform arguments args sh).1 := by
  have hanswer (result : Except Fault Value) : Reply.Silent (answer sh result).1 := by
    cases result <;> trivial
  unfold perform
  split
  case h_12 => exact sh.read_silent
  all_goals first | exact hanswer _ | trivial

theorem Config.step_silent [Saving] (c : Config) : c.step.Silent := by
  intro suspension hsuspension
  cases hstep : c.step with
  | suspended found d =>
      rw [hstep] at hsuspension
      cases hsuspension
      obtain ⟨p, arguments, args, shared, _, _, hperform, _⟩ := step_suspended hstep
      have hsilent := p.perform_silent arguments args c.shared
      rwa [hperform] at hsilent
  | _ =>
      rw [hstep] at hsuspension
      cases hsuspension

theorem Config.resume_silent (c : Config) {suspension : Suspension} (h : suspension.Silent)
    (answer : Option String) : (Config.resume suspension answer c).Silent := by
  have hreply := c.shared.resume_silent h answer
  intro found hfound
  unfold Config.resume at hfound
  split at hfound
  · cases hfound
  · cases hfound
  · next heq =>
      cases hfound
      rwa [heq] at hreply

/-! ## Evaluating without a host -/

/-- An outcome that asks for no prompt. -/
def Outcome.Silent : Outcome → Prop
  | .suspended suspension => suspension.Silent
  | _ => True

/-- An evaluation that waits without a prompt, if it waits. -/
def Evaluation.Silent (ev : Evaluation) : Prop :=
  ∀ suspension, ev.status = .suspended suspension → suspension.Silent

namespace Evaluation

variable [Saving]

/-- A run that begins without a prompt comes to none. -/
theorem silent_of_run {t : Transition} (h : t.Silent) (steps : Nat) :
    (ofHalt (t.run steps)).1.1.Silent ∧ (ofHalt (t.run steps)).1.2.Silent := by
  induction steps generalizing t with
  | zero =>
      cases t with
      | suspended suspension c =>
          refine ⟨h suspension rfl, ?_⟩
          rintro _ ⟨⟩
          exact h suspension rfl
      | _ => exact ⟨trivial, by rintro _ ⟨⟩⟩
  | succ steps ih =>
      cases t with
      | running c => exact ih c.step_silent
      | suspended suspension c =>
          refine ⟨h suspension rfl, ?_⟩
          rintro _ ⟨⟩
          exact h suspension rfl
      | _ => exact ⟨trivial, by rintro _ ⟨⟩⟩

theorem start_silent (e : Value) (env : Addr) (steps : Nat) (sh : Shared) :
    ((ofExpression e env).start steps sh).1.1.Silent ∧
      ((ofExpression e env).start steps sh).1.2.Silent :=
  silent_of_run (by rintro _ ⟨⟩) steps

theorem resume_silent {ev : Evaluation} (h : ev.Silent) (steps : Nat) (answer : Option String)
    (sh : Shared) :
    (ev.resume steps answer sh).1.1.Silent ∧ (ev.resume steps answer sh).1.2.Silent := by
  unfold resume
  split
  · next suspension hstatus =>
      exact silent_of_run (Config.resume_silent _ (h suspension hstatus) answer) steps
  · exact ⟨trivial, h⟩

end Evaluation

namespace Interpreter

/-- A host without lines writes nothing and answers that the input has ended. -/
theorem service_without_lines {suspension : Suspension} (h : suspension.Silent) (sh : Shared) :
    service suspension ⟨sh, []⟩ = (none, ⟨sh, []⟩) := by
  cases suspension with
  | yielding v => rfl
  | awaiting request =>
      obtain rfl : request = ⟨"", "", ""⟩ := h
      have hwrite : sh.write "" = sh := by
        rw [Shared.write, String.append_empty]
      simp only [service, write, readLine, hwrite]

theorem serve_without_lines [Saving] (steps rounds : Nat) {outcome : Outcome} {ev : Evaluation}
    (houtcome : outcome.Silent) (hev : ev.Silent) (sh : Shared) :
    serve steps rounds outcome ev ⟨sh, []⟩ =
      ((serveAlone steps rounds outcome ev sh).1,
        ⟨(serveAlone steps rounds outcome ev sh).2, []⟩) := by
  induction rounds generalizing outcome ev sh with
  | zero => cases outcome <;> rfl
  | succ rounds ih =>
      cases outcome with
      | suspended suspension =>
          obtain ⟨hresumed, hafter⟩ := Evaluation.resume_silent hev steps none sh
          rw [serve, service_without_lines houtcome]
          exact ih hresumed hafter _
      | _ => rfl

/-- Evaluating without a host is evaluating with a host that has no lines left. -/
theorem evaluateAlone_eq [Saving] (steps : Nat) (expression : Datum) (i : Interpreter) :
    i.evaluateAlone steps expression =
      (({ i with lines := [] }.evaluate steps expression).1,
        { ({ i with lines := [] }.evaluate steps expression).2 with lines := i.lines }) := by
  obtain ⟨hstarted, hafter⟩ := Evaluation.start_silent (i.place expression).1 Store.global steps
    (i.place expression).2.shared
  have hserve := serve_without_lines steps steps hstarted hafter
    ((Evaluation.ofExpression (i.place expression).1 Store.global).start steps
      (i.place expression).2.shared).2
  have hevaluate : { i with lines := [] }.evaluate steps expression = _ := hserve
  rw [hevaluate]
  rfl

end Interpreter

end SchemeMachine
