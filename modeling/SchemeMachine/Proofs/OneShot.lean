import SchemeMachine.Proofs.Elision.Evaluation
import SchemeMachine.Proofs.Interleaving.Calls
import SchemeMachine.Proofs.Reading.Interactive

/-!
# An evaluation is a one-shot protocol

The host starts an evaluation once, and resumes it as long as it is suspended.  It may try
other calls, in any order and with any answers, and between two calls anything else may happen
to the interpreter.  A call is effective if it is not refused.

`Attended.Leads` is the history of one evaluation: a log of its calls and their outcomes.  From
the log alone one can tell which calls will be effective, because an evaluation stands where its
latest effective call has left it (`Attended.Leads.stands`).  A call that the evaluation does not
accept changes nothing (`Attended.perform_refused`), and one that it accepts is never answered
with a refusal (`Attended.isRefusal_perform`).
-/

namespace SchemeMachine

/-! ## What an evaluation holds -/

/-- What an evaluation holds between its calls: the expression that it is to reduce, the value
it has come to, or the suspension that it has stopped with. -/
inductive Held where
  | value (v : Value)
  | suspension (s : Suspension)

namespace Held

/-- What is held when the machine turns from one thing to the next.  While it works its way
into an expression, and for a call, it keeps what it held. -/
def turn (held : Held) : Focus → Focus → Held
  | _, .drain v => .value v
  | .reduce _, .reduce _ => held
  | _, .reduce e => .value e
  | _, .call _ _ => held

/-- What is held after a transition from this focus. -/
def after (held : Held) (focus : Focus) : Transition → Held
  | .running c => held.turn focus c.focus
  | .finished v _ => .value v
  | .suspended s _ => .suspension s
  | .failed _ _ => held

end Held

/-- What is held when a transition has been followed for at most so many steps. -/
def Transition.held : Nat → Held → Transition → Held
  | steps + 1, h, .running c => held steps (h.after c.focus c.step) c.step
  | _, h, _ => h

/-! ## Calls -/

namespace Evaluation

/-- The suspension that an evaluation waits with. -/
def pending? (ev : Evaluation) : Option Suspension :=
  match ev.status with
  | .suspended s => some s
  | _ => none

/-- Whether an evaluation accepts a call: to be started if it has not been, to be resumed if it
is suspended. -/
def accepts (ev : Evaluation) (call : Call) : Bool :=
  match ev.status, call with
  | .ready _, .start _ => true
  | .suspended _, .resume _ _ => true
  | _, _ => false

namespace Call

/-- Whether a call is one to start the evaluation. -/
def isStart : Call → Bool
  | start _ => true
  | resume _ _ => false

/-- The number of steps that a call may take. -/
def steps : Call → Nat
  | start steps => steps
  | resume steps _ => steps

/-- The fault of a call that is not accepted. -/
def refusal : Call → Fault
  | start _ => .alreadyStarted
  | resume _ _ => .notSuspended

/-- The run that a call begins, if it is accepted. -/
def begins : Call → Evaluation → Shared → Option Transition
  | start _, ev, sh => ev.started sh
  | resume _ answer, ev, sh => ev.resumed answer sh

theorem perform_eq (call : Call) (ev : Evaluation) (sh : Shared) :
    call.perform ev sh = begun call.refusal ev sh call.steps (call.begins ev sh) := by
  cases call with
  | start steps => exact start_eq steps ev sh
  | resume steps answer => exact resume_eq steps answer ev sh

theorem isSome_begins (call : Call) (ev : Evaluation) (sh : Shared) :
    (call.begins ev sh).isSome = ev.accepts call := by
  obtain ⟨status, env, k⟩ := ev
  cases call <;> cases status <;> rfl

theorem begins_of_refused {call : Call} {ev : Evaluation} (h : ev.accepts call = false)
    (sh : Shared) : call.begins ev sh = none := by
  rw [← isSome_begins call ev sh] at h
  exact Option.isSome_eq_false_iff.mp h |> Option.isNone_iff_eq_none.mp

theorem exists_begins {call : Call} {ev : Evaluation} (h : ev.accepts call = true)
    (sh : Shared) : ∃ t, call.begins ev sh = some t := by
  rw [← isSome_begins call ev sh] at h
  exact Option.isSome_iff_exists.mp h

/-- A call that is accepted does not begin with a refusal. -/
theorem not_isRefusal_of_begins {call : Call} {ev : Evaluation} {sh : Shared} {fault : Fault}
    {c : Config} (h : call.begins ev sh = some (.failed fault c)) : fault.isRefusal = false := by
  obtain ⟨status, env, k⟩ := ev
  cases call with
  | start steps => cases status <;> cases h
  | resume steps answer =>
      cases status with
      | suspended s =>
          rcases Config.resume_fault (Option.some.inj h) with hprogram | ⟨rfl, _⟩
          · exact Fault.not_isRefusal_of_isOfProgram hprogram
          · rfl
      | _ => cases h

end Call

end Evaluation

/-! ## What a run ends with -/

namespace Transition

theorem not_isRefusal_of_run {n : Nat} {t : Transition}
    (h : ∀ fault c, t = .failed fault c → fault.isRefusal = false) {failure : Failure}
    {last : Config} (hrun : t.run n = .failed failure last) :
    failure.fault.isRefusal = false := by
  induction n generalizing t with
  | zero =>
      cases t with
      | failed fault c =>
          cases hrun
          rw [Config.fault_failure]
          exact h fault _ rfl
      | _ => cases hrun
  | succ n ih =>
      cases t with
      | running c =>
          refine ih (fun fault after hstep => ?_) hrun
          have hfollows := c.step_follows
          rw [hstep] at hfollows
          exact hfollows.not_isRefusal
      | failed fault c =>
          cases hrun
          rw [Config.fault_failure]
          exact h fault _ rfl
      | _ => cases hrun

/-- What a run ends with is held in the end. -/
theorem held_of_run (n : Nat) (t : Transition) (held : Held) (focus : Focus) :
    match t.run n with
    | .finished v _ => t.held n (held.after focus t) = .value v
    | .suspended s _ => t.held n (held.after focus t) = .suspension s
    | _ => True := by
  induction n generalizing t held focus with
  | zero =>
      cases t with
      | finished | suspended => rfl
      | running | failed => trivial
  | succ n ih =>
      cases t with
      | running c => exact ih c.step _ c.focus
      | finished | suspended => rfl
      | failed => trivial

end Transition

/-! ## The history of an evaluation -/

/-- Whether an outcome is the refusal of a call. -/
def Outcome.isRefusal : Outcome → Bool
  | failed failure => failure.fault.isRefusal
  | _ => false

/-- An evaluation with what it holds, and the interpreter that it belongs to. -/
structure Attended where
  evaluation : Evaluation
  held : Held
  interpreter : Interpreter

/-- A call that was made, and its outcome. -/
structure Attended.Entry where
  call : Evaluation.Call
  outcome : Outcome

/-- The outcome of the latest call that was effective, in a log with the latest call first. -/
def Attended.latest? : List Entry → Option Outcome
  | [] => none
  | entry :: log => if entry.outcome.isRefusal then latest? log else some entry.outcome

namespace Attended

/-- An evaluation that has just been made. -/
def ofExpression (e : Value) (env : Addr) (i : Interpreter) : Attended :=
  ⟨.ofExpression e env, .value e, i⟩

/-- Make a call. -/
def perform (call : Evaluation.Call) (a : Attended) : Outcome × Attended :=
  let ((outcome, ev), sh) := call.perform a.evaluation a.interpreter.shared
  let held :=
    match call.begins a.evaluation a.interpreter.shared with
    | some t => t.held call.steps (a.held.after (.drain .void) t)
    | none => a.held
  (outcome, ⟨ev, held, { a.interpreter with shared := sh }⟩)

/-- This log of calls leads from the one to the other.  Every call in it has ended, and between
the calls the interpreter may have done anything. -/
inductive Leads (first : Attended) : List Entry → Attended → Prop
  | start : Leads first [] first
  | called {log : List Entry} {a : Attended} (h : Leads first log a) (call : Evaluation.Call)
      (hended : (a.perform call).1 ≠ .exhausted) :
      Leads first (⟨call, (a.perform call).1⟩ :: log) (a.perform call).2
  | meanwhile {log : List Entry} {a : Attended} (h : Leads first log a) (i : Interpreter) :
      Leads first log { a with interpreter := i }

variable {call : Evaluation.Call} {a : Attended}

/-! ### One call -/

/-- A call that is not accepted is refused, and changes nothing. -/
theorem perform_refused (h : a.evaluation.accepts call = false) :
    a.perform call = (.failed (.plain call.refusal), a) := by
  rw [perform, call.perform_eq, Evaluation.Call.begins_of_refused h]
  rfl

/-- A call that is accepted runs the machine. -/
theorem perform_of_begins {t : Transition}
    (h : call.begins a.evaluation a.interpreter.shared = some t) :
    a.perform call =
      let ((outcome, ev), sh) := Evaluation.ofHalt (t.run call.steps)
      (outcome, ⟨ev, t.held call.steps (a.held.after (.drain .void) t),
        { a.interpreter with shared := sh }⟩) := by
  rw [perform, call.perform_eq, h]
  rfl

/-- The calls that are refused are those that are not accepted. -/
theorem isRefusal_perform (call : Evaluation.Call) (a : Attended) :
    (a.perform call).1.isRefusal = !a.evaluation.accepts call := by
  cases haccepts : a.evaluation.accepts call with
  | false =>
      rw [perform_refused haccepts]
      cases call <;> rfl
  | true =>
      obtain ⟨t, ht⟩ := Evaluation.Call.exists_begins haccepts a.interpreter.shared
      rw [perform_of_begins ht]
      cases hrun : t.run call.steps with
      | failed failure c =>
          refine Transition.not_isRefusal_of_run (fun fault c hfailed => ?_) hrun
          exact Evaluation.Call.not_isRefusal_of_begins (hfailed ▸ ht)
      | _ => rfl

/-! ### Any number of calls -/

/-- What the latest effective call says about an evaluation of this expression in this
environment. -/
def Stands (e : Value) (env : Addr) (a : Attended) : Option Outcome → Prop
  | none => a.evaluation = .ofExpression e env ∧ a.held = .value e
  | some (.value v) => a.evaluation.status = .over ∧ a.held = .value v
  | some (.suspended s) => a.evaluation.status = .suspended s ∧ a.held = .suspension s
  | some (.failed _) => a.evaluation.status = .over
  | some .exhausted => False

/-- Where an evaluation of this expression stands after an effective call. -/
def statusAfter (e : Value) : Option Outcome → Evaluation.Status
  | none => .ready e
  | some (.suspended s) => .suspended s
  | some _ => .over

theorem stands_perform (haccepts : a.evaluation.accepts call = true)
    (hended : (a.perform call).1 ≠ .exhausted) (e : Value) (env : Addr) :
    (a.perform call).2.Stands e env (some (a.perform call).1) := by
  obtain ⟨t, ht⟩ := Evaluation.Call.exists_begins haccepts a.interpreter.shared
  have hheld := t.held_of_run call.steps a.held (.drain .void)
  rw [perform_of_begins ht] at hended ⊢
  cases hrun : t.run call.steps with
  | finished v c =>
      rw [hrun] at hheld
      exact ⟨rfl, hheld⟩
  | suspended s c =>
      rw [hrun] at hheld
      exact ⟨rfl, hheld⟩
  | failed failure c => exact rfl
  | exhausted c =>
      rw [hrun] at hended
      exact absurd rfl hended

namespace Leads

variable {e : Value} {env : Addr} {i : Interpreter} {log : List Entry}

/-- An evaluation stands where its latest effective call has left it. -/
theorem stands (h : Leads (.ofExpression e env i) log a) : a.Stands e env (latest? log) := by
  induction h with
  | start => exact ⟨rfl, rfl⟩
  | @called log a _ call hended ih =>
      rw [latest?, isRefusal_perform]
      cases haccepts : a.evaluation.accepts call with
      | false =>
          rw [perform_refused haccepts]
          exact ih
      | true => exact stands_perform haccepts hended e env
  | @meanwhile log a _ i ih => exact ih

theorem status_eq (h : Leads (.ofExpression e env i) log a) :
    a.evaluation.status = statusAfter e (latest? log) := by
  have hstands := h.stands
  cases hlatest : latest? log with
  | none =>
      rw [hlatest] at hstands
      rw [hstands.1]
      rfl
  | some outcome =>
      rw [hlatest] at hstands
      cases outcome with
      | value v => exact hstands.1
      | suspended s => exact hstands.1
      | failed failure => exact hstands
      | exhausted => exact hstands.elim

/-- The calls that are accepted, read off the log. -/
theorem accepts_iff (h : Leads (.ofExpression e env i) log a) (call : Evaluation.Call) :
    a.evaluation.accepts call = true ↔
      if call.isStart then latest? log = none else ∃ s, latest? log = some (.suspended s) := by
  unfold Evaluation.accepts
  rw [h.status_eq]
  generalize latest? log = latest
  rcases latest with _ | outcome
  · cases call <;> simp [statusAfter, Evaluation.Call.isStart]
  · cases outcome <;> cases call <;> simp [statusAfter, Evaluation.Call.isStart]

theorem pending?_eq_some_iff (h : Leads (.ofExpression e env i) log a) (s : Suspension) :
    a.evaluation.pending? = some s ↔ latest? log = some (.suspended s) := by
  unfold Evaluation.pending?
  rw [h.status_eq]
  generalize latest? log = latest
  rcases latest with _ | outcome
  · simp [statusAfter]
  · cases outcome <;> simp [statusAfter]

/-- There is an effective call once there was a call to start the evaluation. -/
theorem latest?_eq_none_iff (h : Leads (.ofExpression e env i) log a) :
    latest? log = none ↔ ∀ entry ∈ log, entry.call.isStart = false := by
  induction h with
  | start => simp [latest?]
  | @called log a h call hended ih =>
      have haccepts := h.accepts_iff call
      rw [latest?, isRefusal_perform, List.forall_mem_cons, ← ih]
      cases hcall : a.evaluation.accepts call <;> cases hstart : call.isStart <;>
        simp only [hcall, hstart] at haccepts ⊢
      · simp
      · simpa using haccepts
      · obtain ⟨s, hs⟩ := haccepts.mp trivial
        simp [hs]
      · simp
  | meanwhile _ _ ih => exact ih

/-- What ends an evaluation stays its latest effective call. -/
theorem latest?_of_last (h : Leads (.ofExpression e env i) log a) {entry : Entry}
    (hentry : entry ∈ log) (heffective : entry.outcome.isRefusal = false)
    (hlast : ∀ s, entry.outcome ≠ .suspended s) : latest? log = some entry.outcome := by
  induction h with
  | start => cases hentry
  | @called log a h call hended ih =>
      rcases List.mem_cons.mp hentry with rfl | hearlier
      · rw [latest?, heffective]
        rfl
      · have hlatest := ih hearlier
        have hrefused : a.evaluation.accepts call = false := by
          rw [← Bool.not_eq_true, h.accepts_iff, hlatest]
          simpa using fun _ => hlast
        rw [latest?, isRefusal_perform, hrefused]
        exact hlatest
  | meanwhile _ _ ih => exact ih hentry

/-- Before the evaluation is started, it is as it was made. -/
theorem unstarted (h : Leads (.ofExpression e env i) log a)
    (hunstarted : ∀ entry ∈ log, entry.call.isStart = false) :
    a.evaluation = .ofExpression e env ∧ a.held = .value e := by
  have hstands := h.stands
  rwa [h.latest?_eq_none_iff.mpr hunstarted] at hstands

theorem held_eq (h : Leads (.ofExpression e env i) log a) :
    (∀ v, latest? log = some (.value v) → a.held = .value v) ∧
      ∀ s, latest? log = some (.suspended s) → a.held = .suspension s := by
  have hstands := h.stands
  constructor
  · intro v hlatest
    rw [hlatest] at hstands
    exact hstands.2
  · intro s hlatest
    rw [hlatest] at hstands
    exact hstands.2

end Leads

end Attended

/-! ## Answers that cannot be read -/

/-- An answer cannot be read if it cannot be cut into tokens, or if it brings a syntax error
about.  The first leaves the buffer as it was, the second empties it. -/
theorem InputBuffer.supply_eq_error {buffer after : InputBuffer} {text fresh again : String}
    {fault : Fault} (h : buffer.supply (some text) fresh again = (.error fault, after)) :
    Token.isCut text = true ∧ fault.label = "SchemeSyntaxError" ∧ after = .empty ∨
      Token.isCut text = false ∧ fault.label = "IndexError" ∧ after = buffer := by
  cases hcut : Token.isCut text with
  | false =>
      rw [supply, feed_of_not_isCut hcut] at h
      cases h
      exact .inr ⟨rfl, rfl, rfl⟩
  | true =>
      rw [supply, feed_of_isCut hcut] at h
      dsimp only at h
      unfold read at h
      split at h
      · cases h
      · cases h
      · next found rest hfound hread =>
          cases h
          refine .inl ⟨rfl, ?_, rfl⟩
          exact (Datum.readFrom_fault hread).resolve_left (hfound ·)

/-- An answer that cannot be read ends the evaluation.  Of all the rest, it changes at most the
buffer. -/
theorem Attended.perform_of_unreadable {a : Attended} {request : LineRequest}
    (hpending : a.evaluation.pending? = some (.awaiting request)) {text : String} {fault : Fault}
    {buffer : InputBuffer}
    (hsupply : a.interpreter.shared.input.supply (some text) request.freshPrompt
      request.openPrompt = (.error fault, buffer)) (steps : Nat) :
    ∃ trace, a.perform (.resume steps (some text)) = (.failed ⟨fault, trace⟩,
      ⟨⟨.over, a.evaluation.env, a.evaluation.stack⟩, a.held,
        { a.interpreter with shared := { a.interpreter.shared with input := buffer } }⟩) := by
  obtain ⟨⟨status, env, k⟩, held, i⟩ := a
  have hstatus : status = .suspended (.awaiting request) := by
    cases status with
    | suspended s => exact congrArg _ (Option.some.inj hpending)
    | _ => cases hpending
  subst hstatus
  let c : Config := ⟨.drain .void, env, k, { i.shared with input := buffer }⟩
  have hbegins : (Evaluation.Call.resume steps (some text)).begins
      ⟨.suspended (.awaiting request), env, k⟩ i.shared = some (.failed fault c) := by
    simp only [Evaluation.Call.begins, Evaluation.resumed, Config.resume, Shared.resume, hsupply,
      Shared.takeAnswer, c]
  obtain ⟨trace, hfailure⟩ : ∃ trace, c.failure fault = ⟨fault, trace⟩ := by
    unfold Config.failure
    split
    · exact ⟨_, rfl⟩
    · exact ⟨none, rfl⟩
  refine ⟨trace, ?_⟩
  rw [perform_of_begins hbegins, ← hfailure]
  cases steps <;> rfl

/-! ## The protocol -/

namespace Attended

/-- **An evaluation is one-shot.**  Whatever calls are made of an evaluation, with whatever answers,
and whatever the interpreter does between them: the first start is effective, an attempt to resume
is effective exactly if the latest effective call has come to a suspension, which is then the
pending one, and no other call is.  Until the first start nothing has been evaluated.

What is not effective fails without a trace and changes nothing at all.  Once an effective call has
come to a value or a failure, no call is effective any more.  An answer that cannot be read leaves
the environment, the stack, what is held and the store, and empties the buffer if it is a syntax
error; one that cannot be cut into tokens leaves the buffer too. -/
theorem evaluation_is_one_shot {e : Value} {env : Addr} {i : Interpreter} {log : List Entry}
    {a : Attended} (h : Leads (.ofExpression e env i) log a) :
    (∀ steps, (a.perform (.start steps)).1.isRefusal = false ↔
      ∀ entry ∈ log, entry.call.isStart = false) ∧
    (∀ steps answer, (a.perform (.resume steps answer)).1.isRefusal = false ↔
      ∃ s, latest? log = some (.suspended s)) ∧
    (∀ s, a.evaluation.pending? = some s ↔ latest? log = some (.suspended s)) ∧
    ((∀ entry ∈ log, entry.call.isStart = false) →
      a.evaluation = .ofExpression e env ∧ a.held = .value e) ∧
    (∀ v, latest? log = some (.value v) → a.held = .value v) ∧
    (∀ s, latest? log = some (.suspended s) → a.held = .suspension s) ∧
    (∀ call, (a.perform call).1.isRefusal = true →
      a.perform call = (.failed ⟨call.refusal, none⟩, a) ∧ call.refusal.label = "SchemeError") ∧
    (∀ entry ∈ log, entry.outcome.isRefusal = false → (∀ s, entry.outcome ≠ .suspended s) →
      ∀ call, (a.perform call).1.isRefusal = true) ∧
    ∀ request text fault buffer, a.evaluation.pending? = some (.awaiting request) →
      a.interpreter.shared.input.supply (some text) request.freshPrompt request.openPrompt =
        (.error fault, buffer) →
      (∀ steps, ∃ trace, a.perform (.resume steps (some text)) = (.failed ⟨fault, trace⟩,
        ⟨⟨.over, a.evaluation.env, a.evaluation.stack⟩, a.held,
          { a.interpreter with shared := { a.interpreter.shared with input := buffer } }⟩)) ∧
      (Token.isCut text = true ∧ fault.label = "SchemeSyntaxError" ∧ buffer = .empty ∨
        Token.isCut text = false ∧ fault.label = "IndexError" ∧
          buffer = a.interpreter.shared.input) := by
  have hrefusal (call : Evaluation.Call) :
      (a.perform call).1.isRefusal = false ↔ a.evaluation.accepts call = true := by
    rw [isRefusal_perform, Bool.not_eq_false']
  refine ⟨fun steps => ?_, fun steps answer => ?_, h.pending?_eq_some_iff, h.unstarted,
    h.held_eq.1, h.held_eq.2, fun call hrefused => ?_, fun entry hentry heffective hlast call => ?_,
    fun request text fault buffer hpending hsupply => ?_⟩
  · rw [hrefusal, h.accepts_iff, ← h.latest?_eq_none_iff]
    rfl
  · rw [hrefusal, h.accepts_iff]
    rfl
  · rw [isRefusal_perform, Bool.not_eq_true'] at hrefused
    refine ⟨perform_refused hrefused, ?_⟩
    cases call <;> rfl
  · rw [← Bool.not_eq_false, hrefusal, h.accepts_iff, h.latest?_of_last hentry heffective hlast]
    simpa using fun _ => hlast
  · exact ⟨perform_of_unreadable hpending hsupply, InputBuffer.supply_eq_error hsupply⟩

/-- An evaluation of `(read)` is resumed too early, is started, and is started again.  Then it
can be resumed, and a parenthesis too many ends it. -/
theorem evaluation_is_one_shot_of_read :
    ∃ log a, Leads (.ofExpression (.pair 0 (.symbol "read") .nil) Store.global (.start [])) log a ∧
      log.map (fun entry => (entry.call.isStart, entry.outcome.isRefusal)) =
        [(true, true), (true, false), (false, true)] ∧
      (a.perform (.start 9)).1.isRefusal = true ∧
      (a.perform (.resume 9 (some ")"))).1.isRefusal = false ∧
      ∃ trace b, a.perform (.resume 9 (some ")")) = (.failed ⟨.unexpectedClose, trace⟩, b) ∧
        b.evaluation.stack = a.evaluation.stack ∧
        b.interpreter.shared.store = a.interpreter.shared.store := by
  let first : Attended :=
    .ofExpression (.pair 0 (.symbol "read") .nil) Store.global (.start [])
  let early : Attended := (first.perform (.resume 9 none)).2
  let started : Attended := (early.perform (.start 9)).2
  have hearly : Leads first _ early := .called .start (.resume 9 none) nofun
  have hstarted : Leads first _ started := .called hearly (.start 9) nofun
  have hagain : Leads first _ (started.perform (.start 9)).2 := .called hstarted (.start 9) nofun
  obtain ⟨hstart, hresume, _, _, _, _, _, _, hunreadable⟩ := evaluation_is_one_shot hagain
  obtain ⟨hended, _⟩ := hunreadable ⟨"", "", ""⟩ ")" .unexpectedClose .empty rfl rfl
  obtain ⟨trace, hended⟩ := hended 9
  refine ⟨_, _, hagain, rfl, ?_, (hresume 9 _).mpr ⟨.awaiting ⟨"", "", ""⟩, rfl⟩, trace, _, hended,
    rfl, rfl⟩
  rw [← Bool.not_eq_false, hstart]
  intro hnone
  exact absurd (hnone _ List.mem_cons_self) nofun

end Attended

end SchemeMachine
