import SchemeMachine.Interpreter

/-!
# The machine and its host

An evaluation that suspends is resumed with what the host answers, again and
again, until it has a value or a failure.  `Served` puts the machine and its host
into one transition system: `Served.next` is a step of the machine, or the act of
the host that a suspension asks for.

`evaluateValue_eq_iff` ties it to the interpreter.  What `evaluateValue` gives
when its steps are enough is what the transition system comes to, so statements
about runs need no bound on their steps.
-/

namespace SchemeMachine

/-- A run of the machine as it stands, and the lines that its host has left. -/
structure Served where
  transition : Transition
  lines : List String

namespace Interpreter

/-- Let the host act on a suspension and finish the suspended call. -/
def reply (suspension : Suspension) (i : Interpreter) : Except Fault Reply × Interpreter :=
  let noted : Interpreter := { i with shared := i.shared.noteSuspension suspension }
  let (answer, served) := noted.service suspension
  served.onShared (Shared.resume suspension answer)

end Interpreter

namespace Served

/-- How a run goes on once a suspended call is finished. -/
def resumed (c : Config) : Except Fault Reply × Interpreter → Served
  | (.error fault, i) => ⟨.failed fault { c with shared := i.shared }, i.lines⟩
  | (.ok (.value v), i) => ⟨{ c with shared := i.shared }.toDrain v, i.lines⟩
  | (.ok (.suspend s), i) => ⟨.suspended s { c with shared := i.shared }, i.lines⟩

/-- One step of the machine, or one act of its host.  What has ended stays as it
is. -/
def next [Saving] : Served → Served
  | ⟨.running c, lines⟩ => ⟨c.step, lines⟩
  | ⟨.suspended suspension c, lines⟩ => resumed c (Interpreter.reply suspension ⟨c.shared, lines⟩)
  | ended => ended

/-- So many steps and acts later. -/
def after [Saving] : Nat → Served → Served
  | 0, s => s
  | n + 1, s => after n s.next

/-- The evaluation of an expression in an environment, not yet begun. -/
def start (expression : Value) (env : Addr) (k : Stack) (i : Interpreter) : Served :=
  ⟨.running ⟨.reduce expression, env, k, i.shared⟩, i.lines⟩

/-- What a run has come to, if it has ended. -/
def result? [Saving] : Served → Option (Except Stop Value × Interpreter)
  | ⟨.finished v c, lines⟩ => some (.ok v, ⟨c.shared, lines⟩)
  | ⟨.failed fault c, lines⟩ => some (.error (.failure (c.failure fault)), ⟨c.shared, lines⟩)
  | _ => none

/-! ## Counting steps -/

@[simp] theorem after_zero [Saving] (s : Served) : s.after 0 = s := rfl

theorem after_succ [Saving] (n : Nat) (s : Served) : s.after (n + 1) = s.next.after n := rfl

theorem after_add [Saving] (m n : Nat) (s : Served) : s.after (m + n) = (s.after m).after n := by
  induction m generalizing s with
  | zero => rw [Nat.zero_add, after_zero]
  | succ m ih =>
      rw [Nat.add_right_comm, after_succ, after_succ]
      exact ih s.next

theorem next_of_result? [Saving] {s : Served} {result : Except Stop Value × Interpreter}
    (h : s.result? = some result) : s.next = s := by
  obtain ⟨transition, lines⟩ := s
  cases transition with
  | running c => simp [result?] at h
  | suspended suspension c => simp [result?] at h
  | finished v c => rfl
  | failed fault c => rfl

theorem after_of_result? [Saving] {s : Served} {result : Except Stop Value × Interpreter}
    (h : s.result? = some result) (n : Nat) : s.after n = s := by
  induction n with
  | zero => rfl
  | succ n ih => rw [after_succ, next_of_result? h, ih]

end Served

/-! ## The interpreter follows the transition system

`conclude` is `evaluateValue` started in the middle of a run, with the steps that
are left to the current stretch apart from those each later stretch may take. -/

namespace Interpreter

/-- See a run to its end: `left` steps to the next suspension, then at most
`rounds` suspensions with at most `steps` steps after each. -/
private def conclude [Saving] (steps rounds left : Nat) (t : Transition) (lines : List String) :
    Except Stop Value × Interpreter :=
  let ((outcome, ev), shared) := Evaluation.ofHalt (t.run left)
  serve steps rounds outcome ev ⟨shared, lines⟩

private theorem conclude_running [Saving] (steps rounds left : Nat) (c : Config)
    (lines : List String) :
    conclude steps rounds (left + 1) (.running c) lines =
      conclude steps rounds left c.step lines := rfl

private theorem conclude_suspended [Saving] (steps rounds left : Nat) (suspension : Suspension)
    (c : Config) (lines : List String) :
    conclude steps (rounds + 1) left (.suspended suspension c) lines =
      conclude steps rounds steps (Served.next ⟨.suspended suspension c, lines⟩).transition
        (Served.next ⟨.suspended suspension c, lines⟩).lines := by
  have hrun : Transition.run left (.suspended suspension c) =
      .suspended suspension { c with shared := c.shared.noteSuspension suspension } := by
    cases left <;> rfl
  rw [conclude, hrun]
  simp only [Evaluation.ofHalt, serve, Served.next, reply]
  generalize hserved : service suspension ⟨c.shared.noteSuspension suspension, lines⟩ = served
  obtain ⟨answer, i⟩ := served
  simp only [onShared, Evaluation.resume, Config.resume]
  generalize Shared.resume suspension answer i.shared = reply
  obtain ⟨reply | reply, shared⟩ := reply
  · cases steps <;> rfl
  · cases reply <;> cases steps <;> rfl

private theorem conclude_ended [Saving] {t : Transition} {lines : List String}
    {result : Except Stop Value × Interpreter} (steps rounds left : Nat)
    (h : (Served.mk t lines).result? = some result) :
    conclude steps rounds left t lines = result := by
  cases t with
  | running c => simp [Served.result?] at h
  | suspended suspension c => simp [Served.result?] at h
  | finished v c => cases left <;> cases rounds <;> exact Option.some.inj h
  | failed fault c => cases left <;> cases rounds <;> exact Option.some.inj h

private theorem served_of_conclude [Saving] {steps : Nat} (rounds left : Nat) (t : Transition)
    (lines : List String) {result : Except Stop Value × Interpreter}
    (h : conclude steps rounds left t lines = result) (hresult : result.1 ≠ .error .exhausted) :
    ∃ n, ((Served.mk t lines).after n).result? = some result := by
  -- a step uses up a step of its stretch, and a suspension a round
  match t, rounds, left with
  | .finished v c, _, _ =>
      exact ⟨0, congrArg some ((conclude_ended _ _ _ rfl).symm.trans h)⟩
  | .failed fault c, _, _ =>
      exact ⟨0, congrArg some ((conclude_ended _ _ _ rfl).symm.trans h)⟩
  | .running c, rounds, 0 =>
      exact absurd (by rw [← h]; cases rounds <;> rfl) hresult
  | .running c, rounds, left + 1 =>
      obtain ⟨n, hn⟩ := served_of_conclude rounds left c.step lines h hresult
      exact ⟨n + 1, hn⟩
  | .suspended suspension c, 0, left =>
      exact absurd (by rw [← h]; cases left <;> rfl) hresult
  | .suspended suspension c, rounds + 1, left =>
      rw [conclude_suspended] at h
      obtain ⟨n, hn⟩ := served_of_conclude rounds steps _ _ h hresult
      exact ⟨n + 1, hn⟩
termination_by (rounds, left)

private theorem conclude_of_served [Saving] {n steps rounds left : Nat} {t : Transition}
    {lines : List String} {result : Except Stop Value × Interpreter} (hsteps : n ≤ steps)
    (hrounds : n ≤ rounds) (hleft : n ≤ left)
    (h : ((Served.mk t lines).after n).result? = some result) :
    conclude steps rounds left t lines = result := by
  induction n generalizing rounds left t lines with
  | zero => exact conclude_ended _ _ _ h
  | succ n ih =>
      cases t with
      | running c =>
          obtain ⟨left, rfl⟩ : ∃ m, left = m + 1 := ⟨left - 1, by omega⟩
          rw [conclude_running]
          exact ih (by omega) (by omega) (by omega) h
      | suspended suspension c =>
          obtain ⟨rounds, rfl⟩ : ∃ m, rounds = m + 1 := ⟨rounds - 1, by omega⟩
          rw [conclude_suspended]
          exact ih (by omega) (by omega) (by omega) h
      | finished v c =>
          rw [Served.after_of_result? rfl] at h
          exact conclude_ended _ _ _ h
      | failed fault c =>
          rw [Served.after_of_result? rfl] at h
          exact conclude_ended _ _ _ h

/-- What the interpreter gives for an expression, when its steps are enough, is
what the machine and its host come to. -/
theorem evaluateValue_eq_iff [Saving] (expression : Value) (i : Interpreter)
    {result : Except Stop Value × Interpreter} (hresult : result.1 ≠ .error .exhausted) :
    (∃ steps, i.evaluateValue steps expression = result) ↔
      ∃ n, ((Served.start expression Store.global .empty i).after n).result? = some result := by
  constructor
  · rintro ⟨steps, h⟩
    exact served_of_conclude steps steps _ _ h hresult
  · rintro ⟨n, h⟩
    exact ⟨n, conclude_of_served (Nat.le_refl n) (Nat.le_refl n) (Nat.le_refl n) h⟩

end Interpreter

end SchemeMachine
