import SchemeMachine.Proofs.Natural.Progress

/-!
# The machine computes the natural semantics

`machine_computes_natural_semantics` puts the two directions together.  What has a
derivation is done by the machine (`Evaluates.realised`).  Conversely a run that
comes back to the stack it began on, or fails before that, has a derivation: else
the machine would still be busy one step after its end (`progresses`), and what is
derived is what was found because the machine has only one run.
-/

namespace SchemeMachine

open Served

namespace Served

variable {frames : List Frame} {s t u : Served} {m n : Nat}

/-- A value is about to be handed to exactly these frames. -/
def Returned (frames : List Frame) : Served → Prop
  | ⟨.running c, _⟩ => c.focus.isDrain = true ∧ c.stack.frames = frames
  | _ => False

/-- The state `t` comes `n` steps after `s`, and before it the run neither returns to
`frames` nor calls `call/cc` or a continuation. -/
def FirstReaches (frames : List Frame) (n : Nat) (s t : Served) : Prop :=
  s.after n = t ∧ ∀ m < n, ¬ (s.after m).Returned frames ∧ ¬ (s.after m).Escapes

/-- The run above `frames` is over: it has returned to them, or it has failed. -/
def Over (frames : List Frame) : Served → Prop
  | ⟨.failed .., _⟩ => True
  | s => s.Returned frames

theorem Above.not_over (h : s.Above frames) : ¬ s.Over frames := by
  obtain ⟨transition, lines⟩ := s
  cases transition with
  | running c => exact fun hover => h.2.1 hover.1 hover.2
  | suspended suspension c => exact id
  | finished v c => exact h.elim
  | failed fault c => exact h.elim

theorem Above.not_returned (h : s.Above frames) : ¬ s.Returned frames := by
  obtain ⟨transition, lines⟩ := s
  cases transition with
  | running c => exact h.not_over
  | suspended suspension c => exact id
  | finished v c => exact h.elim
  | failed fault c => exact h.elim

theorem Above.not_escapes (h : s.Above frames) : ¬ s.Escapes := by
  obtain ⟨transition, lines⟩ := s
  cases transition with
  | running c => exact fun hescapes => Bool.noConfusion (h.2.2.symm.trans hescapes)
  | suspended suspension c => exact id
  | finished v c => exact h.elim
  | failed fault c => exact h.elim

theorem Over.not_escapes (h : s.Over frames) : ¬ s.Escapes := by
  obtain ⟨⟨focus, env, k, sh⟩ | _ | _ | _, lines⟩ := s
  · cases focus with
    | drain v => exact Bool.false_ne_true
    | reduce e => exact absurd h.1 Bool.false_ne_true
    | call callee arguments => exact absurd h.1 Bool.false_ne_true
  · exact h.elim
  · exact h.elim
  · exact id

theorem Runs.firstReaches (h : Runs frames n s t) : FirstReaches frames n s t := by
  obtain ⟨hafter, habove⟩ := runs_iff.mp h
  exact ⟨hafter, fun m hm => ⟨(habove m hm).not_returned, (habove m hm).not_escapes⟩⟩

/-- A run above `frames` does not pass a state in which it is over. -/
theorem Runs.le_of_over (hrun : Runs frames m s t) (hover : (s.after n).Over frames) : m ≤ n := by
  obtain ⟨_, habove⟩ := runs_iff.mp hrun
  by_contra hlt
  exact (habove n (by omega)).not_over hover

theorem FirstReaches.eq_of_runs (hfirst : FirstReaches frames n s t) (ht : t.Over frames)
    (hrun : Runs frames m s u) (hu : u.Over frames) : t = u := by
  obtain ⟨rfl, hbefore⟩ := hfirst
  obtain ⟨rfl, _⟩ := runs_iff.mp hrun
  obtain ⟨d, rfl⟩ := Nat.exists_eq_add_of_le (hrun.le_of_over ht)
  cases d with
  | zero => rfl
  | succ d =>
      -- the run that is over earlier has failed, and so it stays where it is
      have hnot := (hbefore m (by omega)).1
      rw [after_add]
      generalize hend : s.after m = u at hu hnot
      obtain ⟨transition, lines⟩ := u
      cases transition with
      | failed fault c => exact after_of_result? rfl _
      | running c => exact absurd hu hnot
      | suspended suspension c => exact hu.elim
      | finished v c => exact hu.elim

/-- A run that is over is no longer busy. -/
theorem FirstReaches.not_goesOn (hfirst : FirstReaches frames n s t) (ht : t.Over frames) :
    ¬ s.GoesOn frames (n + 1) := by
  obtain ⟨rfl, hbefore⟩ := hfirst
  rintro (⟨m, u, hrun, hescapes⟩ | ⟨u, hrun⟩)
  · obtain ⟨rfl, _⟩ := runs_iff.mp hrun
    rcases Nat.lt_or_eq_of_le (hrun.le_of_over ht) with hlt | rfl
    · exact (hbefore m hlt).2 hescapes
    · exact ht.not_escapes hescapes
  · have hle := hrun.le_of_over ht
    omega

end Served

variable {e v : Value} {env : Addr} {k : Stack} {i j : Interpreter}

/-- A run that is over has a derivation. -/
theorem exists_evaluates_of_over {n : Nat} {t : Served}
    (hfirst : FirstReaches k.frames n (Served.start e env k i) t) (ht : t.Over k.frames) :
    ∃ r j, Evaluates (.expression e) env i r j := by
  rcases progresses (n + 1) (.expression e) env i with hevaluates | hopen
  · exact hevaluates
  · exact absurd (hopen k) (hfirst.not_goesOn ht)

theorem evaluates_of_returned {n : Nat} {found : Addr} {below : Stack} {sh : Shared}
    {lines : List String} (hbelow : below.frames = k.frames)
    (hfirst : FirstReaches k.frames n (Served.start e env k i)
      ⟨.running ⟨.drain v, found, below, sh⟩, lines⟩) :
    Evaluates (.expression e) env i (.ok v) ⟨sh, lines⟩ ∧
      (found = env ∨ k.top? = some .restore) := by
  obtain ⟨fault | w, j, hevaluates⟩ := exists_evaluates_of_over hfirst ⟨rfl, hbelow⟩
  · obtain ⟨m, c, hrun, _⟩ := hevaluates.realised k
    cases hfirst.eq_of_runs ⟨rfl, hbelow⟩ hrun trivial
  · obtain ⟨m, found, below, hrun, hframes, hfound⟩ := hevaluates.realised k
    cases hfirst.eq_of_runs ⟨rfl, hbelow⟩ hrun ⟨rfl, hframes⟩
    refine ⟨hevaluates, ?_⟩
    rwa [Stack.top?, ← hframes]

theorem evaluates_of_failed {n : Nat} {fault : Fault} {c : Config} {lines : List String}
    (hfirst : FirstReaches k.frames n (Served.start e env k i) ⟨.failed fault c, lines⟩) :
    Evaluates (.expression e) env i (.error fault) ⟨c.shared, lines⟩ ∧
      k.frames <:+ c.stack.frames := by
  obtain ⟨fault | w, j, hevaluates⟩ := exists_evaluates_of_over hfirst trivial
  · obtain ⟨m, c, hrun, hshared, hframes⟩ := hevaluates.realised k
    cases hfirst.eq_of_runs trivial hrun trivial
    exact ⟨hshared ▸ hevaluates, hframes⟩
  · obtain ⟨m, found, below, hrun, hframes, _⟩ := hevaluates.realised k
    cases hfirst.eq_of_runs trivial hrun ⟨rfl, hframes⟩

/-! ## Whole programs -/

theorem Evaluates.evaluateValue_eq_value (h : Evaluates (.expression e) Store.global i (.ok v) j) :
    ∃ steps, i.evaluateValue steps e = (.ok v, j) := by
  obtain ⟨n, found, k, hrun, hk, _⟩ := h.realised .empty
  refine (Interpreter.evaluateValue_eq_iff e i (by simp)).mpr ⟨n + 1, ?_⟩
  have hempty : k.pop? = none := (Stack.pop?_eq_none_iff k).mpr hk
  rw [after_add, (runs_iff.mp hrun).1]
  simp only [after_succ, after_zero, next, Config.step, Config.drain, hempty, result?]

theorem Evaluates.evaluateValue_eq_failure {fault : Fault}
    (h : Evaluates (.expression e) Store.global i (.error fault) j) :
    ∃ steps trace, i.evaluateValue steps e = (.error (.failure ⟨fault, trace⟩), j) := by
  obtain ⟨n, c, hrun, hshared, _⟩ := h.realised .empty
  have hresult : ((Served.start e Store.global .empty i).after n).result? =
      some (.error (.failure (c.failure fault)), j) := by
    rw [(runs_iff.mp hrun).1, result?, hshared]
  obtain ⟨steps, hsteps⟩ := (Interpreter.evaluateValue_eq_iff e i (by simp)).mpr ⟨n, hresult⟩
  refine ⟨steps, (c.failure fault).trace, hsteps.trans ?_⟩
  have hfault : c.failure fault = ⟨fault, (c.failure fault).trace⟩ :=
    congrArg (Failure.mk · (c.failure fault).trace) (c.fault_failure fault)
  rw [← hfault]

/-- **The machine computes the natural semantics.**  An expression has a value by the
rules of the language exactly if the machine, with its host, comes back with it to the
stack it began on, having called neither `call/cc` nor a continuation; and it has a fault
by the rules exactly if the machine fails with it before it comes back.  What the rules
say of the store, the input and the output is what the machine leaves.  The machine comes
back in the environment it began in unless the frame on top restores one, fails with the
whole stack it began on still beneath, and on an empty stack the interpreter answers the
same. -/
theorem machine_computes_natural_semantics (e : Value) (env : Addr) (k : Stack)
    (i j : Interpreter) :
    (∀ v, Evaluates (.expression e) env i (.ok v) j ↔
      ∃ n found below, below.frames = k.frames ∧ FirstReaches k.frames n (Served.start e env k i)
        ⟨.running ⟨.drain v, found, below, j.shared⟩, j.lines⟩) ∧
    (∀ fault, Evaluates (.expression e) env i (.error fault) j ↔
      ∃ n c, c.shared = j.shared ∧ FirstReaches k.frames n (Served.start e env k i)
        ⟨.failed fault c, j.lines⟩) ∧
    (∀ n v found below sh lines, below.frames = k.frames →
      FirstReaches k.frames n (Served.start e env k i)
        ⟨.running ⟨.drain v, found, below, sh⟩, lines⟩ →
      found = env ∨ k.top? = some .restore) ∧
    (∀ n fault c lines, FirstReaches k.frames n (Served.start e env k i) ⟨.failed fault c, lines⟩ →
      k.frames <:+ c.stack.frames) ∧
    (∀ v, Evaluates (.expression e) Store.global i (.ok v) j →
      ∃ steps, i.evaluateValue steps e = (.ok v, j)) ∧
    (∀ fault, Evaluates (.expression e) Store.global i (.error fault) j →
      ∃ steps trace, i.evaluateValue steps e = (.error (.failure ⟨fault, trace⟩), j)) := by
  refine ⟨fun v => ⟨fun h => ?_, ?_⟩, fun fault => ⟨fun h => ?_, ?_⟩,
    fun n v found below sh lines hbelow hfirst => (evaluates_of_returned hbelow hfirst).2,
    fun n fault c lines hfirst => (evaluates_of_failed hfirst).2,
    fun v h => h.evaluateValue_eq_value, fun fault h => h.evaluateValue_eq_failure⟩
  · obtain ⟨n, found, below, hrun, hbelow, _⟩ := h.realised k
    exact ⟨n, found, below, hbelow, hrun.firstReaches⟩
  · rintro ⟨n, found, below, hbelow, hfirst⟩
    exact (evaluates_of_returned hbelow hfirst).1
  · obtain ⟨n, c, hrun, hshared, _⟩ := h.realised k
    exact ⟨n, c, hshared, hrun.firstReaches⟩
  · rintro ⟨n, c, hshared, hfirst⟩
    have hevaluates := (evaluates_of_failed hfirst).1
    rwa [hshared] at hevaluates

end SchemeMachine
