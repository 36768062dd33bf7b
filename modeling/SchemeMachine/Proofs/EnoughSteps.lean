import SchemeMachine.Proofs.Silence

/-!
# Enough steps

Everything the interpreter does takes at most the steps it is given.  Once these are
enough, more of them change nothing: not the result, and not the state it leaves.  A
computation of which this is true is called `Stable`.

Larger computations are made from smaller ones with `andThen`, which goes on with a
result or a failure and gives up only when the steps are used up.
-/

namespace SchemeMachine

/-! ## Evaluations -/

/-- What starting or resuming an evaluation gives: the outcome, the evaluation as it
is then, and the shared state. -/
abbrev Stretch := (Outcome × Evaluation) × Shared

/-- More steps change nothing about what an evaluation comes to. -/
def Stretch.Stable (f : Nat → Stretch) : Prop :=
  ∀ n m, n ≤ m → (f n).1.1 ≠ .exhausted → f m = f n

namespace Evaluation

/-- With enough steps, this is what an evaluation comes to. -/
def ComesTo (f : Nat → Stretch) (stretch : Stretch) : Prop :=
  stretch.1.1 ≠ .exhausted ∧ ∃ n, f n = stretch

theorem ComesTo.unique {f : Nat → Stretch} (hf : Stretch.Stable f) {stretch other : Stretch}
    (h : ComesTo f stretch) (h' : ComesTo f other) : stretch = other := by
  obtain ⟨hended, n, rfl⟩ := h
  obtain ⟨hended', m, rfl⟩ := h'
  rw [← hf n _ (Nat.le_max_left n m) hended, hf m _ (Nat.le_max_right n m) hended']

theorem ne_exhausted_of_ofHalt {halt : Halt} (h : (ofHalt halt).1.1 ≠ .exhausted) (c : Config) :
    halt ≠ .exhausted c := by
  rintro rfl
  exact h rfl

theorem run_of_le [Saving] {t : Transition} {n m : Nat} (hle : n ≤ m)
    (h : (ofHalt (t.run n)).1.1 ≠ .exhausted) : t.run m = t.run n := by
  obtain ⟨more, rfl⟩ := Nat.exists_eq_add_of_le hle
  exact Transition.run_add (ne_exhausted_of_ofHalt h) more

variable [Saving]

theorem start_stable (ev : Evaluation) (sh : Shared) : Stretch.Stable fun n => ev.start n sh := by
  obtain ⟨status, env, k⟩ := ev
  intro n m hle h
  cases status with
  | ready e => exact congrArg ofHalt (run_of_le hle h)
  | _ => rfl

theorem resume_stable (answer : Option String) (ev : Evaluation) (sh : Shared) :
    Stretch.Stable fun n => ev.resume n answer sh := by
  obtain ⟨status, env, k⟩ := ev
  intro n m hle h
  cases status with
  | suspended suspension => exact congrArg ofHalt (run_of_le hle h)
  | _ => rfl

end Evaluation

namespace Interpreter

/-! ## Computations of the interpreter -/

variable {α β : Type}

/-- More steps change nothing about a result. -/
def Stable (f : Nat → Except Stop α × Interpreter) : Prop :=
  ∀ n m, n ≤ m → (f n).1 ≠ .error .exhausted → f m = f n

theorem ne_exhausted_of_given {result : Except Stop α × Interpreter} {given : Except Failure α}
    {i : Interpreter} (h : result = (given.mapError .failure, i)) :
    result.1 ≠ .error .exhausted := by
  subst h
  cases given with
  | error failure => exact nofun
  | ok v => exact nofun

theorem Stable.eventually {f : Nat → Except Stop α × Interpreter} {given : Except Failure α}
    {i : Interpreter} {n : Nat} (hf : Stable f) (h : f n = (given.mapError .failure, i))
    {m : Nat} (hle : n ≤ m) : f m = (given.mapError .failure, i) :=
  (hf n m hle (ne_exhausted_of_given h)).trans h

/-- Go on with what a computation gives, unless it needs more steps. -/
def andThen (f : Nat → Except Stop α × Interpreter)
    (k : Except Failure α → Interpreter → Nat → Except Stop β × Interpreter) (n : Nat) :
    Except Stop β × Interpreter :=
  match f n with
  | (.error .exhausted, i) => (.error .exhausted, i)
  | (.error (.failure failure), i) => k (.error failure) i n
  | (.ok v, i) => k (.ok v) i n

/-- What did not need more steps gave a value or a failure. -/
theorem exists_given {result : Except Stop α × Interpreter} (h : result.1 ≠ .error .exhausted) :
    ∃ (given : Except Failure α) (i : Interpreter), result = (given.mapError .failure, i) := by
  obtain ⟨(failure | _) | v, i⟩ := result
  · exact ⟨.error failure, i, rfl⟩
  · exact absurd rfl h
  · exact ⟨.ok v, i, rfl⟩

section AndThen

variable {f : Nat → Except Stop α × Interpreter}
  {k : Except Failure α → Interpreter → Nat → Except Stop β × Interpreter}

theorem andThen_eq {n : Nat} {given : Except Failure α} {i : Interpreter}
    (h : f n = (given.mapError .failure, i)) : andThen f k n = k given i n := by
  rw [andThen, h]
  cases given <;> rfl

theorem exists_given_of_andThen {n : Nat} (h : (andThen f k n).1 ≠ .error .exhausted) :
    ∃ given i, f n = (given.mapError .failure, i) ∧ andThen f k n = k given i n := by
  have hfirst : (f n).1 ≠ .error .exhausted := by
    intro hexhausted
    rw [andThen, show f n = (.error .exhausted, (f n).2) by rw [← hexhausted]] at h
    exact h rfl
  obtain ⟨given, i, hgiven⟩ := exists_given hfirst
  exact ⟨given, i, hgiven, andThen_eq hgiven⟩

theorem andThen_of_le {later : Except Failure α → Interpreter → Nat → Except Stop β × Interpreter}
    {n m : Nat} (hf : Stable f) (hle : n ≤ m)
    (hk : ∀ given i, (k given i n).1 ≠ .error .exhausted → later given i m = k given i n)
    (h : (andThen f k n).1 ≠ .error .exhausted) : andThen f later m = andThen f k n := by
  obtain ⟨given, i, hgiven, heq⟩ := exists_given_of_andThen h
  rw [heq] at h ⊢
  rw [andThen_eq (hf.eventually hgiven hle)]
  exact hk given i h

theorem Stable.andThen (hf : Stable f) (hk : ∀ given i, Stable (k given i)) :
    Stable (andThen f k) :=
  fun n m hle h => andThen_of_le hf hle (fun given i => hk given i n m hle) h

end AndThen

/-- With enough steps, this is what a computation gives. -/
def Gives (f : Nat → Except Stop α × Interpreter) (given : Except Failure α) (i : Interpreter) :
    Prop :=
  ∃ n, f n = (given.mapError .failure, i)

theorem Gives.unique {f : Nat → Except Stop α × Interpreter} {given other : Except Failure α}
    {i j : Interpreter} (hf : Stable f) (h : Gives f given i) (h' : Gives f other j) :
    given = other ∧ i = j := by
  obtain ⟨n, hn⟩ := h
  obtain ⟨m, hm⟩ := h'
  have hsame := (hf.eventually hn (Nat.le_max_left n m)).symm.trans
    (hf.eventually hm (Nat.le_max_right n m))
  injection hsame with hgiven hi
  refine ⟨?_, hi⟩
  cases given <;> cases other <;> cases hgiven
  · rfl
  · rfl

theorem gives_andThen {f : Nat → Except Stop α × Interpreter}
    {k : Except Failure α → Interpreter → Nat → Except Stop β × Interpreter} (hf : Stable f)
    (hk : ∀ given i, Stable (k given i)) {result : Except Failure β} {j : Interpreter} :
    Gives (andThen f k) result j ↔ ∃ given i, Gives f given i ∧ Gives (k given i) result j := by
  constructor
  · rintro ⟨n, hn⟩
    obtain ⟨given, i, hgiven, heq⟩ := exists_given_of_andThen (ne_exhausted_of_given hn)
    exact ⟨given, i, ⟨n, hgiven⟩, n, heq.symm.trans hn⟩
  · rintro ⟨given, i, ⟨n, hn⟩, m, hm⟩
    refine ⟨max n m, ?_⟩
    rw [andThen_eq (hf.eventually hn (Nat.le_max_left n m))]
    exact (hk given i).eventually hm (Nat.le_max_right n m)

theorem Stable.const (result : Except Stop α × Interpreter) : Stable fun _ => result :=
  fun _ _ _ _ => rfl

theorem gives_map {f : Nat → Except Stop α × Interpreter} {value : α → β}
    {change : Interpreter → Interpreter} {result : Except Failure β} {j : Interpreter} :
    Gives (fun n => ((f n).1.map value, change (f n).2)) result j ↔
      ∃ given i, Gives f given i ∧ result = given.map value ∧ j = change i := by
  constructor
  · rintro ⟨n, hn⟩
    dsimp only at hn
    generalize hgiven : f n = reached at hn
    obtain ⟨(failure | _) | v, i⟩ := reached
    · refine ⟨.error failure, i, ⟨n, hgiven⟩, ?_⟩
      cases result with
      | error other =>
          cases hn
          exact ⟨rfl, rfl⟩
      | ok w => cases hn
    · cases result <;> cases hn
    · refine ⟨.ok v, i, ⟨n, hgiven⟩, ?_⟩
      cases result with
      | error other => cases hn
      | ok w =>
          cases hn
          exact ⟨rfl, rfl⟩
  · rintro ⟨given, i, ⟨n, hn⟩, rfl, rfl⟩
    refine ⟨n, ?_⟩
    simp only [hn]
    cases given <;> rfl

/-! ## Evaluating -/

variable [Saving]

theorem serve_suspended (steps rounds : Nat) (suspension : Suspension) (ev : Evaluation)
    (i : Interpreter) {answer : Option String} {served : Interpreter}
    (hserved : i.service suspension = (answer, served)) :
    serve steps (rounds + 1) (.suspended suspension) ev i =
      serve steps rounds (ev.resume steps answer served.shared).1.1
        (ev.resume steps answer served.shared).1.2
        ⟨(ev.resume steps answer served.shared).2, served.lines⟩ := by
  rw [serve, hserved]
  rfl

theorem serve_exhausted (steps rounds : Nat) (ev : Evaluation) (i : Interpreter) :
    (serve steps rounds .exhausted ev i).1 = .error .exhausted := by
  cases rounds <;> rfl

theorem ne_exhausted_of_serve {n rounds : Nat} {outcome : Outcome} {ev : Evaluation}
    {i : Interpreter} (h : (serve n rounds outcome ev i).1 ≠ .error .exhausted) :
    outcome ≠ .exhausted := by
  rintro rfl
  exact h (serve_exhausted n rounds ev i)

theorem serve_of_le {n m rounds more : Nat} (hle : n ≤ m) (hrounds : rounds ≤ more)
    {outcome : Outcome} {ev : Evaluation} {i : Interpreter}
    (h : (serve n rounds outcome ev i).1 ≠ .error .exhausted) :
    serve m more outcome ev i = serve n rounds outcome ev i := by
  induction rounds generalizing more outcome ev i with
  | zero =>
      cases outcome with
      | suspended suspension => exact absurd rfl h
      | _ => cases more <;> rfl
  | succ rounds ih =>
      obtain ⟨more, rfl⟩ : ∃ k, more = k + 1 := ⟨more - 1, by omega⟩
      cases outcome with
      | suspended suspension =>
          generalize hserved : i.service suspension = served
          obtain ⟨answer, served⟩ := served
          rw [serve_suspended _ _ _ _ _ hserved] at h ⊢
          rw [serve_suspended _ _ _ _ _ hserved]
          have hsame : ev.resume m answer served.shared = ev.resume n answer served.shared :=
            ev.resume_stable answer served.shared n m hle (ne_exhausted_of_serve h)
          rw [hsame]
          exact ih (by omega) h
      | _ => rfl

theorem serve_eventually {n m rounds more : Nat} {outcome : Outcome} {ev : Evaluation}
    {i j : Interpreter} {given : Except Failure Value}
    (h : serve n rounds outcome ev i = (given.mapError .failure, j)) (hle : n ≤ m)
    (hrounds : rounds ≤ more) : serve m more outcome ev i = (given.mapError .failure, j) :=
  (serve_of_le hle hrounds (ne_exhausted_of_given h)).trans h

theorem gives_serve {f : Nat → Stretch} (hf : Stretch.Stable f) {rounds : Nat}
    {lines : List String} {given : Except Failure Value} {j : Interpreter} :
    Gives (fun n => serve n rounds (f n).1.1 (f n).1.2 ⟨(f n).2, lines⟩) given j ↔
      ∃ stretch, Evaluation.ComesTo f stretch ∧
        Gives (fun n => serve n rounds stretch.1.1 stretch.1.2 ⟨stretch.2, lines⟩) given j := by
  constructor
  · rintro ⟨n, hn⟩
    exact ⟨f n, ⟨ne_exhausted_of_serve (ne_exhausted_of_given hn), n, rfl⟩, n, hn⟩
  · rintro ⟨stretch, ⟨hended, n, rfl⟩, m, hm⟩
    refine ⟨max n m, ?_⟩
    simp only [hf n _ (Nat.le_max_left n m) hended]
    exact serve_eventually hm (Nat.le_max_right n m) (Nat.le_refl rounds)

/-- Evaluating, seen as a start and the service that follows it. -/
theorem evaluateValue_eq (n : Nat) (e : Value) (i : Interpreter) :
    i.evaluateValue n e =
      serve n n ((Evaluation.ofExpression e Store.global).start n i.shared).1.1
        ((Evaluation.ofExpression e Store.global).start n i.shared).1.2
        ⟨((Evaluation.ofExpression e Store.global).start n i.shared).2, i.lines⟩ := rfl

theorem evaluateValue_stable (e : Value) (i : Interpreter) :
    Stable fun n => i.evaluateValue n e := by
  intro n m hle h
  simp only [evaluateValue_eq] at h ⊢
  generalize Evaluation.ofExpression e Store.global = ev at h ⊢
  have hsame : ev.start m i.shared = ev.start n i.shared :=
    ev.start_stable i.shared n m hle (ne_exhausted_of_serve h)
  rw [hsame]
  exact serve_of_le hle hle h

theorem gives_evaluateValue {e : Value} {i : Interpreter} {given : Except Failure Value}
    {j : Interpreter} :
    Gives (fun n => i.evaluateValue n e) given j ↔ ∃ rounds, Gives (fun n =>
      serve n rounds ((Evaluation.ofExpression e Store.global).start n i.shared).1.1
        ((Evaluation.ofExpression e Store.global).start n i.shared).1.2
        ⟨((Evaluation.ofExpression e Store.global).start n i.shared).2, i.lines⟩) given j := by
  simp only [evaluateValue_eq]
  constructor
  · rintro ⟨n, hn⟩
    exact ⟨n, n, hn⟩
  · rintro ⟨rounds, n, hn⟩
    refine ⟨max n rounds, ?_⟩
    have hstarted := Evaluation.start_stable _ i.shared n _ (Nat.le_max_left n rounds)
      (ne_exhausted_of_serve (ne_exhausted_of_given hn))
    simp only [hstarted]
    exact serve_eventually hn (Nat.le_max_left n rounds) (Nat.le_max_right n rounds)

theorem evaluate_stable (d : Datum) (i : Interpreter) : Stable fun n => i.evaluate n d :=
  evaluateValue_stable _ _

/-- The rest of some expressions, after one of them gave this. -/
def evaluateRest (rest : List Datum) (given : Except Failure Value) (i : Interpreter) (n : Nat) :
    Except Stop Value × Interpreter :=
  match given with
  | .error failure => (.error (.failure failure), i)
  | .ok v => i.evaluateAll n v rest

theorem evaluateAll_cons (n : Nat) (last : Value) (d : Datum) (rest : List Datum)
    (i : Interpreter) :
    i.evaluateAll n last (d :: rest) = andThen (fun n => i.evaluate n d) (evaluateRest rest) n := by
  rw [evaluateAll, andThen]
  generalize i.evaluate n d = result
  obtain ⟨(failure | _) | v, i⟩ := result <;> rfl

theorem evaluateAll_stable (last : Value) (expressions : List Datum) (i : Interpreter) :
    Stable fun n => i.evaluateAll n last expressions := by
  induction expressions generalizing last i with
  | nil => exact .const _
  | cons d rest ih =>
      simp only [evaluateAll_cons]
      refine (evaluate_stable d i).andThen fun given i => ?_
      cases given with
      | error failure => exact .const _
      | ok v => exact ih v i

theorem evaluateRest_stable (rest : List Datum) (given : Except Failure Value) (i : Interpreter) :
    Stable (evaluateRest rest given i) := by
  cases given with
  | error failure => exact .const _
  | ok v => exact evaluateAll_stable v rest i

/-- The end of a program text, once its expressions gave this. -/
def endText (ending : Option Fault) (given : Except Failure Value) (i : Interpreter) (_ : Nat) :
    Except Stop Value × Interpreter :=
  match given, ending with
  | .error failure, _ => (.error (.failure failure), i)
  | .ok v, none => (.ok v, i)
  | .ok _, some f => (.error (fault f), i)

theorem eval_eq (n : Nat) (text : String) (i : Interpreter) :
    i.eval n text = andThen (fun n => i.evaluateAll n .void (Datum.allOfText text).1)
      (endText (Datum.allOfText text).2) n := by
  rw [eval, andThen]
  generalize Datum.allOfText text = read
  obtain ⟨expressions, ending⟩ := read
  simp only
  generalize i.evaluateAll n .void expressions = result
  obtain ⟨(failure | _) | v, i⟩ := result
  · rfl
  · rfl
  · cases ending <;> rfl

theorem eval_stable (text : String) (i : Interpreter) : Stable fun n => i.eval n text := by
  simp only [eval_eq]
  exact (evaluateAll_stable _ _ i).andThen fun given i => .const _

theorem load_stable (name : String) (source : Except Fault String) (i : Interpreter) :
    Stable fun n => i.load n name source := by
  cases source with
  | error f => exact .const _
  | ok text => exact eval_stable text _

theorem evaluateAlone_stable (d : Datum) (i : Interpreter) :
    Stable fun n => i.evaluateAlone n d := by
  intro n m hle h
  simp only [evaluateAlone_eq] at h
  have heq := evaluate_stable d { i with lines := [] } n m hle h
  simp only at heq
  simp only [evaluateAlone_eq, heq]

/-! ## The interactive loop -/

/-- The rest of the loop, once an expression gave this. -/
def replRest (freshPrompt openPrompt : String) (rounds : Nat) (given : Except Failure Value)
    (i : Interpreter) (n : Nat) : Except Stop Unit × Interpreter :=
  match given with
  | .error failure => replFrom n freshPrompt openPrompt rounds (i.report failure)
  | .ok v => replFrom n freshPrompt openPrompt rounds (i.echo v)

/-- The rest of the loop, once reading gave this. -/
def replRound (freshPrompt openPrompt : String) (rounds : Nat) (given : Except Failure Value)
    (i : Interpreter) (n : Nat) : Except Stop Unit × Interpreter :=
  match given with
  | .error failure => replFrom n freshPrompt openPrompt rounds (i.report failure)
  | .ok .eof => (.ok (), i.write "Goodbye\n")
  | .ok e => andThen (fun n => i.evaluateValue n e) (replRest freshPrompt openPrompt rounds) n

theorem replFrom_succ (n : Nat) (freshPrompt openPrompt : String) (rounds : Nat)
    (i : Interpreter) :
    replFrom n freshPrompt openPrompt (rounds + 1) i =
      andThen (fun _ => i.readExpression freshPrompt openPrompt)
        (replRound freshPrompt openPrompt rounds) n := by
  rw [replFrom, andThen]
  generalize i.readExpression freshPrompt openPrompt = result
  obtain ⟨(failure | _) | e, i⟩ := result
  · rfl
  · rfl
  · cases e with
    | eof => rfl
    | _ =>
        simp only [replRound, andThen]
        generalize i.evaluateValue n _ = result
        obtain ⟨(failure | _) | v, i⟩ := result <;> rfl

theorem replFrom_of_le {n m rounds more : Nat} (hle : n ≤ m) (hrounds : rounds ≤ more)
    {freshPrompt openPrompt : String} {i : Interpreter}
    (h : (replFrom n freshPrompt openPrompt rounds i).1 ≠ .error .exhausted) :
    replFrom m freshPrompt openPrompt more i = replFrom n freshPrompt openPrompt rounds i := by
  induction rounds generalizing more i with
  | zero => exact absurd rfl h
  | succ rounds ih =>
      obtain ⟨more, rfl⟩ : ∃ k, more = k + 1 := ⟨more - 1, by omega⟩
      rw [replFrom_succ] at h ⊢
      rw [replFrom_succ]
      refine andThen_of_le (.const _) hle (fun given i h => ?_) h
      have hrest : ∀ given i, (replRest freshPrompt openPrompt rounds given i n).1 ≠
          .error .exhausted → replRest freshPrompt openPrompt more given i m =
            replRest freshPrompt openPrompt rounds given i n := by
        intro given i h
        cases given with
        | error failure => exact ih (by omega) h
        | ok v => exact ih (by omega) h
      cases given with
      | error failure => exact ih (by omega) h
      | ok e =>
          have hevaluated := andThen_of_le (n := n) (evaluateValue_stable e i) hle hrest
          cases e with
          | eof => rfl
          | _ => exact hevaluated h

theorem gives_repl {freshPrompt openPrompt : String} {i : Interpreter}
    {given : Except Failure Unit} {j : Interpreter} :
    Gives (fun n => i.repl n freshPrompt openPrompt) given j ↔
      ∃ rounds, Gives (fun n => replFrom n freshPrompt openPrompt rounds i) given j := by
  constructor
  · rintro ⟨n, hn⟩
    exact ⟨n, n, hn⟩
  · rintro ⟨rounds, n, hn⟩
    refine ⟨max n rounds, ?_⟩
    simp only [repl] at hn ⊢
    have hmore := replFrom_of_le (Nat.le_max_left n rounds) (Nat.le_max_right n rounds)
      (ne_exhausted_of_given hn)
    exact hmore.trans hn

theorem replRest_stable (freshPrompt openPrompt : String) (rounds : Nat)
    (given : Except Failure Value) (i : Interpreter) :
    Stable (replRest freshPrompt openPrompt rounds given i) := by
  intro n m hle h
  cases given with
  | error failure => exact replFrom_of_le hle (Nat.le_refl rounds) h
  | ok v => exact replFrom_of_le hle (Nat.le_refl rounds) h

theorem replRound_stable (freshPrompt openPrompt : String) (rounds : Nat)
    (given : Except Failure Value) (i : Interpreter) :
    Stable (replRound freshPrompt openPrompt rounds given i) := by
  cases given with
  | error failure => exact fun n m hle h => replFrom_of_le hle (Nat.le_refl rounds) h
  | ok e =>
      have hevaluated := (evaluateValue_stable e i).andThen
        (replRest_stable freshPrompt openPrompt rounds)
      cases e with
      | eof => exact .const _
      | _ => exact hevaluated

theorem repl_stable (freshPrompt openPrompt : String) (i : Interpreter) :
    Stable fun n => i.repl n freshPrompt openPrompt :=
  fun _ _ hle h => replFrom_of_le hle hle h

end Interpreter

end SchemeMachine
