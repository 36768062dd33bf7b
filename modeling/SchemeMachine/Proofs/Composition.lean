import SchemeMachine.Proofs.EnoughSteps
import SchemeMachine.Proofs.Reading.Data
import SchemeMachine.Proofs.Reading.Tokens

/-!
# One text after another

Evaluating two texts, the second on the lines after the first, is evaluating the first and
then the second.  Three things make this so.

* **Tokens.**  No token goes past a newline, so the tokens of the whole are those of the two
  texts (`Token.ofText_lines`).
* **Data.**  What the reader has found in the first tokens stays found.  If they end between
  two data, the data of the second text follow (`Datum.readAll_append`); if they have a syntax
  error in them, the reader never comes to the second text (`Datum.readAll_append_of_fault`).
* **Evaluations.**  Each expression is evaluated in the state that those before it have left,
  and the first failure ends the text (`Interpreter.evaluateAll_append`).

Only a first text that stops short inside a datum is another matter: there the second text
goes on with that datum.
-/

namespace SchemeMachine

namespace Datum

/-! ## The data of two texts -/

theorem readAllFrom_append {progress : Progress} {tokens : List Token} (more : List Token)
    (h : (readAllFrom progress tokens).2 = none) :
    readAllFrom progress (tokens ++ more) =
      ((readAllFrom progress tokens).1 ++ (readAll more).1, (readAll more).2) := by
  induction tokens generalizing progress with
  | nil =>
      unfold readAllFrom at h
      split at h
      · rfl
      · cases h
      · next hcons => cases hcons
  | cons token tokens ih =>
      rw [readAllFrom] at h
      rw [List.cons_append, readAllFrom, readAllFrom]
      cases htake : progress.take token with
      | error fault =>
          rw [htake] at h
          cases h
      | ok result =>
          rw [htake] at h
          cases result with
          | inl d =>
              simp only [ih h]
              rfl
          | inr further => exact ih h

/-- Where a reading has ended between two data, it goes on with the tokens that follow. -/
theorem readAll_append {tokens : List Token} (more : List Token)
    (h : (readAll tokens).2 = none) :
    readAll (tokens ++ more) = ((readAll tokens).1 ++ (readAll more).1, (readAll more).2) :=
  readAllFrom_append more h

theorem readAllFrom_append_of_fault {progress : Progress} {tokens : List Token} {fault : Fault}
    (more : List Token) (h : (readAllFrom progress tokens).2 = some fault)
    (hfault : fault ≠ .endOfInput) :
    readAllFrom progress (tokens ++ more) = readAllFrom progress tokens := by
  induction tokens generalizing progress with
  | nil =>
      unfold readAllFrom at h
      split at h
      · cases h
      · cases h
        exact absurd rfl hfault
      · next hcons => cases hcons
  | cons token tokens ih =>
      rw [readAllFrom] at h
      rw [List.cons_append, readAllFrom, readAllFrom]
      cases htake : progress.take token with
      | error found => rfl
      | ok result =>
          rw [htake] at h
          cases result with
          | inl d => simp only [ih h]
          | inr further => exact ih h

/-- A syntax error ends the reading whatever follows it. -/
theorem readAll_append_of_fault {tokens : List Token} {fault : Fault} (more : List Token)
    (h : (readAll tokens).2 = some fault) (hfault : fault ≠ .endOfInput) :
    readAll (tokens ++ more) = readAll tokens :=
  readAllFrom_append_of_fault more h hfault

variable {first second : String}

theorem allOfText_of_isCut (h : Token.isCut first = true) :
    allOfText first = readAll (Token.ofCut first) := by
  rw [allOfText, Token.ofText_of_isCut h]

theorem allOfText_lines (hfirst : Token.isCut first = true) (hsecond : Token.isCut second = true) :
    allOfText (first ++ "\n" ++ second) = readAll (Token.ofCut first ++ Token.ofCut second) := by
  rw [allOfText, Token.ofText_lines (Token.ofText_of_isCut hfirst) (Token.ofText_of_isCut hsecond)]

end Datum

namespace Interpreter

variable [Saving] {first second : String}

/-! ## The expressions of two texts -/

theorem evaluateAll_append (n : Nat) (last : Value) (expressions more : List Datum)
    (i : Interpreter) :
    i.evaluateAll n last (expressions ++ more) =
      andThen (fun n => i.evaluateAll n last expressions) (evaluateRest more) n := by
  induction expressions generalizing last i with
  | nil => rfl
  | cons d rest ih =>
      rw [List.cons_append, evaluateAll_cons, andThen, andThen, evaluateAll_cons, andThen]
      generalize i.evaluate n d = evaluated
      obtain ⟨(failure | _) | v, j⟩ := evaluated
      · rfl
      · rfl
      · exact ih v j

/-- What was the last value before does not matter once there is an expression. -/
theorem evaluateAll_last (n : Nat) (last other : Value) {expressions : List Datum}
    (h : expressions ≠ []) (i : Interpreter) :
    i.evaluateAll n last expressions = i.evaluateAll n other expressions := by
  cases expressions with
  | nil => exact absurd rfl h
  | cons d rest => rw [evaluateAll_cons, evaluateAll_cons]

/-- Go on with a second text once the first one gave this.  A text without expressions leaves
the value as it is. -/
def evalNext (text : String) (given : Except Failure Value) (i : Interpreter) (n : Nat) :
    Except Stop Value × Interpreter :=
  match given with
  | .error failure => (.error (.failure failure), i)
  | .ok v =>
    ((i.eval n text).1.map fun w => if (Datum.allOfText text).1.isEmpty then v else w,
      (i.eval n text).2)

theorem evalNext_stable (text : String) (given : Except Failure Value) (i : Interpreter) :
    Stable (evalNext text given i) := by
  cases given with
  | error failure => exact .const _
  | ok v =>
      intro n m hle h
      have hsame : i.eval m text = i.eval n text := by
        refine eval_stable text i n m hle fun hexhausted => h ?_
        simp only [evalNext, hexhausted]
        rfl
      simp only [evalNext, hsame]

theorem gives_evalNext_ok {text : String} {v : Value} {i : Interpreter}
    {given : Except Failure Value} {k : Interpreter} :
    Gives (evalNext text (.ok v) i) given k ↔ ∃ last, Gives (fun n => i.eval n text) last k ∧
      given = last.map fun w => if (Datum.allOfText text).1.isEmpty then v else w := by
  have hmap : evalNext text (.ok v) i = fun n => ((i.eval n text).1.map fun w =>
      if (Datum.allOfText text).1.isEmpty then v else w, id (i.eval n text).2) := rfl
  rw [hmap, gives_map]
  constructor
  · rintro ⟨last, k', hlast, hvalue, rfl⟩
    exact ⟨last, hlast, hvalue⟩
  · rintro ⟨last, hlast, hvalue⟩
    exact ⟨last, k, hlast, hvalue, rfl⟩

/-- The second text after a value, as the rest of the expressions of both. -/
theorem evalNext_ok (text : String) (v : Value) (i : Interpreter) (n : Nat) :
    evalNext text (.ok v) i n =
      andThen (evaluateRest (Datum.allOfText text).1 (.ok v) i)
        (endText (Datum.allOfText text).2) n := by
  simp only [evalNext, eval_eq]
  generalize Datum.allOfText text = read
  obtain ⟨expressions, ending⟩ := read
  cases expressions with
  | nil => cases ending <;> rfl
  | cons d rest =>
      have hlast : evaluateRest (d :: rest) (.ok v) i = fun n =>
          i.evaluateAll n .void (d :: rest) := by
        funext n
        exact evaluateAll_last n v .void (List.cons_ne_nil d rest) i
      rw [hlast]
      generalize andThen _ _ n = result
      obtain ⟨stop | w, j⟩ := result <;> rfl

/-- Evaluating two texts on lines of their own, for any number of steps. -/
theorem eval_lines (n : Nat) (hfirst : Token.isCut first = true)
    (hsecond : Token.isCut second = true)
    (hwhole : (Datum.allOfText first).2 ≠ some .endOfInput) (i : Interpreter) :
    i.eval n (first ++ "\n" ++ second) =
      andThen (fun n => i.eval n first) (evalNext second) n := by
  rw [Datum.allOfText_of_isCut hfirst] at hwhole
  rw [eval_eq, Datum.allOfText_lines hfirst hsecond]
  simp only [andThen, eval_eq n first, Datum.allOfText_of_isCut hfirst]
  cases hending : (Datum.readAll (Token.ofCut first)).2 with
  | some fault =>
      have hfault : fault ≠ .endOfInput := fun heq => hwhole (heq ▸ hending)
      rw [Datum.readAll_append_of_fault _ hending hfault, hending]
      generalize i.evaluateAll n .void _ = evaluated
      obtain ⟨(failure | _) | v, j⟩ := evaluated <;> rfl
  | none =>
      rw [Datum.readAll_append _ hending]
      simp only [evaluateAll_append, andThen]
      generalize i.evaluateAll n .void _ = evaluated
      obtain ⟨(failure | _) | v, j⟩ := evaluated
      · rfl
      · rfl
      · have hnext := evalNext_ok second v j n
        rw [Datum.allOfText_of_isCut hsecond] at hnext
        exact hnext.symm

end Interpreter

open Interpreter (Gives)

/-- **Evaluating source text is compositional.**  Take two texts that can be cut into tokens,
the first of which does not end inside a datum, and any state of an interpreter.

* If the first text fails, the two texts on lines of their own fail in the same way and leave
  the same state: nothing of the second text is evaluated.
* If the first text gives a value, the two texts give what the second one gives in the state
  that the first one has left, and leave the same state.  Their value is that of the first text
  if the second one holds no expression.
* If the first text never comes to an end, neither do the two. -/
theorem Interpreter.eval_composes_over_lines {first second : String}
    (hfirst : Token.isCut first = true) (hsecond : Token.isCut second = true)
    (hwhole : (Datum.allOfText first).2 ≠ some .endOfInput) (i : Interpreter) :
    (∀ failure j, Gives (fun n => i.eval n first) (.error failure) j →
      Gives (fun n => i.eval n (first ++ "\n" ++ second)) (.error failure) j) ∧
    (∀ v j, Gives (fun n => i.eval n first) (.ok v) j → ∀ given k,
      Gives (fun n => i.eval n (first ++ "\n" ++ second)) given k ↔
        ∃ last, Gives (fun n => j.eval n second) last k ∧
          given = last.map fun w => if (Datum.allOfText second).1.isEmpty then v else w) ∧
    (∀ given k, Gives (fun n => i.eval n (first ++ "\n" ++ second)) given k →
      ∃ before j, Gives (fun n => i.eval n first) before j) := by
  have hboth : ∀ given k, Gives (fun n => i.eval n (first ++ "\n" ++ second)) given k ↔
      ∃ before j, Gives (fun n => i.eval n first) before j ∧
        Gives (evalNext second before j) given k := by
    intro given k
    simp only [eval_lines _ hfirst hsecond hwhole]
    exact gives_andThen (eval_stable first i) (evalNext_stable second)
  refine ⟨?_, ?_, ?_⟩
  · intro failure j hfailed
    exact (hboth _ _).mpr ⟨_, _, hfailed, 0, rfl⟩
  · intro v j hgiven given k
    rw [hboth]
    constructor
    · rintro ⟨before, j', hbefore, hnext⟩
      obtain ⟨rfl, rfl⟩ := hgiven.unique (eval_stable first i) hbefore
      exact gives_evalNext_ok.mp hnext
    · intro hnext
      exact ⟨_, _, hgiven, gives_evalNext_ok.mpr hnext⟩
  · intro given k hgiven
    obtain ⟨before, j, hbefore, _⟩ := (hboth _ _).mp hgiven
    exact ⟨before, j, hbefore⟩

/-- A first text that writes and gives a value, and a second one in which a failure, with its
trace, comes before a stray parenthesis. -/
theorem Interpreter.eval_composes_over_lines_of_failure :
    ∃ j k, Gives (fun n => (start []).eval n "(display 1) 'a ; (") (.ok (.symbol "a")) j ∧
      Gives (fun n => j.eval n "(if (car 2) 3 4) )")
        (.error ⟨.pairExpected "car" "2", some "#<THEN (3 4)>"⟩) k ∧
      Gives (fun n => (start []).eval n ("(display 1) 'a ; (" ++ "\n" ++ "(if (car 2) 3 4) )"))
        (.error ⟨.pairExpected "car" "2", some "#<THEN (3 4)>"⟩) k ∧
      k.shared.output = "1" := by
  have hfirst : Gives (fun n => (start []).eval n "(display 1) 'a ; (") (.ok (.symbol "a"))
      ((start []).eval 20 "(display 1) 'a ; (").2 := ⟨20, rfl⟩
  have hsecond : Gives (fun n =>
      ((start []).eval 20 "(display 1) 'a ; (").2.eval n "(if (car 2) 3 4) )")
      (.error ⟨.pairExpected "car" "2", some "#<THEN (3 4)>"⟩)
      (((start []).eval 20 "(display 1) 'a ; (").2.eval 20 "(if (car 2) 3 4) )").2 := ⟨20, rfl⟩
  have hcut : Token.isCut "(display 1) 'a ; (" = true ∧ Token.isCut "(if (car 2) 3 4) )" = true :=
    ⟨rfl, rfl⟩
  obtain ⟨_, hvalue, _⟩ :=
    eval_composes_over_lines hcut.1 hcut.2 (by decide +kernel) (start [])
  exact ⟨_, _, hfirst, hsecond, (hvalue _ _ hfirst _ _).mpr ⟨_, hsecond, rfl⟩, rfl⟩

end SchemeMachine
