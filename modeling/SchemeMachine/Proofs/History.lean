import SchemeMachine.Proofs.EnoughSteps

/-!
# Histories of an interpreter

A session is an interpreter together with the evaluations that have been made in it.
Its user evaluates texts and files, reads, enters the interactive loop, or makes
evaluations and starts and resumes them one by one, in any order and with any
answers.  A history is a list of such commands.

`Session.play` gives the outcomes of a history and the session it leads to.  It gives
nothing if one of the commands does not end within the steps allowed.  A history leads
somewhere, `Session.Leads`, if it does so with some number of steps; one that leads
nowhere has a command that never ends.
-/

namespace SchemeMachine

/-- What the user of an interpreter may do. -/
inductive Command where
  /-- Evaluate a program text. -/
  | eval (text : String)
  /-- Evaluate a source file, given what reading it gave. -/
  | load (name : String) (source : Except Fault String)
  /-- Evaluate an expression. -/
  | evaluate (expression : Datum)
  /-- Evaluate an expression without a host. -/
  | evaluateAlone (expression : Datum)
  /-- Enter the interactive loop. -/
  | repl (freshPrompt openPrompt : String)
  /-- Read an expression from the input. -/
  | read (freshPrompt openPrompt : String)
  /-- Add a line to the input that is still to come. -/
  | line (text : String)
  /-- Add a text to the input buffer. -/
  | feed (text : String)
  /-- Make an evaluation of an expression in an environment, to be started later. -/
  | submit (expression : Datum) (env : Addr)
  /-- Start the evaluation with this number. -/
  | start (number : Nat)
  /-- Resume the evaluation with this number. -/
  | resume (number : Nat) (answer : Option String)

/-- An interpreter and the evaluations made in it. -/
structure Session where
  interpreter : Interpreter
  evaluations : List Evaluation

/-- What evaluating comes to, as an outcome. -/
def Outcome.ofResult : Except Stop Value → Outcome
  | .ok v => .value v
  | .error (.failure failure) => .failed failure
  | .error .exhausted => .exhausted

namespace Session

/-- A session at the start, with these lines of input to come. -/
def start (lines : List String) : Session :=
  ⟨.start lines, []⟩

/-- Act on the interpreter. -/
def compute (act : Interpreter → Except Stop Value × Interpreter) (s : Session) :
    Outcome × Session :=
  let (result, i) := act s.interpreter
  (.ofResult result, { s with interpreter := i })

/-- Act on the evaluation with this number, if there is one. -/
def advance (number : Nat) (act : Evaluation → Shared → (Outcome × Evaluation) × Shared)
    (s : Session) : Outcome × Session :=
  match s.evaluations[number]? with
  | none => (.value .void, s)
  | some ev =>
    let ((outcome, ev), i) := s.interpreter.onShared (act ev)
    (outcome, ⟨i, s.evaluations.set number ev⟩)

/-- Add a text to the input buffer. -/
def feed (text : String) (i : Interpreter) : Except Stop Value × Interpreter :=
  match i.shared.input.feed text with
  | .error f => (.error (Interpreter.fault f), i)
  | .ok input => (.ok .void, { i with shared := { i.shared with input := input } })

/-- The interactive loop, which gives no value. -/
def repl [Saving] (steps : Nat) (freshPrompt openPrompt : String) (i : Interpreter) :
    Except Stop Value × Interpreter :=
  let (result, i) := i.repl steps freshPrompt openPrompt
  (result.map fun _ => .void, i)

/-- Make an evaluation of an expression in an environment. -/
def submit (expression : Datum) (env : Addr) (s : Session) : Session :=
  let (e, i) := s.interpreter.place expression
  ⟨i, s.evaluations ++ [.ofExpression e env]⟩

/-- Carry out a command. -/
def perform [Saving] (steps : Nat) (command : Command) (s : Session) : Outcome × Session :=
  match command with
  | .eval text => s.compute (·.eval steps text)
  | .load name source => s.compute (·.load steps name source)
  | .evaluate expression => s.compute (·.evaluate steps expression)
  | .evaluateAlone expression => s.compute (·.evaluateAlone steps expression)
  | .repl freshPrompt openPrompt => s.compute (repl steps freshPrompt openPrompt)
  | .read freshPrompt openPrompt => s.compute (·.readExpression freshPrompt openPrompt)
  | .line text => s.compute fun i => (.ok .void, { i with lines := i.lines ++ [text] })
  | .feed text => s.compute (feed text)
  | .submit expression env => (.value .void, s.submit expression env)
  | .start number => s.advance number (·.start steps)
  | .resume number answer => s.advance number (·.resume steps answer)

/-- The outcomes of a history and the session it leads to. -/
def play [Saving] (steps : Nat) : List Command → Session → Option (List Outcome × Session)
  | [], s => some ([], s)
  | command :: history, s =>
    match s.perform steps command with
    | (.exhausted, _) => none
    | (outcome, s) => (play steps history s).map fun (outcomes, s) => (outcome :: outcomes, s)

/-! ## More steps change nothing -/

theorem compute_congr {f g : Interpreter → Except Stop Value × Interpreter} {s : Session}
    (hg : (f s.interpreter).1 ≠ .error .exhausted → g s.interpreter = f s.interpreter)
    (h : (s.compute f).1 ≠ .exhausted) : s.compute g = s.compute f := by
  have heq : g s.interpreter = f s.interpreter := by
    refine hg fun hexhausted => h ?_
    exact congrArg Outcome.ofResult hexhausted
  rw [compute, compute, heq]

theorem advance_congr {act other : Evaluation → Shared → (Outcome × Evaluation) × Shared}
    {number : Nat} {s : Session}
    (hother : ∀ ev sh, (act ev sh).1.1 ≠ .exhausted → other ev sh = act ev sh)
    (h : (s.advance number act).1 ≠ .exhausted) :
    s.advance number other = s.advance number act := by
  obtain ⟨⟨sh, lines⟩, evaluations⟩ := s
  simp only [advance] at h ⊢
  cases hev : evaluations[number]? with
  | none => rfl
  | some ev =>
      simp only [hev, Interpreter.onShared] at h ⊢
      rw [hother ev sh h]

theorem repl_stable [Saving] (freshPrompt openPrompt : String) (i : Interpreter) :
    Interpreter.Stable fun n => repl n freshPrompt openPrompt i := by
  intro n m hle h
  have heq : i.repl m freshPrompt openPrompt = i.repl n freshPrompt openPrompt := by
    refine Interpreter.repl_stable freshPrompt openPrompt i n m hle fun hexhausted => h ?_
    exact congrArg (Except.map _) hexhausted
  simp only [repl, heq]

theorem perform_of_le [Saving] {n m : Nat} (hle : n ≤ m) {command : Command} {s : Session}
    (h : (s.perform n command).1 ≠ .exhausted) : s.perform m command = s.perform n command := by
  cases command with
  | eval text => exact compute_congr (Interpreter.eval_stable text _ n m hle) h
  | load name source => exact compute_congr (Interpreter.load_stable name source _ n m hle) h
  | evaluate expression => exact compute_congr (Interpreter.evaluate_stable expression _ n m hle) h
  | evaluateAlone expression =>
      exact compute_congr (Interpreter.evaluateAlone_stable expression _ n m hle) h
  | repl freshPrompt openPrompt =>
      exact compute_congr (repl_stable freshPrompt openPrompt _ n m hle) h
  | start number => exact advance_congr (fun ev sh => ev.start_stable sh n m hle) h
  | resume number answer => exact advance_congr (fun ev sh => ev.resume_stable answer sh n m hle) h
  | _ => rfl

theorem play_cons [Saving] {n : Nat} {command : Command} {history : List Command} {s : Session}
    {played : List Outcome × Session} :
    s.play n (command :: history) = some played ↔
      (s.perform n command).1 ≠ .exhausted ∧ ∃ rest, (s.perform n command).2.play n history =
        some rest ∧ played = ((s.perform n command).1 :: rest.1, rest.2) := by
  rw [play]
  generalize s.perform n command = performed
  obtain ⟨outcome, s⟩ := performed
  cases outcome with
  | exhausted => exact ⟨nofun, fun h => absurd rfl h.1⟩
  | _ =>
      simp only [ne_eq, reduceCtorEq, not_false_eq_true, true_and, Option.map_eq_some_iff]
      constructor
      · rintro ⟨rest, hrest, rfl⟩
        exact ⟨rest, hrest, rfl⟩
      · rintro ⟨rest, hrest, rfl⟩
        exact ⟨rest, hrest, rfl⟩

theorem play_of_le [Saving] {n m : Nat} (hle : n ≤ m) {history : List Command} {s : Session}
    {played : List Outcome × Session} (h : s.play n history = some played) :
    s.play m history = some played := by
  induction history generalizing s played with
  | nil => exact h
  | cons command history ih =>
      obtain ⟨hended, rest, hrest, hplayed⟩ := play_cons.mp h
      rw [play_cons, perform_of_le hle hended]
      exact ⟨hended, rest, ih hrest, hplayed⟩

/-! ## Where a history leads -/

/-- With enough steps a command ends in this outcome, and in this session. -/
def Ends (f : Nat → Outcome × Session) (outcome : Outcome) (s : Session) : Prop :=
  outcome ≠ .exhausted ∧ ∃ n, f n = (outcome, s)

/-- With enough steps a history has these outcomes, and leads to this session. -/
def Leads [Saving] (history : List Command) (s : Session) (outcomes : List Outcome)
    (last : Session) : Prop :=
  ∃ n, s.play n history = some (outcomes, last)

variable [Saving] {s last : Session}

theorem ends_unique {command : Command} {outcome outcome' : Outcome} {next next' : Session}
    (h : Ends (fun n => s.perform n command) outcome next)
    (h' : Ends (fun n => s.perform n command) outcome' next') :
    outcome' = outcome ∧ next' = next := by
  obtain ⟨hended, n, hn⟩ := h
  obtain ⟨hended', m, hm⟩ := h'
  dsimp only at hn hm
  have hfirst := perform_of_le (Nat.le_max_left n m) (by rw [hn]; exact hended)
  rw [perform_of_le (Nat.le_max_right n m) (by rw [hm]; exact hended'), hn, hm] at hfirst
  cases hfirst
  exact ⟨rfl, rfl⟩

theorem leads_nil {outcomes : List Outcome} :
    s.Leads [] outcomes last ↔ outcomes = [] ∧ last = s := by
  constructor
  · rintro ⟨n, hplay⟩
    cases hplay
    exact ⟨rfl, rfl⟩
  · rintro ⟨rfl, rfl⟩
    exact ⟨0, rfl⟩

theorem leads_cons {command : Command} {history : List Command} {outcomes : List Outcome} :
    s.Leads (command :: history) outcomes last ↔ ∃ outcome next rest,
      Ends (fun n => s.perform n command) outcome next ∧ next.Leads history rest last ∧
        outcomes = outcome :: rest := by
  constructor
  · rintro ⟨n, hplay⟩
    obtain ⟨hended, ⟨rest, last⟩, hrest, hplayed⟩ := play_cons.mp hplay
    cases hplayed
    exact ⟨_, _, rest, ⟨hended, n, rfl⟩, ⟨n, hrest⟩, rfl⟩
  · rintro ⟨outcome, next, rest, ⟨hended, n, hperform⟩, ⟨m, hrest⟩, rfl⟩
    dsimp only at hperform
    -- as many steps as either of the two takes are enough for both
    have hboth : s.perform (max n m) command = (outcome, next) := by
      rw [perform_of_le (Nat.le_max_left n m) (by rw [hperform]; exact hended), hperform]
    refine ⟨max n m, play_cons.mpr ?_⟩
    rw [hboth]
    exact ⟨hended, _, play_of_le (Nat.le_max_right n m) hrest, rfl⟩

theorem Leads.unique {history : List Command} {outcomes others : List Outcome} {other : Session}
    (h : s.Leads history outcomes last) (hother : s.Leads history others other) :
    others = outcomes ∧ other = last := by
  obtain ⟨n, hplay⟩ := h
  obtain ⟨m, hplay'⟩ := hother
  have heq := play_of_le (Nat.le_max_right n m) hplay'
  rw [play_of_le (Nat.le_max_left n m) hplay] at heq
  cases heq
  exact ⟨rfl, rfl⟩

end Session

end SchemeMachine
