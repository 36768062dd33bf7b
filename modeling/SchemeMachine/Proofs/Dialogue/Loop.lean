import SchemeMachine.Proofs.Code
import SchemeMachine.Proofs.Dialogue.Evaluating

/-!
# The interactive loop as a fold

`Loops` follows the loop from round to round, without a bound on their number, and lists the
expressions that are evaluated.  A round reads, and then reports what was wrong with the text,
or evaluates the expression and writes its value or its failure.  The last reading comes to the
end of the input, and then the loop says goodbye.

There is a last reading if every evaluation ends, because each reading before it uses up a line
or a token and no evaluation puts one back: `exists_loops`.

If the text has nothing wrong in it and no evaluation reads from it, then reading, evaluating
and typing do not get into each other's way.  The expressions are those of the whole text, and
evaluating them is independent of the lines they came on.  Only the prompts depend on how the
text is cut into lines; `transcript` says how.
-/

namespace SchemeMachine

namespace Interpreter

/-! ## Rounds of the loop -/

/-- Write the answer to an expression: the value unless it has none, or the failure. -/
def answer (given : Except Failure Value) (i : Interpreter) : Interpreter :=
  match given with
  | .error failure => i.report failure
  | .ok v => i.echo v

/-- The text of the answer to an expression. -/
def answerText (s : Store) : Except Failure Value → String
  | .error failure => failure.report
  | .ok .void => ""
  | .ok v => v.written s ++ "\n"

section

variable (freshPrompt openPrompt : String)

/-- The loop evaluates these expressions, and is then at the end of the input. -/
inductive Loops : Interpreter → List Value → Interpreter → Prop
  | ended {i j : Interpreter} (hread : i.readExpression freshPrompt openPrompt = (.ok .eof, j)) :
      Loops i [] j
  | refused {i j k : Interpreter} {failure : Failure} {es : List Value}
      (hread : i.readExpression freshPrompt openPrompt = (.error (.failure failure), j))
      (h : Loops (j.report failure) es k) : Loops i es k
  | evaluated {i j k l : Interpreter} {e : Value} {given : Except Failure Value} {es : List Value}
      (hread : i.readExpression freshPrompt openPrompt = (.ok e, j)) (he : e ≠ .eof)
      (hgives : Gives (fun n => j.evaluateValue n e) given k)
      (h : Loops (k.answer given) es l) : Loops i (e :: es) l

/-- The loop comes to evaluate this expression, in this state. -/
inductive Starts : Interpreter → Value → Interpreter → Prop
  | first {i j : Interpreter} {e : Value}
      (hread : i.readExpression freshPrompt openPrompt = (.ok e, j)) (he : e ≠ .eof) : Starts i e j
  | refused {i j k : Interpreter} {failure : Failure} {e : Value}
      (hread : i.readExpression freshPrompt openPrompt = (.error (.failure failure), j))
      (h : Starts (j.report failure) e k) : Starts i e k
  | evaluated {i j k l : Interpreter} {e e' : Value} {given : Except Failure Value}
      (hread : i.readExpression freshPrompt openPrompt = (.ok e, j)) (he : e ≠ .eof)
      (hgives : Gives (fun n => j.evaluateValue n e) given k)
      (h : Starts (k.answer given) e' l) : Starts i e' l

end

variable {freshPrompt openPrompt : String} {i i' j k : Interpreter} {es : List Value}

theorem replRound_of_ne {e : Value} (he : e ≠ .eof) (rounds : Nat) (i : Interpreter) :
    replRound freshPrompt openPrompt rounds (.ok e) i =
      andThen (fun n => i.evaluateValue n e) (replRest freshPrompt openPrompt rounds) := by
  cases e with
  | eof => exact absurd rfl he
  | _ => rfl

/-- When the input has ended, the loop says goodbye and is over. -/
theorem Loops.gives (h : Loops freshPrompt openPrompt i es j) :
    Gives (fun n => i.repl n freshPrompt openPrompt) (.ok ()) (j.write "Goodbye\n") := by
  rw [gives_repl]
  induction h with
  | ended hread =>
      refine ⟨1, 0, ?_⟩
      simp only [replFrom_succ, andThen, hread]
      rfl
  | @refused i j k failure es hread _ ih =>
      obtain ⟨rounds, hrounds⟩ := ih
      refine ⟨rounds + 1, ?_⟩
      simp only [replFrom_succ]
      exact (gives_andThen (.const _) (replRound_stable _ _ _)).mpr
        ⟨.error failure, j, ⟨0, hread⟩, hrounds⟩
  | @evaluated i j k l e given es hread he hgives _ ih =>
      obtain ⟨rounds, hrounds⟩ := ih
      refine ⟨rounds + 1, ?_⟩
      have hrest : Gives (replRest freshPrompt openPrompt rounds given k) (.ok ())
          (l.write "Goodbye\n") := by
        cases given <;> exact hrounds
      simp only [replFrom_succ]
      refine (gives_andThen (.const _) (replRound_stable _ _ _)).mpr ⟨.ok e, j, ⟨0, hread⟩, ?_⟩
      rw [replRound_of_ne he]
      exact (gives_andThen (evaluateValue_stable e j) (replRest_stable _ _ _)).mpr
        ⟨given, k, hgives, hrest⟩

/-- The loop can go only one way. -/
theorem Loops.unique {es' : List Value} (h : Loops freshPrompt openPrompt i es j)
    (h' : Loops freshPrompt openPrompt i es' k) : es = es' ∧ j = k := by
  induction h generalizing es' k with
  | ended hread =>
      cases h' with
      | ended hread' =>
          cases hread.symm.trans hread'
          exact ⟨rfl, rfl⟩
      | refused hread' => cases hread.symm.trans hread'
      | evaluated hread' he' =>
          cases hread.symm.trans hread'
          exact absurd rfl he'
  | refused hread _ ih =>
      cases h' with
      | ended hread' => cases hread.symm.trans hread'
      | refused hread' h' =>
          cases hread.symm.trans hread'
          exact ih h'
      | evaluated hread' he' => cases hread.symm.trans hread'
  | evaluated hread he hgives _ ih =>
      cases h' with
      | ended hread' =>
          cases hread.symm.trans hread'
          exact absurd rfl he
      | refused hread' => cases hread.symm.trans hread'
      | evaluated hread' he' hgives' h' =>
          cases hread.symm.trans hread'
          obtain ⟨rfl, rfl⟩ := hgives.unique (evaluateValue_stable _ _) hgives'
          obtain ⟨rfl, rfl⟩ := ih h'
          exact ⟨rfl, rfl⟩

/-! ## The end of the loop -/

/-- An answer leaves everything but the output and the journal alone. -/
theorem answer_eq (given : Except Failure Value) (i : Interpreter) :
    ∃ journal, i.answer given =
      ⟨{ i.shared with
        output := i.shared.output ++ answerText i.shared.store given, journal := journal },
        i.lines⟩ := by
  cases given with
  | error failure => exact ⟨_, rfl⟩
  | ok v =>
      cases v with
      | void =>
          refine ⟨i.shared.journal, ?_⟩
          rw [answerText, String.append_empty]
          rfl
      | _ => exact ⟨_, rfl⟩

@[simp] theorem store_answer (given : Except Failure Value) (i : Interpreter) :
    (i.answer given).shared.store = i.shared.store := by
  obtain ⟨journal, heq⟩ := answer_eq given i
  rw [heq]

@[simp] theorem input_answer (given : Except Failure Value) (i : Interpreter) :
    (i.answer given).shared.input = i.shared.input := by
  obtain ⟨journal, heq⟩ := answer_eq given i
  rw [heq]

@[simp] theorem output_answer (given : Except Failure Value) (i : Interpreter) :
    (i.answer given).shared.output = i.shared.output ++ answerText i.shared.store given := by
  obtain ⟨journal, heq⟩ := answer_eq given i
  rw [heq]

@[simp] theorem lines_answer (given : Except Failure Value) (i : Interpreter) :
    (i.answer given).lines = i.lines := by
  obtain ⟨journal, heq⟩ := answer_eq given i
  rw [heq]

theorem supplies_answer (given : Except Failure Value) (i : Interpreter) :
    (i.answer given).supplies = i.supplies := by
  rw [supplies, supplies, lines_answer, input_answer]

/-- A round that evaluates leaves fewer lines or tokens than there were. -/
theorem less_of_evaluated {j k : Interpreter} {e : Value} {given : Except Failure Value}
    (hless : Less j i) (hgives : Gives (fun n => j.evaluateValue n e) given k) :
    Less (k.answer given) i := by
  have hk := (evaluateValue_noMore hgives).less hless
  rwa [Less, supplies_answer]

/-- If every evaluation ends, the loop comes to the end of the input. -/
theorem exists_loops (i : Interpreter)
    (hends : ∀ e j, Starts freshPrompt openPrompt i e j →
      ∃ given k, Gives (fun n => j.evaluateValue n e) given k) :
    ∃ es j, Loops freshPrompt openPrompt i es j := by
  induction i using less_wf.induction with
  | _ i ih =>
    obtain ⟨given, j, hread, hreading⟩ := exists_reading freshPrompt openPrompt i
    cases given with
    | error failure =>
        have hless : Less (j.report failure) i := hreading.less (by rintro ⟨⟩)
        obtain ⟨es, k, hloops⟩ := ih _ hless fun e k hstarts => hends e k (.refused hread hstarts)
        exact ⟨es, k, .refused hread hloops⟩
    | ok e =>
        by_cases he : e = .eof
        · subst he
          exact ⟨[], j, .ended hread⟩
        · obtain ⟨given, k, hgives⟩ := hends e j (.first hread he)
          have hless : Less j i := hreading.less fun heq => he (Except.ok.inj heq)
          obtain ⟨es, l, hloops⟩ := ih _ (less_of_evaluated hless hgives)
            fun e' l hstarts => hends e' l (.evaluated hread he hgives hstarts)
          exact ⟨e :: es, l, .evaluated hread he hgives hloops⟩

/-! ## The fold -/

/-- Evaluating these expressions one after another, whatever becomes of them, brings the
interpreter to this state.  The list has what each of them wrote and the answer to it. -/
inductive EvaluatesEach : Interpreter → List Datum → List String → Interpreter → Prop
  | nil (i : Interpreter) : EvaluatesEach i [] [] i
  | cons {i j k : Interpreter} {d : Datum} {ds : List Datum} {given : Except Failure Value}
      {said : String} {replies : List String}
      (hgives : Gives (fun n => i.evaluate n d) given j)
      (hsaid : j.shared.output = i.shared.output ++ said)
      (h : EvaluatesEach j ds replies k) :
      EvaluatesEach i (d :: ds) ((said ++ answerText j.shared.store given) :: replies) k

/-- How many expressions the tokens hold. -/
def held (tokens : List Token) : Nat :=
  (Datum.readAll tokens).1.length

/-- The tokens behind the expressions that the tokens hold. -/
def pending (tokens : List Token) : List Token :=
  Datum.left (held tokens) tokens

/-- What stands on the screen when these lines are typed and the expressions get these replies.
First come the replies to the expressions that the tokens hold, and then there is a prompt,
which tells whether tokens are pending.  After it comes the next line, or else the loop says
goodbye. -/
def transcript (freshPrompt openPrompt : String) :
    List String → List Token → List String → String
  | [], tokens, replies =>
    String.join (replies.take (held tokens)) ++
      prompt freshPrompt openPrompt (pending tokens) ++ "Goodbye\n"
  | line :: lines, tokens, replies =>
    String.join (replies.take (held tokens)) ++
      prompt freshPrompt openPrompt (pending tokens) ++
      transcript freshPrompt openPrompt lines (pending tokens ++ Token.ofCut line)
        (replies.drop (held tokens))

theorem held_of_datum {tokens rest : List Token} {d : Datum}
    (hone : Datum.readOne tokens = (.ok d, rest)) :
    held tokens = held rest + 1 ∧ pending tokens = pending rest := by
  have hreads : Datum.ReadsTo tokens [d] rest := .cons hone (.nil _)
  have hheld : held tokens = held rest + 1 := by
    rw [held, hreads.readAll_eq, List.length_append, Nat.add_comm]
    rfl
  refine ⟨hheld, ?_⟩
  rw [pending, hheld, Datum.left, hone]
  rfl

theorem held_of_end {tokens : List Token}
    (hend : (Datum.readOne tokens).1 = .error .endOfInput) :
    (Datum.readAll tokens).1 = [] ∧ held tokens = 0 ∧ pending tokens = tokens := by
  have hnone : (Datum.readAll tokens).1 = [] := by
    cases tokens with
    | nil => rfl
    | cons token tokens =>
        rw [Datum.readAll_cons, show Datum.readOne (token :: tokens) = (.error .endOfInput, _) from
          Prod.ext hend rfl]
  have hheld : held tokens = 0 := by rw [held, hnone, List.length_nil]
  refine ⟨hnone, hheld, ?_⟩
  rw [pending, hheld, Datum.left]

/-- A reply comes before all that follows it. -/
theorem transcript_of_datum {tokens rest : List Token} {d : Datum}
    (hone : Datum.readOne tokens = (.ok d, rest)) (lines : List String) (reply : String)
    (replies : List String) :
    transcript freshPrompt openPrompt lines tokens (reply :: replies) =
      reply ++ transcript freshPrompt openPrompt lines rest replies := by
  obtain ⟨hheld, hpending⟩ := held_of_datum hone
  cases lines with
  | nil => simp only [transcript, hheld, hpending, List.take_succ_cons, String.join_cons,
      String.append_assoc]
  | cons line lines => simp only [transcript, hheld, hpending, List.take_succ_cons,
      List.drop_succ_cons, String.join_cons, String.append_assoc]

theorem transcript_of_no_line {tokens : List Token}
    (hend : (Datum.readOne tokens).1 = .error .endOfInput) (replies : List String) :
    transcript freshPrompt openPrompt [] tokens replies =
      prompt freshPrompt openPrompt tokens ++ "Goodbye\n" := by
  obtain ⟨_, hheld, hpending⟩ := held_of_end hend
  simp only [transcript, hheld, hpending, List.take_zero, String.join_nil, String.empty_append]

theorem transcript_of_line {tokens : List Token}
    (hend : (Datum.readOne tokens).1 = .error .endOfInput) (line : String)
    (lines replies : List String) :
    transcript freshPrompt openPrompt (line :: lines) tokens replies =
      prompt freshPrompt openPrompt tokens ++
        transcript freshPrompt openPrompt lines (tokens ++ Token.ofCut line) replies := by
  obtain ⟨_, hheld, hpending⟩ := held_of_end hend
  simp only [transcript, hheld, hpending, List.take_zero, List.drop_zero, String.join_nil,
    String.empty_append]

/-! ## The loop is the fold -/

theorem Loops.of_readExpression
    (hsame : i.readExpression freshPrompt openPrompt = i'.readExpression freshPrompt openPrompt)
    (h : Loops freshPrompt openPrompt i' es j) : Loops freshPrompt openPrompt i es j := by
  cases h with
  | ended hread => exact .ended (hsame.trans hread)
  | refused hread h => exact .refused (hsame.trans hread) h
  | evaluated hread he hgives h => exact .evaluated (hsame.trans hread) he hgives h

theorem Starts.of_readExpression {e : Value}
    (hsame : i.readExpression freshPrompt openPrompt = i'.readExpression freshPrompt openPrompt)
    (h : Starts freshPrompt openPrompt i' e j) : Starts freshPrompt openPrompt i e j := by
  cases h with
  | first hread he => exact .first (hsame.trans hread) he
  | refused hread h => exact .refused (hsame.trans hread) h
  | evaluated hread he hgives h => exact .evaluated (hsame.trans hread) he hgives h

/-- All the tokens that are left and that are still to come. -/
def allTokens (i : Interpreter) : List Token :=
  i.shared.input.tokens ++ i.lines.flatMap Token.ofCut

theorem allTokens_fed {line : String} {lines : List String} (hlines : i.lines = line :: lines) :
    (i.fed freshPrompt openPrompt line lines).allTokens = i.allTokens := by
  rw [allTokens, allTokens, hlines, List.flatMap_cons, ← List.append_assoc]
  rfl

/-- Nothing is wrong with the text that is left and still to come, and every evaluation that
the loop comes to ends without having read. -/
structure Orderly (freshPrompt openPrompt : String) (i : Interpreter) : Prop where
  cut : ∀ line ∈ i.lines, Token.isCut line = true
  fine : ∀ fault, (Datum.readAll i.allTokens).2 = some fault → ¬ fault.IsSyntaxError
  ends : ∀ e j, Starts freshPrompt openPrompt i e j →
    ∃ given k, Gives (fun n => j.evaluateValue n e) given k
  unread : ∀ e j, Starts freshPrompt openPrompt i e j → ¬ j.AppliesRead e

/-- What the loop does with a text in order: it evaluates the expressions of the text, as they
could be evaluated anywhere with the same store, and this is what it writes. -/
def Folds (freshPrompt openPrompt : String) (i : Interpreter) : Prop :=
  ∃ es j, Loops freshPrompt openPrompt i es j ∧
    es.map Value.datum? = (Datum.readAll i.allTokens).1.map some ∧
    ∀ f : Interpreter, f.shared.store = i.shared.store →
      ∃ replies g, EvaluatesEach f (Datum.readAll i.allTokens).1 replies g ∧
        j.shared.store = g.shared.store ∧
        j.shared.output ++ "Goodbye\n" =
          i.shared.output ++
            transcript freshPrompt openPrompt i.lines i.shared.input.tokens replies

theorem folds_of_no_line (hend : (Datum.readOne i.shared.input.tokens).1 = .error .endOfInput)
    (hlines : i.lines = []) : Folds freshPrompt openPrompt i := by
  have hall : (Datum.readAll i.allTokens).1 = [] := by
    rw [allTokens, hlines, List.flatMap_nil, List.append_nil]
    exact (held_of_end hend).1
  refine ⟨[], _, .ended (readExpression_of_no_line hend hlines), by rw [hall]; rfl, ?_⟩
  intro f hstore
  refine ⟨[], f, by rw [hall]; exact .nil f, hstore.symm, ?_⟩
  rw [hlines, transcript_of_no_line hend, ← String.append_assoc]
  rfl

theorem folds_of_line {line : String} {lines : List String}
    (hend : (Datum.readOne i.shared.input.tokens).1 = .error .endOfInput)
    (hlines : i.lines = line :: lines) (hcut : Token.isCut line = true)
    (h : Folds freshPrompt openPrompt (i.fed freshPrompt openPrompt line lines)) :
    Folds freshPrompt openPrompt i := by
  obtain ⟨es, j, hloops, hdata, hfold⟩ := h
  rw [allTokens_fed hlines] at hdata hfold
  refine ⟨es, j, hloops.of_readExpression (readExpression_of_line hend hlines hcut), hdata, ?_⟩
  intro f hstore
  obtain ⟨replies, g, heach, hg, hout⟩ := hfold f hstore
  refine ⟨replies, g, heach, hg, ?_⟩
  rw [hout, hlines, transcript_of_line hend, ← String.append_assoc]
  rfl

theorem place_ne_eof (d : Datum) (s : Store) : (s.place d).1 ≠ .eof := by
  intro heof
  have hdatum := Value.datum?_place d s
  rw [heof] at hdatum
  cases hdatum

/-- An expression that was read is evaluated as it would be anywhere with the same store. -/
theorem evaluate_anywhere {d : Datum} {rest : List Token} {given : Except Failure Value}
    {f : Interpreter}
    (hgives : Gives (fun n => (i.having d rest).evaluateValue n (i.shared.store.place d).1) given k)
    (hunread : ¬ (i.having d rest).AppliesRead (i.shared.store.place d).1)
    (hstore : f.shared.store = i.shared.store) :
    ∃ k' said, Gives (fun n => f.evaluate n d) given k' ∧ k'.shared.store = k.shared.store ∧
      k.shared.output = i.shared.output ++ said ∧ k'.shared.output = f.shared.output ++ said ∧
      k.shared.input = ⟨rest⟩ ∧ k.lines = i.lines := by
  have hplaced : (f.place d).2.shared.store = (i.having d rest).shared.store :=
    congrArg (fun s : Store => (s.place d).2) hstore
  have hvalue : (f.place d).1 = (i.shared.store.place d).1 :=
    congrArg (fun s : Store => (s.place d).1) hstore
  obtain ⟨k', said, hgives', hrest⟩ := evaluateValue_anywhere hgives hunread hplaced
  rw [← hvalue] at hgives'
  exact ⟨k', said, hgives', hrest⟩

/-- The first datum and those behind it. -/
theorem readAll_allTokens {d : Datum} {rest : List Token}
    (hone : Datum.readOne i.shared.input.tokens = (.ok d, rest)) (hinput : k.shared.input = ⟨rest⟩)
    (hlines : k.lines = i.lines) :
    Datum.readAll i.allTokens =
      (d :: (Datum.readAll k.allTokens).1, (Datum.readAll k.allTokens).2) := by
  have hreads : Datum.ReadsTo i.shared.input.tokens [d] rest := .cons hone (.nil _)
  rw [allTokens, (hreads.append _).readAll_eq, allTokens, hinput, hlines]
  rfl

theorem folds_of_datum {d : Datum} {rest : List Token} {given : Except Failure Value}
    (hone : Datum.readOne i.shared.input.tokens = (.ok d, rest))
    (hgives : Gives (fun n => (i.having d rest).evaluateValue n (i.shared.store.place d).1) given k)
    (hunread : ¬ (i.having d rest).AppliesRead (i.shared.store.place d).1)
    (h : Folds freshPrompt openPrompt (k.answer given)) : Folds freshPrompt openPrompt i := by
  obtain ⟨_, _, _, _, _, _, hinput, hlines⟩ := evaluate_anywhere hgives hunread rfl
  have hall : Datum.readAll i.allTokens = _ :=
    readAll_allTokens (k := k.answer given) hone ((input_answer given k).trans hinput)
      ((lines_answer given k).trans hlines)
  obtain ⟨es, j, hloops, hdata, hfold⟩ := h
  have hround := Loops.evaluated (readExpression_of_datum hone) (place_ne_eof d _) hgives hloops
  refine ⟨_, j, hround, ?_, ?_⟩
  · rw [hall, List.map_cons, List.map_cons, Value.datum?_place, hdata]
  · intro f hstore
    obtain ⟨k', said, hgives', hstore', hsaid, hsaid', _, _⟩ :=
      evaluate_anywhere hgives hunread hstore
    obtain ⟨replies, g, heach, hg, hout⟩ := hfold k' (hstore'.trans (store_answer given k).symm)
    refine ⟨_, g, by rw [hall]; exact .cons hgives' hsaid' heach, hg, ?_⟩
    rw [hout, output_answer, hsaid, lines_answer, hlines, input_answer, hinput,
      transcript_of_datum hone, hstore', String.append_assoc, String.append_assoc,
      String.append_assoc]

namespace Orderly

/-- A text in order has no syntax error in front. -/
theorem not_wrong (h : Orderly freshPrompt openPrompt i) {fault : Fault} {rest : List Token}
    (hone : Datum.readOne i.shared.input.tokens = (.error fault, rest)) : fault = .endOfInput := by
  apply Classical.byContradiction
  intro hfault
  have hsyntaxError : fault.IsSyntaxError := (Datum.readFrom_fault hone).resolve_left hfault
  have hmore := Datum.readOne_append hone (fun heq => hfault (Except.error.inj heq))
    (i.lines.flatMap Token.ofCut)
  have hsome : i.allTokens ≠ [] := by
    intro hnil
    rw [← allTokens, hnil] at hmore
    exact hfault (Except.error.inj (congrArg Prod.fst hmore)).symm
  have hall := (Datum.ReadsTo.nil i.allTokens).readAll_of_fault hmore hsome
  exact h.fine fault (by rw [hall]) hsyntaxError

theorem fed (h : Orderly freshPrompt openPrompt i) {line : String} {lines : List String}
    (hend : (Datum.readOne i.shared.input.tokens).1 = .error .endOfInput)
    (hlines : i.lines = line :: lines) :
    Orderly freshPrompt openPrompt (i.fed freshPrompt openPrompt line lines) := by
  have hcut : Token.isCut line = true := h.cut line (hlines ▸ List.mem_cons_self)
  have hsame : i.readExpression freshPrompt openPrompt = _ :=
    readExpression_of_line hend hlines hcut
  constructor
  · intro other hother
    exact h.cut other (hlines ▸ List.mem_cons_of_mem line hother)
  · rw [allTokens_fed hlines]
    exact h.fine
  · intro e j hstarts
    exact h.ends e j (hstarts.of_readExpression hsame)
  · intro e j hstarts
    exact h.unread e j (hstarts.of_readExpression hsame)

theorem answer (h : Orderly freshPrompt openPrompt i) {d : Datum} {rest : List Token}
    {given : Except Failure Value} (hone : Datum.readOne i.shared.input.tokens = (.ok d, rest))
    (hgives : Gives (fun n => (i.having d rest).evaluateValue n (i.shared.store.place d).1) given k)
    (hinput : k.shared.input = ⟨rest⟩) (hlines : k.lines = i.lines) :
    Orderly freshPrompt openPrompt (k.answer given) := by
  have hstarts {e : Value} {j : Interpreter}
      (hlater : Starts freshPrompt openPrompt (k.answer given) e j) :
      Starts freshPrompt openPrompt i e j :=
    .evaluated (readExpression_of_datum hone) (place_ne_eof d _) hgives hlater
  constructor
  · rw [lines_answer, hlines]
    exact h.cut
  · have hall := readAll_allTokens (k := k.answer given) hone ((input_answer given k).trans hinput)
      ((lines_answer given k).trans hlines)
    intro fault hfault
    exact h.fine fault (by rw [hall]; exact hfault)
  · intro e j hlater
    exact h.ends e j (hstarts hlater)
  · intro e j hlater
    exact h.unread e j (hstarts hlater)

/-- What the loop does with a text in order is the fold. -/
theorem folds (h : Orderly freshPrompt openPrompt i) : Folds freshPrompt openPrompt i := by
  induction i using less_wf.induction with
  | _ i ih =>
    rcases hone : Datum.readOne i.shared.input.tokens with ⟨fault | d, rest⟩
    · have hend : (Datum.readOne i.shared.input.tokens).1 = .error .endOfInput := by
        rw [hone, h.not_wrong hone]
      cases hlines : i.lines with
      | nil => exact folds_of_no_line hend hlines
      | cons line lines =>
          have hless : Less (i.fed freshPrompt openPrompt line lines) i :=
            less_of_lines hlines (Nat.le_refl _)
          exact folds_of_line hend hlines (h.cut line (hlines ▸ List.mem_cons_self))
            (ih _ hless (h.fed hend hlines))
    · have hstarts : Starts freshPrompt openPrompt i _ _ :=
        .first (readExpression_of_datum hone) (place_ne_eof d _)
      obtain ⟨given, k, hgives⟩ := h.ends _ _ hstarts
      have hunread := h.unread _ _ hstarts
      obtain ⟨_, _, _, _, _, _, hinput, hlines⟩ := evaluate_anywhere hgives hunread rfl
      have hless : Less (i.having d rest) i := .inr ⟨rfl, Datum.length_lt_of_readOne hone⟩
      exact folds_of_datum hone hgives hunread
        (ih _ (less_of_evaluated hless hgives) (h.answer hone hgives hinput hlines))

end Orderly

/-! ## Rehearsing the loop

That all evaluations end, and none of them reads, can be found out by letting the loop run. -/

/-- What a run comes to in so many steps, if it calls no `read` on the way. -/
def unreadResult? : Nat → Served → Option (Except Stop Value × Interpreter)
  | 0, s => s.result?
  | n + 1, s =>
    match s.transition with
    | .running ⟨.call (.primitive .read) .nil, _, _, _⟩ => none
    | _ => unreadResult? n s.next

/-- The loop is over after so many rounds of so many steps, and no evaluation has read. -/
def rehearse (freshPrompt openPrompt : String) (steps : Nat) : Nat → Interpreter → Bool
  | 0, _ => false
  | rounds + 1, i =>
    match i.readExpression freshPrompt openPrompt with
    | (.ok .eof, _) => true
    | (.ok e, j) =>
      match unreadResult? steps (Served.start e Store.global .empty j) with
      | some (.ok v, k) => rehearse freshPrompt openPrompt steps rounds (k.echo v)
      | some (.error (.failure failure), k) =>
        rehearse freshPrompt openPrompt steps rounds (k.report failure)
      | _ => false
    | (.error (.failure failure), j) =>
      rehearse freshPrompt openPrompt steps rounds (j.report failure)
    | (.error .exhausted, _) => false

theorem unreadResult?_eq_some {n : Nat} {s : Served} {result : Except Stop Value × Interpreter}
    (h : unreadResult? n s = some result) :
    (s.after n).result? = some result ∧
      ∀ m c, (s.after m).transition = .running c → ¬ c.Reads := by
  fun_induction unreadResult? n s with
  | case1 s =>
      refine ⟨h, ?_⟩
      intro m c hrunning
      rw [Served.after_of_result? h] at hrunning
      obtain ⟨transition, lines⟩ := s
      cases hrunning
      cases h
  | case2 => cases h
  | case3 s n hno ih =>
      obtain ⟨hresult, hlater⟩ := ih h
      refine ⟨hresult, ?_⟩
      intro m
      cases m with
      | zero =>
          intro ⟨focus, env, k, sh⟩ hrunning hreads
          obtain rfl : focus = .call (.primitive .read) .nil := hreads
          exact hno env k sh hrunning
      | succ m => exact hlater m

/-- What a run without a call of `read` says about the evaluation. -/
theorem gives_of_unreadResult? {n : Nat} {e : Value} (given : Except Failure Value)
    (h : unreadResult? n (Served.start e Store.global .empty j) =
      some (given.mapError .failure, k)) :
    Gives (fun n => j.evaluateValue n e) given k ∧ ¬ j.AppliesRead e := by
  obtain ⟨hresult, hunread⟩ := unreadResult?_eq_some h
  refine ⟨gives_evaluateValue_iff.mpr ⟨n, hresult⟩, ?_⟩
  intro ⟨m, c, hrunning, hreads⟩
  exact hunread m c hrunning hreads

/-- One round of the rehearsal finds the first evaluation in order, and goes on behind it. -/
theorem rehearse_succ {steps rounds : Nat} {e : Value}
    (h : rehearse freshPrompt openPrompt steps (rounds + 1) i = true)
    (hread : i.readExpression freshPrompt openPrompt = (.ok e, j)) (he : e ≠ .eof) :
    ∃ given k, Gives (fun n => j.evaluateValue n e) given k ∧ ¬ j.AppliesRead e ∧
      rehearse freshPrompt openPrompt steps rounds (k.answer given) = true := by
  rw [rehearse, hread] at h
  split at h
  · rename_i heq
    cases heq
    exact absurd rfl he
  · rename_i heq
    cases heq
    split at h
    · rename_i v k hresult
      obtain ⟨hgives, hunread⟩ := gives_of_unreadResult? (.ok v) hresult
      exact ⟨.ok v, k, hgives, hunread, h⟩
    · rename_i failure k hresult
      obtain ⟨hgives, hunread⟩ := gives_of_unreadResult? (.error failure) hresult
      exact ⟨.error failure, k, hgives, hunread, h⟩
    · cases h
  · rename_i heq
    cases heq
  · rename_i heq
    cases heq

theorem ends_of_rehearse {steps rounds : Nat} {e : Value}
    (h : rehearse freshPrompt openPrompt steps rounds i = true)
    (hstarts : Starts freshPrompt openPrompt i e j) :
    (∃ given k, Gives (fun n => j.evaluateValue n e) given k) ∧ ¬ j.AppliesRead e := by
  induction hstarts generalizing rounds with
  | first hread he =>
      cases rounds with
      | zero => cases h
      | succ rounds =>
          obtain ⟨given, k, hgives, hunread, _⟩ := rehearse_succ h hread he
          exact ⟨⟨given, k, hgives⟩, hunread⟩
  | refused hread _ ih =>
      cases rounds with
      | zero => cases h
      | succ rounds =>
          rw [rehearse, hread] at h
          exact ih h
  | evaluated hread he hgives _ ih =>
      cases rounds with
      | zero => cases h
      | succ rounds =>
          obtain ⟨given, k, hgives', _, hrest⟩ := rehearse_succ h hread he
          obtain ⟨rfl, rfl⟩ := hgives.unique (evaluateValue_stable _ _) hgives'
          exact ih hrest

theorem Gives.of_isOk {f : Nat → Except Stop Unit × Interpreter} {n : Nat}
    (h : (f n).1.isOk = true) : Gives f (.ok ()) (f n).2 := by
  refine ⟨n, ?_⟩
  rcases hn : f n with ⟨stop | _, j⟩
  · rw [hn] at h
    cases h
  · rfl

/-- **The interactive loop is a fold of `evaluate` over the typed text.**  If every evaluation
that the loop starts comes to an end, then so does the loop, and the last thing that it writes,
once and only then, is that it says goodbye.

Suppose moreover that nothing was typed before, every line can be cut into tokens, the lines
joined by newlines have no syntax error in them, and no evaluation calls `read`.  Then the
expressions that were evaluated are those of the joined lines, each once and in order.  The
store is that of evaluating them one after another, whatever becomes of each of them.  And the
transcript has what they wrote and the answers to them, between one prompt for each line and
one for the end. -/
theorem repl_folds_evaluate {freshPrompt openPrompt : String} {i : Interpreter}
    (hends : ∀ e j, Starts freshPrompt openPrompt i e j →
      ∃ given k, Gives (fun n => j.evaluateValue n e) given k) :
    ∃ es j, Loops freshPrompt openPrompt i es j ∧
      Gives (fun n => i.repl n freshPrompt openPrompt) (.ok ()) (j.write "Goodbye\n") ∧
      (i.shared.input = .empty →
        (∀ line ∈ i.lines, Token.isCut line = true) →
        (∀ fault, (Datum.allOfText ("\n".intercalate i.lines)).2 = some fault →
          ¬ fault.IsSyntaxError) →
        (∀ e j, Starts freshPrompt openPrompt i e j → ¬ j.AppliesRead e) →
        es.map Value.datum? = (Datum.allOfText ("\n".intercalate i.lines)).1.map some ∧
        ∀ f : Interpreter, f.shared.store = i.shared.store →
          ∃ replies g,
            EvaluatesEach f (Datum.allOfText ("\n".intercalate i.lines)).1 replies g ∧
            j.shared.store = g.shared.store ∧
            (j.write "Goodbye\n").shared.output =
              i.shared.output ++ transcript freshPrompt openPrompt i.lines [] replies) := by
  obtain ⟨es, j, hloops⟩ := exists_loops i hends
  refine ⟨es, j, hloops, hloops.gives, ?_⟩
  intro hinput hcut hfine hunread
  have hall : Datum.allOfText ("\n".intercalate i.lines) = Datum.readAll i.allTokens := by
    rw [Datum.allOfText, Token.ofText_joined hcut, allTokens, hinput]
    rfl
  rw [hall] at hfine ⊢
  obtain ⟨es', j', hloops', hdata, hfold⟩ := Orderly.folds ⟨hcut, hfine, hends, hunread⟩
  obtain ⟨rfl, rfl⟩ := hloops.unique hloops'
  rw [hinput] at hfold
  exact ⟨hdata, hfold⟩

/-- An expression on two lines, one that fails on the second of them, a blank line, and on the
last line an expression with one behind it that is never finished. -/
theorem repl_folds_evaluate_of_four_lines :
    ∃ es j, Loops "> " ". " (Interpreter.start
        ["(+ 1", "2) (car 1) ; comment", "", "'x (display"]) es j ∧
      es.map Value.datum? = (Datum.allOfText "(+ 1 2) (car 1) 'x").1.map some ∧
      (j.write "Goodbye\n").shared.output =
        "> . 3\nSchemeTypeError: car: pair expected: 1\n> > x\n. Goodbye\n" ∧
      ∃ replies g,
        EvaluatesEach (Interpreter.start []) (Datum.allOfText "(+ 1 2) (car 1) 'x").1 replies g ∧
        j.shared.store = g.shared.store := by
  have hrun : rehearse "> " ". " 60 8 (Interpreter.start
      ["(+ 1", "2) (car 1) ; comment", "", "'x (display"]) = true := by
    decide +kernel
  have hall : Datum.allOfText
      ("\n".intercalate ["(+ 1", "2) (car 1) ; comment", "", "'x (display"]) =
      ((Datum.allOfText "(+ 1 2) (car 1) 'x").1, some .endOfInput) := by
    decide +kernel
  have hfine : ∀ fault, (Datum.allOfText
      ("\n".intercalate ["(+ 1", "2) (car 1) ; comment", "", "'x (display"])).2 = some fault →
      ¬ fault.IsSyntaxError := by
    intro fault hfault
    rw [hall] at hfault
    cases hfault
    decide
  obtain ⟨es, j, hloops, hgives, hfold⟩ :=
    repl_folds_evaluate fun e j hstarts => (ends_of_rehearse hrun hstarts).1
  obtain ⟨hdata, hreplies⟩ := hfold rfl (by decide +kernel) hfine
    fun e j hstarts => (ends_of_rehearse hrun hstarts).2
  rw [Interpreter.start, hall] at hdata hreplies
  obtain ⟨replies, g, heach, hstore, _⟩ := hreplies (Interpreter.start []) rfl
  refine ⟨es, j, hloops, hdata, ?_, replies, g, heach, hstore⟩
  have hsaid : ((Interpreter.start ["(+ 1", "2) (car 1) ; comment", "", "'x (display"]).repl 60
      "> " ". ").1.isOk = true ∧
      ((Interpreter.start ["(+ 1", "2) (car 1) ; comment", "", "'x (display"]).repl 60
        "> " ". ").2.shared.output =
      "> . 3\nSchemeTypeError: car: pair expected: 1\n> > x\n. Goodbye\n" := by
    decide +kernel
  rw [(hgives.unique (repl_stable _ _ _) (.of_isOk hsaid.1)).2]
  exact hsaid.2

end Interpreter

end SchemeMachine
