import SchemeMachine.Interpreter
import SchemeMachine.Proofs.Reading.Grammar
import SchemeMachine.Proofs.Reading.Interactive

/-!
# How the interactive loop reads

The loop reads an expression from the tokens that are left of the lines so far.  If they hold
a whole datum or a syntax error, no line is taken and no prompt is shown.  Otherwise there is a
prompt, and a line is taken and added to the tokens; then it is as if the loop had begun to
read only now (`readExpression_of_line`).  So a reading takes lines one by one, each after a
prompt of its own, and the input ends with a prompt as well.

Every reading but the last uses something up: a line, or else a token (`Reading.less`).
-/

namespace SchemeMachine

namespace Datum

/-- A datum takes at least one token. -/
theorem length_lt_of_readOne {tokens rest : List Token} {d : Datum}
    (h : readOne tokens = (.ok d, rest)) : rest.length < tokens.length := by
  cases tokens with
  | nil => cases h
  | cons token tokens =>
      rw [List.length_cons, Nat.lt_succ_iff]
      rw [readOne] at h
      cases htake : Progress.start.take token with
      | error fault =>
          rw [readFrom, htake] at h
          cases fault <;> cases h
      | ok taken =>
          rw [readFrom_cons htake] at h
          cases taken with
          | inl found =>
              cases h
              exact Nat.le_refl _
          | inr further => exact (readFrom_suffix h).length_le

end Datum

/-- What was in the buffer before makes no difference to what reading from it gave. -/
theorem Shared.takeAnswer_with_input (sh : Shared) (buffer : InputBuffer)
    (answer : Except Fault InputBuffer.Answer × InputBuffer) :
    ({ sh with input := buffer } : Shared).takeAnswer answer = sh.takeAnswer answer := by
  obtain ⟨fault | d | request | _, after⟩ := answer <;> rfl

namespace Interpreter

variable (freshPrompt openPrompt : String)

/-- The prompt for the next line: it tells whether an expression has been begun. -/
def prompt (tokens : List Token) : String :=
  if tokens.isEmpty then freshPrompt else openPrompt

/-- The state once the tokens have run out and the prompt for the next line is shown. -/
def prompted (i : Interpreter) : Interpreter :=
  (i.note (.inputExhausted i.shared.input.tokens.length)).write
    (prompt freshPrompt openPrompt i.shared.input.tokens)

/-- The state once the next line has been added to the tokens. -/
def fed (line : String) (lines : List String) (i : Interpreter) : Interpreter :=
  let i := i.prompted freshPrompt openPrompt
  ⟨{ i.shared with input := ⟨i.shared.input.tokens ++ Token.ofCut line⟩ }, lines⟩

/-- The state once a datum has been read from the front of the tokens. -/
def having (d : Datum) (rest : List Token) (i : Interpreter) : Interpreter :=
  ⟨{ i.shared with store := (i.shared.store.place d).2, input := ⟨rest⟩ }, i.lines⟩

variable {freshPrompt openPrompt} {i : Interpreter}

theorem readExpression_of_datum {d : Datum} {rest : List Token}
    (h : Datum.readOne i.shared.input.tokens = (.ok d, rest)) :
    i.readExpression freshPrompt openPrompt =
      (.ok (i.shared.store.place d).1, i.having d rest) := by
  have hread : i.shared.input.read freshPrompt openPrompt = (.ok (.datum d), ⟨rest⟩) := by
    rw [InputBuffer.read, h]
  simp only [readExpression, onShared, Shared.read, hread]
  rfl

theorem readExpression_of_wrong {fault : Fault} {rest : List Token}
    (h : Datum.readOne i.shared.input.tokens = (.error fault, rest))
    (hfault : fault ≠ .endOfInput) :
    i.readExpression freshPrompt openPrompt =
      (.error (.failure (.plain fault)), ⟨{ i.shared with input := .empty }, i.lines⟩) := by
  have hread : i.shared.input.read freshPrompt openPrompt = (.error fault, .empty) := by
    rw [InputBuffer.read, h]
    cases fault with
    | endOfInput => exact absurd rfl hfault
    | _ => rfl
  simp only [readExpression, onShared, Shared.read, hread]
  rfl

/-- A reading whose tokens have run out asks for a line. -/
theorem readExpression_of_end
    (h : (Datum.readOne i.shared.input.tokens).1 = .error .endOfInput) :
    i.readExpression freshPrompt openPrompt =
      serveReading (i.lines.length + 1)
        (.ok (.suspend (.awaiting ⟨prompt freshPrompt openPrompt i.shared.input.tokens, freshPrompt,
          openPrompt⟩)))
        (i.note (.inputExhausted i.shared.input.tokens.length)) := by
  have hread : i.shared.input.read freshPrompt openPrompt =
      (.ok (.awaiting ⟨prompt freshPrompt openPrompt i.shared.input.tokens, freshPrompt,
        openPrompt⟩), i.shared.input) := by
    rw [InputBuffer.read, show Datum.readOne i.shared.input.tokens = (.error .endOfInput, _) from
      Prod.ext h rfl]
    rfl
  simp only [readExpression, onShared, Shared.read, hread]
  rfl

theorem readExpression_of_no_line
    (h : (Datum.readOne i.shared.input.tokens).1 = .error .endOfInput) (hlines : i.lines = []) :
    i.readExpression freshPrompt openPrompt =
      (.ok .eof, i.prompted freshPrompt openPrompt) := by
  rw [readExpression_of_end h, hlines]
  obtain ⟨sh, lines⟩ := i
  subst hlines
  rfl

theorem readExpression_of_uncut {line : String} {lines : List String}
    (h : (Datum.readOne i.shared.input.tokens).1 = .error .endOfInput)
    (hlines : i.lines = line :: lines) (hcut : Token.isCut line = false) :
    i.readExpression freshPrompt openPrompt =
      (.error (.failure (.plain .literalMissing)),
        { i.prompted freshPrompt openPrompt with lines := lines }) := by
  rw [readExpression_of_end h, hlines]
  obtain ⟨sh, others⟩ := i
  subst hlines
  simp only [serveReading, service, note, write, readLine, onShared, Shared.resume,
    InputBuffer.supply, InputBuffer.feed_of_not_isCut hcut]
  rfl

/-- Once a line has been taken, the reading is as if it had begun only now. -/
theorem readExpression_of_line {line : String} {lines : List String}
    (h : (Datum.readOne i.shared.input.tokens).1 = .error .endOfInput)
    (hlines : i.lines = line :: lines) (hcut : Token.isCut line = true) :
    i.readExpression freshPrompt openPrompt =
      (i.fed freshPrompt openPrompt line lines).readExpression freshPrompt openPrompt := by
  rw [readExpression_of_end h, hlines]
  obtain ⟨sh, others⟩ := i
  subst hlines
  let buffer : InputBuffer := ⟨sh.input.tokens ++ Token.ofCut line⟩
  let shown : Shared := (Interpreter.prompted freshPrompt openPrompt ⟨sh, line :: lines⟩).shared
  have hsupply : shown.input.supply (some line) freshPrompt openPrompt =
      buffer.read freshPrompt openPrompt := by
    rw [InputBuffer.supply, InputBuffer.feed_of_isCut hcut]
    rfl
  have hanswer := shown.takeAnswer_with_input buffer (buffer.read freshPrompt openPrompt)
  calc serveReading (lines.length + 1 + 1) _ _
      = serveReading (lines.length + 1)
          (shown.takeAnswer (shown.input.supply (some line) freshPrompt openPrompt)).1
          ⟨(shown.takeAnswer (shown.input.supply (some line) freshPrompt openPrompt)).2,
            lines⟩ := rfl
    _ = serveReading (lines.length + 1)
          (({ shown with input := buffer } : Shared).takeAnswer
            (buffer.read freshPrompt openPrompt)).1
          ⟨(({ shown with input := buffer } : Shared).takeAnswer
            (buffer.read freshPrompt openPrompt)).2, lines⟩ := by rw [hsupply, hanswer]
    _ = _ := rfl

/-! ## All that a reading can come to -/

variable (freshPrompt openPrompt)

/-- What a reading can come to: a datum, a syntax error, the end of the input, or a line that
cannot be cut into tokens.  Before that it may take lines. -/
inductive Reading : Interpreter → Except Failure Value → Interpreter → Prop
  | datum {i : Interpreter} {d : Datum} {rest : List Token}
      (hone : Datum.readOne i.shared.input.tokens = (.ok d, rest)) :
      Reading i (.ok (i.shared.store.place d).1) (i.having d rest)
  | wrong {i : Interpreter} {fault : Fault} {rest : List Token}
      (hone : Datum.readOne i.shared.input.tokens = (.error fault, rest))
      (hfault : fault ≠ .endOfInput) :
      Reading i (.error (.plain fault)) ⟨{ i.shared with input := .empty }, i.lines⟩
  | ended {i : Interpreter} (hend : (Datum.readOne i.shared.input.tokens).1 = .error .endOfInput)
      (hlines : i.lines = []) : Reading i (.ok .eof) (i.prompted freshPrompt openPrompt)
  | uncut {i : Interpreter} {line : String} {lines : List String}
      (hend : (Datum.readOne i.shared.input.tokens).1 = .error .endOfInput)
      (hlines : i.lines = line :: lines) (hcut : Token.isCut line = false) :
      Reading i (.error (.plain .literalMissing))
        { i.prompted freshPrompt openPrompt with lines := lines }
  | line {i j : Interpreter} {line : String} {lines : List String} {given : Except Failure Value}
      (hend : (Datum.readOne i.shared.input.tokens).1 = .error .endOfInput)
      (hlines : i.lines = line :: lines) (hcut : Token.isCut line = true)
      (h : Reading (i.fed freshPrompt openPrompt line lines) given j) : Reading i given j

variable {freshPrompt openPrompt}

theorem exists_reading_of_decided
    (hdecided : (Datum.readOne i.shared.input.tokens).1 ≠ .error .endOfInput) :
    ∃ given j, i.readExpression freshPrompt openPrompt = (given.mapError .failure, j) ∧
      Reading freshPrompt openPrompt i given j := by
  rcases hone : Datum.readOne i.shared.input.tokens with ⟨fault | d, rest⟩
  · have hfault : fault ≠ .endOfInput := by
      rintro rfl
      exact hdecided (by rw [hone])
    exact ⟨_, _, readExpression_of_wrong hone hfault, .wrong hone hfault⟩
  · exact ⟨_, _, readExpression_of_datum hone, .datum hone⟩

/-- A reading comes to one of these. -/
theorem exists_reading (freshPrompt openPrompt : String) (i : Interpreter) :
    ∃ given j, i.readExpression freshPrompt openPrompt = (given.mapError .failure, j) ∧
      Reading freshPrompt openPrompt i given j := by
  obtain ⟨sh, lines⟩ := i
  -- each line that is taken leaves fewer lines to come
  induction lines generalizing sh with
  | nil =>
      by_cases hend : (Datum.readOne sh.input.tokens).1 = .error .endOfInput
      · exact ⟨_, _, readExpression_of_no_line hend rfl, .ended hend rfl⟩
      · exact exists_reading_of_decided hend
  | cons line lines ih =>
      by_cases hend : (Datum.readOne sh.input.tokens).1 = .error .endOfInput
      · cases hcut : Token.isCut line with
        | false => exact ⟨_, _, readExpression_of_uncut hend rfl hcut, .uncut hend rfl hcut⟩
        | true =>
            obtain ⟨given, j, hread, hreading⟩ :=
              ih (fed freshPrompt openPrompt line lines ⟨sh, line :: lines⟩).shared
            exact ⟨given, j, (readExpression_of_line hend rfl hcut).trans hread,
              .line hend rfl hcut hreading⟩
      · exact exists_reading_of_decided hend

/-! ## Every reading uses something up -/

/-- How many lines are to come, and how many tokens are left of those before. -/
def supplies (i : Interpreter) : Nat × Nat :=
  (i.lines.length, i.shared.input.tokens.length)

/-- There are fewer lines to come, or as many and fewer tokens left. -/
def Less (j i : Interpreter) : Prop :=
  j.supplies.1 < i.supplies.1 ∨ j.supplies.1 = i.supplies.1 ∧ j.supplies.2 < i.supplies.2

/-- There are fewer lines to come, or as many and not more tokens left. -/
def NoMore (j i : Interpreter) : Prop :=
  j.supplies.1 < i.supplies.1 ∨ j.supplies.1 = i.supplies.1 ∧ j.supplies.2 ≤ i.supplies.2

theorem less_wf : WellFounded Less :=
  Subrelation.wf (fun h => Prod.lex_def.mpr h) (InvImage.wf supplies WellFoundedRelation.wf)

theorem NoMore.refl (i : Interpreter) : NoMore i i :=
  .inr ⟨rfl, Nat.le_refl _⟩

theorem NoMore.trans {i j k : Interpreter} (h : NoMore k j) (h' : NoMore j i) : NoMore k i := by
  unfold NoMore at *
  omega

theorem NoMore.less {i j k : Interpreter} (h : NoMore k j) (h' : Less j i) : Less k i := by
  unfold NoMore Less at *
  omega

theorem less_of_lines {i j : Interpreter} {line : String} {lines : List String}
    (hlines : i.lines = line :: lines) (h : j.lines.length ≤ lines.length) : Less j i := by
  refine .inl ?_
  simp only [supplies, hlines, List.length_cons]
  omega

/-- A reading that does not come to the end of the input uses up a line or a token. -/
theorem Reading.less {j : Interpreter} {given : Except Failure Value}
    (h : Reading freshPrompt openPrompt i given j) (hgiven : given ≠ .ok .eof) : Less j i := by
  induction h with
  | datum hone => exact .inr ⟨rfl, Datum.length_lt_of_readOne hone⟩
  | @wrong i fault rest hone hfault =>
      have hsome : i.shared.input.tokens ≠ [] := by
        intro hnil
        rw [hnil] at hone
        exact hfault (Except.error.inj (congrArg Prod.fst hone)).symm
      exact .inr ⟨rfl, List.length_pos_iff.mpr hsome⟩
  | ended => exact absurd rfl hgiven
  | uncut hend hlines => exact less_of_lines hlines (Nat.le_refl _)
  | line hend hlines hcut _ ih =>
      have hless := ih hgiven
      exact less_of_lines hlines (hless.elim Nat.le_of_lt fun heq => Nat.le_of_eq heq.1)

end Interpreter

end SchemeMachine
