import SchemeMachine.Machine.InputBuffer
import SchemeMachine.Proofs.Reading.Data
import SchemeMachine.Proofs.Reading.Tokens

/-!
# Reading while the text is typed

A buffer is given a text at a time and asked for a datum at a time, in any order.  A
reading that runs out of tokens is put off and tried again from its beginning once
more has been typed.  None of this shows in what is read: up to the first syntax error
the data are those at the front of all the texts, joined by newlines, and the buffer
holds the tokens behind them.

`Move` is what may be done with a buffer and `Performs` says once what a move can
come to.  The invariant is `Holds`; `Holds.perform` and `Holds.play` carry it over a
move and over a list of moves.
-/

namespace SchemeMachine.InputBuffer

/-! ## Moves -/

/-- What may be done with a buffer. -/
inductive Move where
  | feed (text : String)
  | read (freshPrompt openPrompt : String)
  | supply (line : Option String) (freshPrompt openPrompt : String)
  /-- Answer a request for a line, which may have been answered before. -/
  | resume (request : LineRequest) (answer : Option String)

/-- What a move gives: a fault, or an answer, or nothing if only a text was added. -/
abbrev Response := Except Fault (Option Answer)

/-- Make a move. -/
def Move.perform (move : Move) (buffer : InputBuffer) : Response × InputBuffer :=
  match move with
  | feed text =>
    match buffer.feed text with
    | .error fault => (.error fault, buffer)
    | .ok fed => (.ok none, fed)
  | read freshPrompt openPrompt =>
    let (result, buffer) := buffer.read freshPrompt openPrompt
    (result.map some, buffer)
  | supply line freshPrompt openPrompt =>
    let (result, buffer) := buffer.supply line freshPrompt openPrompt
    (result.map some, buffer)
  | resume request answer =>
    let (result, buffer) := buffer.supply answer request.freshPrompt request.openPrompt
    (result.map some, buffer)

/-- Make moves one after another. -/
def play : List Move → InputBuffer → List Response × InputBuffer
  | [], buffer => ([], buffer)
  | move :: moves, buffer =>
    let (response, buffer) := move.perform buffer
    let (responses, buffer) := play moves buffer
    (response :: responses, buffer)

/-- The text that comes with a move. -/
def Move.text? : Move → Option String
  | feed text => some text
  | read .. => none
  | supply line .. => line
  | resume _ answer => answer

/-- The text that a move adds to the buffer.  One that cannot be cut into tokens is not
added. -/
def Move.added (move : Move) : List String :=
  move.text?.toList.filter Token.isCut

/-- The tokens that a move adds to the buffer. -/
def Move.newTokens (move : Move) : List Token :=
  move.added.flatMap Token.ofCut

/-- All that some moves add to the buffer, joined by newlines. -/
def typed (moves : List Move) : String :=
  "\n".intercalate (moves.flatMap Move.added)

namespace Response

/-- The datum that was read, if one was. -/
def datum? : Response → Option Datum
  | .ok (some (.datum d)) => some d
  | _ => none

/-- The move has met a syntax error. -/
def IsSyntaxError : Response → Prop
  | .error fault => fault.IsSyntaxError
  | .ok _ => False

instance : (response : Response) → Decidable response.IsSyntaxError
  | .error fault => inferInstanceAs (Decidable fault.IsSyntaxError)
  | .ok _ => inferInstanceAs (Decidable False)

/-- Nothing was read: a line is asked for, the input has ended, or a text could not be
cut into tokens. -/
def IsIdle : Response → Prop
  | .ok (some (.awaiting _)) | .ok (some .endOfFile) | .error .literalMissing => True
  | _ => False

end Response

/-- The data that were read by some moves. -/
def given (responses : List Response) : List Datum :=
  responses.filterMap Response.datum?

/-! ## What a move can come to -/

/-- What a move can come to.  Whatever it reads, it reads from the tokens that were
there followed by those that it adds. -/
inductive Performs (move : Move) (buffer : InputBuffer) : Response → InputBuffer → Prop
  | added : Performs move buffer (.ok none) ⟨buffer.tokens ++ move.newTokens⟩
  | uncut (hnone : move.newTokens = []) : Performs move buffer (.error .literalMissing) buffer
  | ended (hnone : move.newTokens = []) : Performs move buffer (.ok (some .endOfFile)) buffer
  | awaiting (request : LineRequest) :
      Performs move buffer (.ok (some (.awaiting request))) ⟨buffer.tokens ++ move.newTokens⟩
  | datum {d : Datum} {rest : List Token}
      (hread : Datum.readOne (buffer.tokens ++ move.newTokens) = (.ok d, rest)) :
      Performs move buffer (.ok (some (.datum d))) ⟨rest⟩
  | wrong {fault : Fault} {rest : List Token}
      (hread : Datum.readOne (buffer.tokens ++ move.newTokens) = (.error fault, rest))
      (hmalformed : fault.IsSyntaxError) : Performs move buffer (.error fault) empty

theorem feed_of_isCut {text : String} (h : Token.isCut text = true) (buffer : InputBuffer) :
    buffer.feed text = .ok ⟨buffer.tokens ++ Token.ofCut text⟩ := by
  rw [feed, Token.ofText_of_isCut h]
  rfl

theorem feed_of_not_isCut {text : String} (h : Token.isCut text = false) (buffer : InputBuffer) :
    buffer.feed text = .error .literalMissing := by
  rw [feed, Token.ofText_of_not_isCut h]
  rfl

theorem performs_read {move : Move} {buffer fed : InputBuffer}
    (hfed : fed.tokens = buffer.tokens ++ move.newTokens) (freshPrompt openPrompt : String) :
    Performs move buffer ((fed.read freshPrompt openPrompt).1.map some)
      (fed.read freshPrompt openPrompt).2 := by
  obtain ⟨tokens⟩ := fed
  cases hfed
  unfold read
  cases hread : Datum.readOne (buffer.tokens ++ move.newTokens) with
  | mk result rest =>
      cases result with
      | ok d => exact .datum hread
      | error fault =>
          rcases Datum.readFrom_fault hread with rfl | hmalformed
          · exact .awaiting _
          · have hwrong : Performs move buffer (.error fault) empty := .wrong hread hmalformed
            cases fault with
            | endOfInput => exact absurd hmalformed (by decide)
            | _ => exact hwrong

theorem performs_supply {move : Move} {line : Option String} (hline : move.text? = line)
    (buffer : InputBuffer) (freshPrompt openPrompt : String) :
    Performs move buffer ((buffer.supply line freshPrompt openPrompt).1.map some)
      (buffer.supply line freshPrompt openPrompt).2 := by
  cases line with
  | none => exact .ended (by rw [Move.newTokens, Move.added, hline]; rfl)
  | some text =>
      cases hcut : Token.isCut text with
      | false =>
          rw [supply, feed_of_not_isCut hcut]
          exact .uncut (by simp [Move.newTokens, Move.added, hline, hcut])
      | true =>
          rw [supply, feed_of_isCut hcut]
          exact performs_read (by simp [Move.newTokens, Move.added, hline, hcut]) _ _

/-- There is nothing else a move can come to. -/
theorem performs_perform (move : Move) (buffer : InputBuffer) :
    Performs move buffer (move.perform buffer).1 (move.perform buffer).2 := by
  cases move with
  | feed text =>
      cases hcut : Token.isCut text with
      | false =>
          rw [Move.perform, feed_of_not_isCut hcut]
          exact .uncut (by simp [Move.newTokens, Move.added, Move.text?, hcut])
      | true =>
          have htokens : (Move.feed text).newTokens = Token.ofCut text := by
            simp [Move.newTokens, Move.added, Move.text?, hcut]
          rw [Move.perform, feed_of_isCut hcut, ← htokens]
          exact .added
  | read freshPrompt openPrompt => exact performs_read (List.append_nil _).symm _ _
  | supply line freshPrompt openPrompt => exact performs_supply rfl buffer _ _
  | resume request answer => exact performs_supply rfl buffer _ _

/-! ## What a buffer holds -/

/-- After these data have been read from these texts, one to a line, the tokens that
are left are in the buffer. -/
structure Holds (buffer : InputBuffer) (texts : List String) (data : List Datum) : Prop where
  cut : ∀ text ∈ texts, Token.isCut text = true
  reads : Datum.ReadsTo (texts.flatMap Token.ofCut) data buffer.tokens

namespace Holds

variable {buffer next : InputBuffer} {texts : List String} {data : List Datum}

theorem ofText (h : Holds buffer texts data) :
    Token.ofText ("\n".intercalate texts) = .ok (texts.flatMap Token.ofCut) :=
  Token.ofText_joined h.cut

theorem allOfText (h : Holds buffer texts data) :
    Datum.allOfText ("\n".intercalate texts) = Datum.readAll (texts.flatMap Token.ofCut) := by
  rw [Datum.allOfText, h.ofText]

/-- The text that comes with a move lies behind what is there. -/
theorem add (h : Holds buffer texts data) (move : Move) :
    Holds ⟨buffer.tokens ++ move.newTokens⟩ (texts ++ move.added) data := by
  refine ⟨fun text hmem => ?_, ?_⟩
  · rcases List.mem_append.mp hmem with hold | hnew
    · exact h.cut text hold
    · exact (List.mem_filter.mp hnew).2
  · rw [List.flatMap_append]
    exact h.reads.append _

/-- A move without a syntax error reads the next datum or none. -/
theorem perform (h : Holds buffer texts data) (move : Move) {response : Response}
    (hmove : Performs move buffer response next) (hfine : ¬ response.IsSyntaxError) :
    Holds next (texts ++ move.added) (data ++ response.datum?.toList) := by
  have hadd := h.add move
  cases hmove with
  | added => simpa [Response.datum?] using hadd
  | uncut hnone => simpa [Response.datum?, hnone] using hadd
  | ended hnone => simpa [Response.datum?, hnone] using hadd
  | awaiting request => simpa [Response.datum?] using hadd
  | datum hread => exact ⟨hadd.cut, hadd.reads.snoc hread⟩
  | wrong hread hmalformed => exact absurd hmalformed hfine

theorem play (h : Holds buffer texts data) (moves : List Move)
    (hfine : ∀ response ∈ (InputBuffer.play moves buffer).1, ¬ response.IsSyntaxError) :
    Holds (InputBuffer.play moves buffer).2 (texts ++ moves.flatMap Move.added)
      (data ++ given (InputBuffer.play moves buffer).1) := by
  induction moves generalizing buffer texts data with
  | nil => simpa [InputBuffer.play, given] using h
  | cons move moves ih =>
      simp only [InputBuffer.play] at hfine ⊢
      obtain ⟨hfirst, hothers⟩ := List.forall_mem_cons.mp hfine
      have hnext := ih (h.perform move (performs_perform move buffer) hfirst) hothers
      have hgiven : given ((move.perform buffer).1 :: (InputBuffer.play moves
          (move.perform buffer).2).1) = (move.perform buffer).1.datum?.toList ++
            given (InputBuffer.play moves (move.perform buffer).2).1 := by
        rw [given, List.filterMap_cons]
        cases (move.perform buffer).1.datum? <;> rfl
      rw [List.flatMap_cons, hgiven, ← List.append_assoc, ← List.append_assoc]
      exact hnext

/-- Reading everything meets the fault that a move has met, after the same data. -/
theorem allOfText_of_wrong (h : Holds buffer texts data) (move : Move) {fault : Fault}
    {rest : List Token}
    (hread : Datum.readOne (buffer.tokens ++ move.newTokens) = (.error fault, rest))
    (hmalformed : fault.IsSyntaxError) :
    Datum.allOfText ("\n".intercalate (texts ++ move.added)) = (data, some fault) := by
  have hsome : buffer.tokens ++ move.newTokens ≠ [] := by
    intro hnil
    rw [hnil] at hread
    cases hread
    exact absurd hmalformed (by decide)
  rw [(h.add move).allOfText]
  exact (h.add move).reads.readAll_of_fault hread hsome

end Holds

/-- **Interactive reading agrees with reading the whole text.**  However a text is typed
and read, up to the first syntax error the data that were read are the first ones of the
whole text, and the buffer holds the tokens that are left.  A move that reads nothing
takes no token, and one that meets a syntax error drops them all and has met what reading
the whole text meets there. -/
theorem interactive_reading_agrees_with_batch (moves : List Move)
    (hfine : ∀ response ∈ (play moves empty).1, ¬ response.IsSyntaxError) :
    (∃ tokens, Token.ofText (typed moves) = .ok tokens ∧
      given (play moves empty).1 <+: (Datum.allOfText (typed moves)).1 ∧
      (play moves empty).2.tokens = Datum.left (given (play moves empty).1).length tokens) ∧
    ∀ (move : Move) (response : Response) (next : InputBuffer),
      move.perform (play moves empty).2 = (response, next) →
        (response.IsIdle → next.tokens = (play moves empty).2.tokens ++ move.newTokens) ∧
        ∀ fault, response = .error fault → fault.IsSyntaxError →
          next = empty ∧
            Datum.allOfText (typed (moves ++ [move])) =
              (given (play moves empty).1, some fault) := by
  have hstart : Holds empty [] [] := ⟨nofun, .nil _⟩
  have hholds := hstart.play moves hfine
  rw [List.nil_append, List.nil_append] at hholds
  refine ⟨⟨_, hholds.ofText, ?_, hholds.reads.left_eq.symm⟩, ?_⟩
  · rw [typed, hholds.allOfText, hholds.reads.readAll_eq]
    exact List.prefix_append _ _
  · intro move response next hmove
    have hperforms := performs_perform move (play moves empty).2
    rw [hmove] at hperforms
    dsimp only at hperforms
    constructor
    · intro hidle
      cases hperforms with
      | added => cases hidle
      | uncut hnone => rw [hnone, List.append_nil]
      | ended hnone => rw [hnone, List.append_nil]
      | awaiting request => rfl
      | datum hread => cases hidle
      | wrong hread hmalformed =>
          -- the only idle fault is no syntax error
          rename_i fault _
          cases fault with
          | literalMissing => exact absurd hmalformed (by decide)
          | _ => cases hidle
    · rintro fault rfl hmalformed
      cases hperforms with
      | uncut => exact absurd hmalformed (by decide)
      | wrong hread _ =>
          refine ⟨rfl, ?_⟩
          rw [typed, List.flatMap_append, List.flatMap_singleton]
          exact hholds.allOfText_of_wrong move hread hmalformed

/-- A list typed on two lines, the second of them the answer to a request, then a line
that cannot be cut, the end of the input, and a stray parenthesis, which ends the
reading of the whole text as well. -/
theorem interactive_reading_agrees_with_batch_of_list :
    ∃ (moves : List Move) (move : Move),
      (∀ response ∈ (play moves empty).1, ¬ response.IsSyntaxError) ∧
      typed (moves ++ [move]) = "(a\n\"b ;\") 'd\n)" ∧
      move.perform (play moves empty).2 = (.error .unexpectedClose, empty) ∧
      Datum.allOfText (typed (moves ++ [move])) =
        ([.ofList [.symbol "a", .string "b ;"] .nil, .quoted (.symbol "d")],
          some .unexpectedClose) := by
  let request : LineRequest := ⟨". ", "> ", ". "⟩
  let moves : List Move := [.feed "(a", .read "> " ". ", .resume request (some "\"b ;\") 'd"),
    .resume request (some "\x00"), .supply none "" "", .read "" ""]
  have hfine : ∀ response ∈ (play moves empty).1, ¬ response.IsSyntaxError := by decide +kernel
  have hmove : (Move.supply (some ")") "" "").perform (play moves empty).2 =
      (.error .unexpectedClose, empty) := rfl
  have hgiven : given (play moves empty).1 =
      [.ofList [.symbol "a", .string "b ;"] .nil, .quoted (.symbol "d")] := by decide +kernel
  obtain ⟨_, hnext⟩ := interactive_reading_agrees_with_batch moves hfine
  obtain ⟨_, hbatch⟩ := (hnext _ _ _ hmove).2 _ rfl rfl
  rw [hgiven] at hbatch
  exact ⟨moves, _, hfine, by decide +kernel, hmove, hbatch⟩

end SchemeMachine.InputBuffer
