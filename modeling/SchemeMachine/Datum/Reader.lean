import SchemeMachine.Datum.Basic
import SchemeMachine.Datum.Token
import SchemeMachine.Number.Literal

/-!
# Reading data from tokens

The reader takes one token after another and remembers what is still open: the
quote marks and lists that the datum to come stands in, innermost first.  When a
datum is complete it is placed into the innermost of these, which may complete
that one in turn.

A dot is special only where a list goes on.  At the top, after a quote mark, and
in the place of a dotted tail it is an ordinary symbol.

Lists and quote marks may be nested to any depth: a limit that a host sets to the depth of a
recursion is not part of the model.
-/

namespace SchemeMachine.Datum

/-- The datum a token other than a parenthesis or quote mark stands for. -/
def ofToken (token : Token) : Datum :=
  if token = "#t" then bool true
  else if token = "#f" then bool false
  else
    match token.toList with
    | '"' :: content => string (String.ofList content)
    | cs =>
      match Number.read? cs with
      | some n => number n
      | none => symbol token

/-- Something begun that the datum to come is part of. -/
inductive Opening where
  /-- A quote mark. -/
  | quote
  /-- A list, with the elements it has so far, last first. -/
  | list (items : List Datum)
  /-- A list whose dotted tail is to come. -/
  | tail (items : List Datum)

/-- How far the reading of a datum has come. -/
inductive Progress where
  /-- A datum is to come, inside these openings. -/
  | datum (within : List Opening)
  /-- The closing parenthesis of a dotted list is to come. -/
  | close (items : List Datum) (tail : Datum) (within : List Opening)

/-- Nothing read yet. -/
def Progress.start : Progress :=
  .datum []

/-- Place a complete datum into what was open around it.  Either it is the whole
datum, or there is more to come. -/
def place (d : Datum) : List Opening → Datum ⊕ Progress
  | [] => .inl d
  | .quote :: outer => place d.quoted outer
  | .list items :: outer => .inr (.datum (.list (d :: items) :: outer))
  | .tail items :: outer => .inr (.close items d outer)

/-- Take one token. -/
def Progress.take : Progress → Token → Except Fault (Datum ⊕ Progress)
  | .close items tail outer, token =>
    if token = ")" then .ok (place (ofList items.reverse tail) outer) else .error .closeExpected
  | .datum outer, token =>
    if token = "(" then .ok (.inr (.datum (.list [] :: outer)))
    else if token = "'" then .ok (.inr (.datum (.quote :: outer)))
    else
      match outer with
      | .list items :: outside =>
        if token = ")" then .ok (place (ofList items.reverse nil) outside)
        else if token = "." then
          if items.isEmpty then .error .unexpectedDot
          else .ok (.inr (.datum (.tail items :: outside)))
        else .ok (place (ofToken token) outer)
      | _ => if token = ")" then .error .unexpectedClose else .ok (place (ofToken token) outer)

/-- Go on reading one datum.  The second component is what is left of the
tokens.  The token that raises a fault is used up, except that a token in the
place of a closing parenthesis stays. -/
def readFrom : Progress → List Token → Except Fault Datum × List Token
  | _, [] => (.error .endOfInput, [])
  | progress, token :: tokens =>
    match progress.take token with
    | .ok (.inl d) => (.ok d, tokens)
    | .ok (.inr further) => readFrom further tokens
    | .error .closeExpected => (.error .closeExpected, token :: tokens)
    | .error fault => (.error fault, tokens)

/-- Read one datum from the front of the tokens. -/
def readOne (tokens : List Token) : Except Fault Datum × List Token :=
  readFrom .start tokens

/-- Go on reading data up to the end of the tokens or to the first fault. -/
def readAllFrom : Progress → List Token → List Datum × Option Fault
  | .datum [], [] => ([], none)
  | _, [] => ([], some .endOfInput)
  | progress, token :: tokens =>
    match progress.take token with
    | .ok (.inl d) =>
      let rest := readAllFrom .start tokens
      (d :: rest.1, rest.2)
    | .ok (.inr further) => readAllFrom further tokens
    | .error fault => ([], some fault)

/-- All the data that some tokens hold, and the fault that ended the reading if
it did not come to the end of the tokens. -/
def readAll (tokens : List Token) : List Datum × Option Fault :=
  readAllFrom .start tokens

/-- A token that does not complete a datum leaves something open. -/
private theorem place_ne_start (d : Datum) (outer : List Opening) :
    place d outer ≠ .inr .start := by
  induction outer generalizing d with
  | nil => simp [place]
  | cons opening outer ih =>
    cases opening with
    | quote => exact ih d.quoted
    | list items => simp [place, Progress.start]
    | tail items => simp [place, Progress.start]

private theorem take_ne_start (progress : Progress) (token : Token) :
    progress.take token ≠ .ok (.inr .start) := by
  have hplace (d : Datum) (outer : List Opening) :
      (.ok (place d outer) : Except Fault (Datum ⊕ Progress)) ≠ .ok (.inr .start) :=
    fun h => place_ne_start d outer (Except.ok.inj h)
  cases progress with
  | close items tail outer =>
    rw [Progress.take]
    split
    · exact hplace _ _
    · exact nofun
  | datum outer =>
    unfold Progress.take
    dsimp only
    split
    · simp [Progress.start]
    split
    · simp [Progress.start]
    split
    · split
      · exact hplace _ _
      split
      · split <;> simp [Progress.start]
      · exact hplace _ _
    · split
      · exact nofun
      · exact hplace _ _

/-- Only a reading that has nothing open may end where the tokens end. -/
private theorem readAllFrom_nil {progress : Progress} (h : progress ≠ .start) :
    readAllFrom progress [] = ([], some .endOfInput) := by
  cases progress with
  | close => rfl
  | datum outer =>
    cases outer with
    | nil => exact absurd rfl h
    | cons => rfl

private theorem readAllFrom_cons (progress : Progress) (token : Token) (tokens : List Token) :
    readAllFrom progress (token :: tokens) =
      match readFrom progress (token :: tokens) with
      | (.ok d, rest) => (d :: (readAll rest).1, (readAll rest).2)
      | (.error fault, _) => ([], some fault) := by
  induction tokens generalizing progress token with
  | nil =>
    rw [readAllFrom, readFrom]
    cases htake : progress.take token with
    | error fault => cases fault <;> rfl
    | ok result =>
      cases result with
      | inl d => rfl
      | inr further =>
        have hopen : further ≠ .start := fun h => take_ne_start progress token (h ▸ htake)
        simp only [readAllFrom_nil hopen, readFrom]
  | cons next tokens ih =>
    rw [readAllFrom, readFrom]
    cases progress.take token with
    | error fault => cases fault <;> rfl
    | ok result =>
      cases result with
      | inl d => rfl
      | inr further => exact ih further next

/-- Reading everything is reading one datum after another. -/
theorem readAll_cons (token : Token) (tokens : List Token) :
    readAll (token :: tokens) =
      match readOne (token :: tokens) with
      | (.ok d, rest) => (d :: (readAll rest).1, (readAll rest).2)
      | (.error fault, _) => ([], some fault) :=
  readAllFrom_cons .start token tokens

/-- The first datum of a text. -/
def ofText (text : String) : Except Fault Datum :=
  match Token.ofText text with
  | .error fault => .error fault
  | .ok tokens => (readOne tokens).1

/-- All the data of a text. -/
def allOfText (text : String) : List Datum × Option Fault :=
  match Token.ofText text with
  | .error fault => ([], some fault)
  | .ok tokens => readAll tokens

end SchemeMachine.Datum
