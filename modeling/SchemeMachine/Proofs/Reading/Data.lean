import SchemeMachine.Datum.Reader

/-!
# Reading a beginning of the tokens

The reader looks at one token at a time and never ahead, so what it has found in a
beginning of the tokens stays found whatever comes after: a datum that is complete is
read from more tokens too and leaves the others behind it, and a syntax error stays
the same error.  Only a reading that ran out of tokens is still open.

`ReadsTo tokens data rest` says that reading one datum after another gives `data` and
leaves `rest`.
-/

namespace SchemeMachine

/-- The fault belongs to the class of malformed texts and forms. -/
def Fault.IsSyntaxError (fault : Fault) : Prop :=
  fault.label = "SchemeSyntaxError"

instance (fault : Fault) : Decidable fault.IsSyntaxError :=
  inferInstanceAs (Decidable (_ = _))

namespace Datum

/-! ## One datum -/

theorem Progress.isSyntaxError_of_take {progress : Progress} {token : Token} {fault : Fault}
    (h : progress.take token = .error fault) : fault.IsSyntaxError := by
  unfold Progress.take at h
  repeat' split at h
  all_goals cases h
  all_goals rfl

theorem readFrom_fault {progress : Progress} {tokens rest : List Token} {fault : Fault}
    (h : readFrom progress tokens = (.error fault, rest)) :
    fault = .endOfInput ∨ fault.IsSyntaxError := by
  induction tokens generalizing progress with
  | nil =>
      cases h
      exact .inl rfl
  | cons token tokens ih =>
      rw [readFrom] at h
      cases htake : progress.take token with
      | error found =>
          have hmalformed := Progress.isSyntaxError_of_take htake
          have hfault : fault = found := by
            rw [htake] at h
            cases found <;> exact (Except.error.inj (Prod.mk.inj h).1).symm
          exact .inr (hfault ▸ hmalformed)
      | ok result =>
          rw [htake] at h
          cases result with
          | inl d => cases h
          | inr further => exact ih h

theorem readAllFrom_fault {progress : Progress} {tokens : List Token} {fault : Fault}
    (h : (readAllFrom progress tokens).2 = some fault) :
    fault = .endOfInput ∨ fault.IsSyntaxError := by
  induction tokens generalizing progress with
  | nil =>
      unfold readAllFrom at h
      split at h
      · cases h
      · cases h
        exact .inl rfl
      · next hcons => cases hcons
  | cons token tokens ih =>
      rw [readAllFrom] at h
      cases htake : progress.take token with
      | error found =>
          rw [htake] at h
          cases h
          exact .inr (Progress.isSyntaxError_of_take htake)
      | ok result =>
          rw [htake] at h
          cases result with
          | inl d => exact ih h
          | inr further => exact ih h

theorem readFrom_append {progress : Progress} {tokens rest : List Token}
    {result : Except Fault Datum} (h : readFrom progress tokens = (result, rest))
    (hdecided : result ≠ .error .endOfInput) (more : List Token) :
    readFrom progress (tokens ++ more) = (result, rest ++ more) := by
  induction tokens generalizing progress with
  | nil =>
      cases h
      exact absurd rfl hdecided
  | cons token tokens ih =>
      rw [readFrom] at h
      rw [List.cons_append, readFrom]
      cases htake : progress.take token with
      | error fault =>
          rw [htake] at h
          cases fault <;> cases h <;> rfl
      | ok taken =>
          rw [htake] at h
          cases taken with
          | inl d =>
              cases h
              rfl
          | inr further => exact ih h

/-- What was decided by the first tokens stays decided. -/
theorem readOne_append {tokens rest : List Token} {result : Except Fault Datum}
    (h : readOne tokens = (result, rest)) (hdecided : result ≠ .error .endOfInput)
    (more : List Token) : readOne (tokens ++ more) = (result, rest ++ more) :=
  readFrom_append h hdecided more

/-- Go on after a datum has been placed into what was open around it. -/
def resume : Datum ⊕ Progress → List Token → Except Fault Datum × List Token
  | .inl d, rest => (.ok d, rest)
  | .inr progress, rest => readFrom progress rest

theorem readFrom_cons {progress : Progress} {token : Token} {result : Datum ⊕ Progress}
    (h : progress.take token = .ok result) (rest : List Token) :
    readFrom progress (token :: rest) = resume result rest := by
  rw [readFrom, h]
  cases result <;> rfl

/-- The datum to come is not the next element of a list. -/
def OutOfList (outer : List Opening) : Prop :=
  ∀ items outside, outer ≠ .list items :: outside

theorem outOfList_quote (outer : List Opening) : OutOfList (.quote :: outer) := by
  rintro items outside ⟨⟩

theorem outOfList_tail (items : List Datum) (outer : List Opening) :
    OutOfList (.tail items :: outer) := by
  rintro others outside ⟨⟩

/-- A token that is no parenthesis and no quote mark stands for a datum, and a dot does so
out of a list. -/
theorem take_ofToken {token : Token} {outer : List Opening} (hopen : token ≠ "(")
    (hclose : token ≠ ")") (hquote : token ≠ "'") (hdot : token ≠ "." ∨ OutOfList outer) :
    (Progress.datum outer).take token = .ok (place (ofToken token) outer) := by
  unfold Progress.take
  dsimp only
  rw [if_neg hopen, if_neg hquote]
  split
  · next items outside =>
      have hne : token ≠ "." := hdot.resolve_right fun hout => hout items outside rfl
      rw [if_neg hclose, if_neg hne]
  · rw [if_neg hclose]

theorem take_open (outer : List Opening) :
    (Progress.datum outer).take "(" = .ok (.inr (.datum (.list [] :: outer))) :=
  rfl

theorem take_quote (outer : List Opening) :
    (Progress.datum outer).take "'" = .ok (.inr (.datum (.quote :: outer))) :=
  rfl

theorem take_close (items : List Datum) (outer : List Opening) :
    (Progress.datum (.list items :: outer)).take ")" =
      .ok (place (ofList items.reverse nil) outer) :=
  rfl

theorem take_close_tail (items : List Datum) (tail : Datum) (outer : List Opening) :
    (Progress.close items tail outer).take ")" = .ok (place (ofList items.reverse tail) outer) :=
  rfl

theorem take_dot {items : List Datum} (hsome : items ≠ []) (outer : List Opening) :
    (Progress.datum (.list items :: outer)).take "." =
      .ok (.inr (.datum (.tail items :: outer))) := by
  have hfalse : items.isEmpty = false := List.isEmpty_eq_false_iff.mpr hsome
  simp [Progress.take, hfalse]

/-! ## One datum after another -/

/-- Reading one datum after another gives these data and leaves these tokens. -/
inductive ReadsTo : List Token → List Datum → List Token → Prop
  | nil (tokens : List Token) : ReadsTo tokens [] tokens
  | cons {tokens between rest : List Token} {d : Datum} {data : List Datum}
      (hfirst : readOne tokens = (.ok d, between)) (h : ReadsTo between data rest) :
      ReadsTo tokens (d :: data) rest

/-- The tokens that are left after so many data have been read. -/
def left : Nat → List Token → List Token
  | 0, tokens => tokens
  | n + 1, tokens => left n (readOne tokens).2

namespace ReadsTo

variable {tokens rest : List Token} {data : List Datum}

theorem append (h : ReadsTo tokens data rest) (more : List Token) :
    ReadsTo (tokens ++ more) data (rest ++ more) := by
  induction h with
  | nil tokens => exact .nil _
  | cons hfirst _ ih => exact .cons (readOne_append hfirst nofun more) ih

theorem snoc {d : Datum} {last : List Token} (h : ReadsTo tokens data rest)
    (hlast : readOne rest = (.ok d, last)) : ReadsTo tokens (data ++ [d]) last := by
  induction h with
  | nil tokens => exact .cons hlast (.nil _)
  | cons hfirst _ ih => exact .cons hfirst (ih hlast)

/-- Reading everything goes on where the reading of the first data stopped. -/
theorem readAll_eq (h : ReadsTo tokens data rest) :
    readAll tokens = (data ++ (readAll rest).1, (readAll rest).2) := by
  induction h with
  | nil tokens => rfl
  | @cons tokens between rest d data hfirst h ih =>
      cases tokens with
      | nil => cases hfirst
      | cons token tokens =>
          rw [readAll_cons, hfirst]
          simp only [ih, List.cons_append]

theorem left_eq (h : ReadsTo tokens data rest) : left data.length tokens = rest := by
  induction h with
  | nil tokens => rfl
  | cons hfirst _ ih => rwa [List.length_cons, left, hfirst]

/-- A fault at what is left is the fault that ends the whole reading. -/
theorem readAll_of_fault {fault : Fault} {last : List Token} (h : ReadsTo tokens data rest)
    (hfault : readOne rest = (.error fault, last)) (hsome : rest ≠ []) :
    readAll tokens = (data, some fault) := by
  rw [h.readAll_eq]
  cases rest with
  | nil => exact absurd rfl hsome
  | cons token rest =>
      rw [readAll_cons, hfault, List.append_nil]

end ReadsTo

end Datum

end SchemeMachine
