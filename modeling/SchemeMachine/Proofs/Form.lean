import SchemeMachine.Machine.Reduce

/-!
# Expressions as forms

An expression is a value, and which form of the language it is can be read off
its outermost pairs.  `Form.of` does that and nothing else, so that the rules of
the natural semantics can speak of tests, bodies and operands.

`Config.reduce_eq` gives the machine's view of the same forms.
-/

namespace SchemeMachine

/-- The forms of expressions. -/
inductive Form where
  /-- Anything that stands for itself. -/
  | constant (value : Value)
  | symbol (name : String)
  | quotation (datum : Value)
  | branch (test yes : Value) (no : Option Value)
  /-- `begin`, with a chain of expressions that need not be a proper list. -/
  | sequence (expressions : Value)
  | lambda (parameters body : Value)
  /-- `define` with a list of a name and parameters. -/
  | procedure (name parameters body : Value)
  /-- `define` with a name. -/
  | definition (name expression : Value)
  | assignment (name expression : Value)
  /-- A keyword with the wrong operands. -/
  | malformed
  | application (operator operands : Value)

namespace Form

/-- The form that a keyword makes of its operands. -/
def special : Keyword → Value → Form
  | .quote, .pair _ datum .nil => quotation datum
  | .branch, .pair _ test (.pair _ yes .nil) => branch test yes none
  | .branch, .pair _ test (.pair _ yes (.pair _ no .nil)) => branch test yes (some no)
  | .sequence, expressions => sequence expressions
  | .lambda, .pair _ parameters body => if body.isBody then lambda parameters body else malformed
  | .define, .pair _ (.pair _ name parameters) body =>
    if body.isBody then procedure name parameters body else malformed
  | .define, .pair _ name (.pair _ expression .nil) => definition name expression
  | .assign, .pair _ name (.pair _ expression .nil) => assignment name expression
  | _, _ => malformed

/-- The form of an expression. -/
def of : Value → Form
  | .symbol name => symbol name
  | .pair _ head operands =>
    match Keyword.of? head with
    | some keyword => special keyword operands
    | none => application head operands
  | value => constant value

end Form

/-- The first element of a chain. -/
def Value.head : Value → Value
  | .pair _ head _ => head
  | other => other

/-- What follows the first two elements of a chain. -/
def Value.afterSecond : Value → Value
  | .pair _ _ (.pair _ _ rest) => rest
  | other => other

namespace Form

/-- The expression is built as the form says. -/
def Shape (e : Value) : Form → Prop
  | constant value => value = e
  | symbol name => e = .symbol name
  | quotation datum => ∃ stamp head i, e = .pair stamp head (.pair i datum .nil)
  | branch test yes none =>
    ∃ stamp head i j, e = .pair stamp head (.pair i test (.pair j yes .nil))
  | branch test yes (some no) =>
    ∃ stamp head i j k, e = .pair stamp head (.pair i test (.pair j yes (.pair k no .nil)))
  | sequence expressions => ∃ stamp head, e = .pair stamp head expressions
  | lambda parameters body => ∃ stamp head i, e = .pair stamp head (.pair i parameters body)
  | procedure name parameters body =>
    ∃ stamp head i j, e = .pair stamp head (.pair i (.pair j name parameters) body)
  | definition name expression | assignment name expression =>
    ∃ stamp head i j, e = .pair stamp head (.pair i name (.pair j expression .nil))
  | malformed => ∃ stamp head operands, e = .pair stamp head operands
  | application operator operands => ∃ stamp, e = .pair stamp operator operands

theorem shape_special (keyword : Keyword) (stamp : Nat) (head operands : Value) :
    (special keyword operands).Shape (.pair stamp head operands) := by
  unfold special
  split
  case h_1 => exact ⟨_, _, _, rfl⟩
  case h_2 => exact ⟨_, _, _, _, rfl⟩
  case h_3 => exact ⟨_, _, _, _, _, rfl⟩
  case h_4 => exact ⟨_, _, rfl⟩
  case h_5 =>
      split
      · exact ⟨_, _, _, rfl⟩
      · exact ⟨_, _, _, rfl⟩
  case h_6 =>
      split
      · exact ⟨_, _, _, _, rfl⟩
      · exact ⟨_, _, _, rfl⟩
  case h_7 => exact ⟨_, _, _, _, rfl⟩
  case h_8 => exact ⟨_, _, _, _, rfl⟩
  case h_9 => exact ⟨_, _, _, rfl⟩

theorem shape_of (e : Value) : (Form.of e).Shape e := by
  cases e with
  | pair stamp head operands =>
      rw [Form.of]
      split
      · exact shape_special _ stamp head operands
      · exact ⟨stamp, rfl⟩
  | _ => rfl

/-- An `if` is a list of a test and one or two arms. -/
theorem afterSecond_of_branch {e test yes : Value} {no : Option Value}
    (form : Form.of e = .branch test yes no) :
    (no = none ∧ ∃ stamp, e.afterSecond = .pair stamp yes .nil) ∨
      ∃ x stamp inner, no = some x ∧ e.afterSecond = .pair stamp yes (.pair inner x .nil) := by
  have hshape := shape_of e
  rw [form] at hshape
  cases no with
  | none =>
      obtain ⟨_, _, _, j, rfl⟩ := hshape
      exact .inl ⟨rfl, j, rfl⟩
  | some x =>
      obtain ⟨_, _, _, j, k, rfl⟩ := hshape
      exact .inr ⟨x, j, k, rfl, rfl⟩

/-- The form makes a closure of these parameters and this body. -/
inductive Makes : Form → Value → Value → Prop
  | lambda (parameters body : Value) : Makes (lambda parameters body) parameters body
  | procedure (name parameters body : Value) :
      Makes (procedure name parameters body) parameters body

end Form

namespace Config

/-! ## The machine goes by the form -/

/-- What reducing a form leads to. -/
def reduceAs [Saving] (c : Config) (e : Value) : Form → Transition
  | .constant v => c.toDrain v
  | .symbol name =>
    match c.store.find? name c.env with
    | some (_, v) => c.toDrain v
    | none => .failed (.unbound name) c
  | .quotation datum => c.toDrain datum
  | .branch test _ _ => (c.push .choose e.afterSecond).toReduce test
  | .sequence .nil => c.toDrain .void
  | .sequence expressions => c.toSequence expressions
  | .lambda parameters body => c.reduceLambda parameters body
  | .procedure name parameters body => c.reduceDefineProcedure e name parameters body
  | .definition name expression => c.reduceDefine e name expression
  | .assignment name expression => c.reduceAssign e name expression
  | .malformed => c.malformed e.head e
  | .application operator operands => (c.push .operands operands).toReduce operator

theorem reduceAs_sequence [Saving] (c : Config) (e : Value) {expressions : Value}
    (some : expressions ≠ .nil) :
    c.reduceAs e (.sequence expressions) = c.toSequence expressions := by
  cases expressions with
  | nil => exact absurd rfl some
  | _ => rfl

theorem reduceForm_eq [Saving] (c : Config) (keyword : Keyword) (stamp : Nat)
    (head operands : Value) :
    c.reduceForm keyword (.pair stamp head operands) head operands =
      c.reduceAs (.pair stamp head operands) (Form.special keyword operands) := by
  unfold reduceForm
  split
  · rfl
  · rfl
  · rfl
  · rfl
  · rename_i hne
    cases operands with
    | nil => exact absurd rfl hne
    | _ => rfl
  · rename_i parameters body
    cases hbody : body.isBody <;> simp [Form.special, hbody, reduceAs, Value.head]
  · rename_i name parameters body
    cases hbody : body.isBody <;> simp [Form.special, hbody, reduceAs, Value.head]
  · rename_i name _ expression hname
    cases name with
    | pair stamp name parameters => exact absurd rfl (hname stamp name parameters)
    | _ => rfl
  · rfl
  · have hform : Form.special keyword operands = .malformed := by
      rw [Form.special] <;> assumption
    rw [hform]
    rfl

theorem reduce_eq [Saving] (c : Config) (e : Value) : c.reduce e = c.reduceAs e (Form.of e) := by
  cases e with
  | pair stamp head operands =>
      rw [reduce, Form.of]
      cases Keyword.of? head with
      | none => rfl
      | some keyword => exact reduceForm_eq c keyword stamp head operands
  | _ => rfl

end Config

end SchemeMachine
