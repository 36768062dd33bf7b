import SchemeMachine.Machine.Config

/-!
# Handing a value to a frame

The frame on top of the stack is taken off and does its work with the value.  A
frame that waits for an argument looks at the frame below it too: the next
operand, or the operator that now has all its arguments.
-/

namespace SchemeMachine.Config

/-- Push a frame for each operand, the first of them on top. -/
def pushOperands (operands : List Value) (c : Config) : Config :=
  operands.foldr (fun operand c => c.push .operand operand) c

theorem frames_pushOperands (c : Config) (operands : List Value) :
    (c.pushOperands operands).stack.frames =
      operands.map (FrameKind.operand, ·) ++ c.stack.frames := by
  induction operands with
  | nil => rfl
  | cons operand operands ih =>
      rw [List.map_cons, List.cons_append, ← ih]
      rfl

theorem pushOperands_eq (c : Config) (operands : List Value) :
    c.pushOperands operands = { c with stack := (c.pushOperands operands).stack } := by
  induction operands with
  | nil => rfl
  | cons operand operands ih =>
      simp only [pushOperands, List.foldr_cons] at ih ⊢
      rw [ih]
      rfl

theorem env_pushOperands (c : Config) (operands : List Value) :
    (c.pushOperands operands).env = c.env := by
  rw [pushOperands_eq]

theorem shared_pushOperands (c : Config) (operands : List Value) :
    (c.pushOperands operands).shared = c.shared := by
  rw [pushOperands_eq]

/-- Choose between the consequent and the alternative. -/
def resumeChoose (c : Config) (value arms : Value) : Transition :=
  if value.isTrue then
    match arms with
    | .pair _ yes _ => c.toReduce yes
    | other => .failed (.noPart other.typeName "car") c
  else
    match arms with
    | .pair _ _ .nil => c.toDrain .void
    | .pair _ _ (.pair _ no _) => c.toReduce no
    | .pair _ _ other => .failed (.noPart other.typeName "car") c
    | other => .failed (.noPart other.typeName "cdr") c

/-- Start on the operands of a call; without operands make the call. -/
def resumeOperands [Saving] (c : Config) (callee operands : Value) : Transition :=
  match operands with
  | .nil => c.toCall callee .nil
  | .pair _ first rest =>
    match rest.elements with
    | .error tail => .failed (.improperList (tail.written c.store)) c
    | .ok others =>
      (((c.push .operator callee).pushOperands others).push .collect .nil).toReduce first
  | other => .failed (.improperList (other.written c.store)) c

/-- Make a call with arguments that were collected last first. -/
def callCollected [Saving] (c : Config) (callee collected : Value) : Transition :=
  match collected.elements with
  | .error tail => .failed (.improperList (tail.written c.store)) c
  | .ok arguments =>
    let (list, c) := c.onStore (Store.newList arguments.reverse)
    c.toCall callee list

/-- Take a value as one more argument. -/
def resumeCollect [Saving] (c : Config) (value earlier : Value) : Transition :=
  let (collected, c) := c.onStore (Store.newPair value earlier)
  match c.stack.pop? with
  | none => .failed .emptyStack c
  | some ((kind, payload), below) =>
    let c := { c with stack := below }
    match kind with
    | .operand => (c.push .collect collected).toReduce payload
    | .operator => c.callCollected payload collected
    | other => .failed (.invalidOperation other.name) c

/-- Resume a frame, already taken off the stack, with a value. -/
def resumeFrame [Saving] (c : Config) (kind : FrameKind) (payload value : Value) : Transition :=
  match kind, payload with
  | .choose, arms => c.resumeChoose value arms
  | .sequence, rest => c.toSequence rest
  | .define, .symbol name => (c.changeStore (Store.define c.env name value)).toDrain .void
  | .define, key =>
    (c.changeStore (Store.insertAfter c.env (.keyed (key.label c.store) key value))).toDrain .void
  | .assign, .environment node => (c.changeStore (Store.assign node value)).toDrain .void
  | .operands, operands => c.resumeOperands value operands
  | .collect, earlier => c.resumeCollect value earlier
  | .restore, .environment node => { c with env := node }.toDrain value
  | other, _ => .failed (.invalidOperation other.name) c

/-- Hand a value to the frame on top of the stack. -/
def drain [Saving] (c : Config) (value : Value) : Transition :=
  match c.stack.pop? with
  | none => .finished value c
  | some ((kind, payload), below) => { c with stack := below }.resumeFrame kind payload value

end SchemeMachine.Config
