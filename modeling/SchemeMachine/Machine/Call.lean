import SchemeMachine.Machine.Config
import SchemeMachine.Machine.Parameters
import SchemeMachine.Machine.Primitive

/-!
# Calling a procedure

A call of `call/cc` captures the stack as a continuation and goes on to call its
argument with it; a call of `apply` goes on to call its first argument with the
list that is its second.  A primitive gives its result at once.  A closure leaves
its body on the stack and opens a frame for its parameters.  A continuation
replaces the whole stack by the frames it was captured with.
-/

namespace SchemeMachine.Config

/-- Refuse to call `call/cc` or `apply` with the wrong number of arguments. -/
def wrongCount [Saving] (c : Config) (callee : String) (expected count : Nat) (arguments : Value) :
    Transition :=
  .failed (.argumentCount (count < expected) callee expected (arguments.written c.store)) c

/-- Refuse arguments that end in `tail`. -/
def improperArguments [Saving] (c : Config) (tail : Value) : Transition :=
  .failed (.improperList (tail.written c.store)) c

/-- Call `call/cc`: go on to call its argument with the current continuation. -/
def callWithContinuation [Saving] (c : Config) (arguments : Value) : Transition :=
  match arguments.elements with
  | .error tail => c.improperArguments tail
  | .ok [callee] =>
    let c := { c with stack := Saving.save c.env c.stack }
    let (k, c) := c.onStore (Store.newContinuation c.stack.frames)
    let (list, c) := c.onStore (Store.newPair k .nil)
    c.toCall callee list
  | .ok args => c.wrongCount "call/cc" 1 args.length arguments

/-- Call `apply`: go on to call its first argument with the list that is its
second. -/
def applyToList [Saving] (c : Config) (arguments : Value) : Transition :=
  match arguments.elements with
  | .error tail => c.improperArguments tail
  | .ok [callee, list] =>
    match list with
    | .nil | .pair .. => c.toCall callee list
    | other => .failed (.listExpected (other.written c.store)) c
  | .ok args => c.wrongCount "apply" 2 args.length arguments

/-- Call a primitive. -/
def callPrimitive [Saving] (c : Config) (p : Primitive) (arguments : Value) : Transition :=
  match arguments.elements with
  | .error tail => c.improperArguments tail
  | .ok args =>
    match p.perform arguments args c.shared with
    | (.error fault, shared) => .failed fault { c with shared := shared }
    | (.ok (.value v), shared) => { c with shared := shared }.toDrain v
    | (.ok (.suspend s), shared) => .suspended s { c with shared := shared }

/-- Call a closure. -/
def callClosure [Saving] (c : Config) (parameters body : Value) (env : Addr) (arguments : Value) :
    Transition :=
  let c := { c with stack := (Saving.save c.env c.stack).push .sequence body }
  match Parameters.bindings c.store parameters arguments with
  | .error fault => .failed fault c
  | .ok made =>
    let (frame, c) := c.onStore (Store.openFrame env made)
    { c with env := frame }.toDrain .void

/-- The value that a continuation is called with: its first argument, if any. -/
def passedValue : Value → Value
  | .pair _ first _ => first
  | _ => .void

/-- Call a procedure. -/
def call [Saving] (c : Config) (callee arguments : Value) : Transition :=
  match callee with
  | .callWithContinuation => c.callWithContinuation arguments
  | .applyToList => c.applyToList arguments
  | .primitive p => c.callPrimitive p arguments
  | .closure _ parameters body env => c.callClosure parameters body env arguments
  | .continuation _ frames =>
    { c with stack := c.stack.reinstate frames }.toDrain (passedValue arguments)
  | other =>
    .failed (.notCallable (other.written c.store) (arguments.written c.store)) c

end SchemeMachine.Config
