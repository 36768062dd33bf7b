import SchemeMachine.Machine.Shared
import SchemeMachine.Machine.Stack

/-!
# Configurations of the machine

The machine is at any time doing one of three things: reducing an expression,
handing a value to the frame on top of the stack, or calling a procedure.  Beside
that a configuration has the current environment, the stack, and the state that
all evaluations share.
-/

namespace SchemeMachine

/-- What the machine is doing. -/
inductive Focus where
  /-- Reduce an expression. -/
  | reduce (expression : Value)
  /-- Hand a value to the frame on top of the stack. -/
  | drain (value : Value)
  /-- Call a procedure with a list of arguments. -/
  | call (callee arguments : Value)

/-- A configuration of the machine. -/
structure Config where
  focus : Focus
  env : Addr
  stack : Stack
  shared : Shared

/-- What a step of the machine leads to. -/
inductive Transition where
  | running (c : Config)
  /-- Nothing is left to do with this value. -/
  | finished (value : Value) (c : Config)
  /-- The host has to act first. -/
  | suspended (suspension : Suspension) (c : Config)
  /-- The machine as the fault left it. -/
  | failed (fault : Fault) (c : Config)

namespace Config

/-- The store of a configuration. -/
def store (c : Config) : Store :=
  c.shared.store

/-- Act on the store. -/
def onStore {α : Type} (act : Store → α × Store) : Config → α × Config
  | ⟨focus, env, stack, shared⟩ =>
    let (a, shared) := shared.onStore act
    (a, ⟨focus, env, stack, shared⟩)

/-- Change the store. -/
def changeStore (change : Store → Store) (c : Config) : Config :=
  (c.onStore fun s => ((), change s)).2

/-- Push a frame. -/
def push (kind : FrameKind) (payload : Value) (c : Config) : Config :=
  { c with stack := c.stack.push kind payload }

/-- Go on by reducing an expression. -/
def toReduce (c : Config) (expression : Value) : Transition :=
  .running { c with focus := .reduce expression }

/-- Go on with a value. -/
def toDrain (c : Config) (value : Value) : Transition :=
  .running { c with focus := .drain value }

/-- Go on with a call. -/
def toCall (c : Config) (callee arguments : Value) : Transition :=
  .running { c with focus := .call callee arguments }

/-- Go on with a new object. -/
def toNew (c : Config) (make : Store → Value × Store) : Transition :=
  let (v, c) := c.onStore make
  c.toDrain v

/-- Go on with a sequence of expressions, of which there is at least one.  The
last one needs no frame to come back to. -/
def toSequence (c : Config) : Value → Transition
  | .pair _ expression .nil => c.toReduce expression
  | .pair _ expression rest => (c.push .sequence rest).toReduce expression
  | other => .failed (.noPart other.typeName "cdr") c

end Config

end SchemeMachine
