import SchemeMachine.Machine.Config
import SchemeMachine.Machine.Parameters

/-!
# Reducing expressions

A symbol reduces to the value it is bound to, a pair is a special form or a call,
and everything else is its own value.  A form or call pushes a frame for what is
left to do and goes on with the part to be evaluated first.

The operands of every special form but `begin` are checked before anything else
happens.  The expressions of a `begin` are looked at one by one, so a `begin`
that is no proper list fails only where it stops being one.
-/

namespace SchemeMachine

/-- The special forms. -/
inductive Keyword where
  | quote
  | branch
  | sequence
  | lambda
  | define
  | assign
  deriving DecidableEq, Repr

/-- The special form that a symbol introduces. -/
def Keyword.ofName? (name : String) : Option Keyword :=
  if name = "quote" then some quote
  else if name = "if" then some branch
  else if name = "begin" then some sequence
  else if name = "lambda" then some lambda
  else if name = "define" then some define
  else if name = "set!" then some assign
  else none

/-- The special form that the head of a pair introduces. -/
def Keyword.of? : Value → Option Keyword
  | .symbol name => ofName? name
  | _ => none

namespace Config

/-- Refuse a form with the wrong operands. -/
def malformed [Saving] (c : Config) (head form : Value) : Transition :=
  .failed (.malformed (head.written c.store) (form.written c.store)) c

/-- Refuse a form that names something other than a symbol. -/
def notASymbol [Saving] (c : Config) (form found : Value) : Transition :=
  .failed (.symbolExpected (form.written c.store) (found.written c.store)) c

/-- `(lambda parameters expression ...)`. -/
def reduceLambda [Saving] (c : Config) (parameters body : Value) : Transition :=
  match Parameters.check c.store parameters with
  | some fault => .failed fault c
  | none => c.toNew (Store.newClosure parameters body c.env)

/-- `(define (name . parameters) expression ...)`. -/
def reduceDefineProcedure [Saving] (c : Config) (form name parameters body : Value) : Transition :=
  match Parameters.check c.store parameters with
  | some fault => .failed fault c
  | none =>
    match name with
    | .symbol n =>
      (c.push .define (.symbol n)).toNew (Store.newClosure parameters body c.env)
    | other => c.notASymbol form other

/-- `(define name expression)`. -/
def reduceDefine [Saving] (c : Config) (form name expression : Value) : Transition :=
  match name with
  | .symbol n => (c.push .define (.symbol n)).toReduce expression
  | other => c.notASymbol form other

/-- `(set! name expression)`.  The binding is looked up first. -/
def reduceAssign [Saving] (c : Config) (form name expression : Value) : Transition :=
  match name with
  | .symbol n =>
    match c.store.find? n c.env with
    | some (node, _) => (c.push .assign (.environment node)).toReduce expression
    | none => .failed (.unbound n) c
  | other => c.notASymbol form other

/-- Reduce the special form with this head and these operands. -/
def reduceForm [Saving] (c : Config) (keyword : Keyword) (form head operands : Value) :
    Transition :=
  match keyword, operands with
  | .quote, .pair _ d .nil => c.toDrain d
  | .branch, .pair _ test (.pair i yes .nil) =>
    (c.push .choose (.pair i yes .nil)).toReduce test
  | .branch, .pair _ test (.pair i yes (.pair j no .nil)) =>
    (c.push .choose (.pair i yes (.pair j no .nil))).toReduce test
  | .sequence, .nil => c.toDrain .void
  | .sequence, expressions => c.toSequence expressions
  | .lambda, .pair _ parameters body =>
    if body.isBody then c.reduceLambda parameters body else c.malformed head form
  | .define, .pair _ (.pair _ name parameters) body =>
    if body.isBody then c.reduceDefineProcedure form name parameters body
    else c.malformed head form
  | .define, .pair _ name (.pair _ expression .nil) => c.reduceDefine form name expression
  | .assign, .pair _ name (.pair _ expression .nil) => c.reduceAssign form name expression
  | _, _ => c.malformed head form

/-- Reduce an expression. -/
def reduce [Saving] (c : Config) (expression : Value) : Transition :=
  match expression with
  | .symbol name =>
    match c.store.find? name c.env with
    | some (_, value) => c.toDrain value
    | none => .failed (.unbound name) c
  | .pair _ head operands =>
    match Keyword.of? head with
    | some keyword => c.reduceForm keyword expression head operands
    | none => (c.push .operands operands).toReduce head
  | value => c.toDrain value

end Config

end SchemeMachine
