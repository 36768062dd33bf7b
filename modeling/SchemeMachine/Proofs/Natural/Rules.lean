import SchemeMachine.Proofs.Form
import SchemeMachine.Proofs.Service

/-!
# The natural semantics

`Evaluates` relates an expression, and the other things there are to evaluate, to
its value or to the fault it fails with.  The rules know of environments, of the
store, of the output and of the input, all kept in an `Interpreter`; they know of
no machine and of no stack.

An application evaluates its operator, then its operands from left to right, then
makes the call.  The rules use up the stamps of objects as the language does: one
for each argument while it waits to be passed, one for each pair of the list that
is passed.

There are no rules for a call of `call/cc` or of a continuation, so what is
derived applies neither.
-/

namespace SchemeMachine

namespace Interpreter

/-- The store of an interpreter. -/
abbrev store (i : Interpreter) : Store :=
  i.shared.store

/-- Act on the store. -/
def onStore {α : Type} (act : Store → α × Store) (i : Interpreter) : α × Interpreter :=
  i.onShared (Shared.onStore act)

/-- Change the store. -/
def changeStore (change : Store → Store) (i : Interpreter) : Interpreter :=
  (i.onStore fun s => ((), change s)).2

end Interpreter

/-- Whether a value can be called. -/
def Value.isProcedure : Value → Bool
  | .closure .. | .primitive _ | .continuation .. | .callWithContinuation | .applyToList => true
  | _ => false

/-- What can be evaluated. -/
inductive Phrase where
  | expression (e : Value)
  /-- The expressions of a body or a `begin`, of which there is at least one. -/
  | sequence (expressions : Value)
  /-- Operands, after the arguments that were evaluated before them, last first.
  They evaluate to the list of all the arguments. -/
  | operands (collected : List Value) (expressions : List Value)
  | call (callee arguments : Value)
  /-- The rest of a call that waits for the host. -/
  | await (suspension : Suspension)

open Phrase

/-- `Evaluates phrase env i r j` says that `phrase`, begun in the environment `env`
and the state `i`, ends in the state `j` with the value or fault `r`. -/
inductive Evaluates : Phrase → Addr → Interpreter → Except Fault Value → Interpreter → Prop where
  -- Expressions that need nothing evaluated
  | constant {e v env i} (form : Form.of e = .constant v) :
      Evaluates (expression e) env i (.ok v) i
  | symbol {e name node v env i} (form : Form.of e = .symbol name)
      (found : i.store.find? name env = some (node, v)) :
      Evaluates (expression e) env i (.ok v) i
  | symbolUnbound {e name env i} (form : Form.of e = .symbol name)
      (missing : i.store.find? name env = none) :
      Evaluates (expression e) env i (.error (.unbound name)) i
  | quotation {e v env i} (form : Form.of e = .quotation v) :
      Evaluates (expression e) env i (.ok v) i
  | lambda {e parameters body env i closure j} (form : Form.of e = .lambda parameters body)
      (valid : Parameters.check i.store parameters = none)
      (made : i.onStore (Store.newClosure parameters body env) = (closure, j)) :
      Evaluates (expression e) env i (.ok closure) j
  | lambdaInvalid {e parameters body env i fault} (form : Form.of e = .lambda parameters body)
      (invalid : Parameters.check i.store parameters = some fault) :
      Evaluates (expression e) env i (.error fault) i
  | malformed {e env i} (form : Form.of e = .malformed) :
      Evaluates (expression e) env i
        (.error (.malformed (e.head.written i.store) (e.written i.store))) i
  -- `if`
  | branchYes {e test yes no v env i j r k} (form : Form.of e = .branch test yes no)
      (tested : Evaluates (expression test) env i (.ok v) j) (holds : v.isTrue = true)
      (chosen : Evaluates (expression yes) env j r k) :
      Evaluates (expression e) env i r k
  | branchNo {e test yes no v env i j r k} (form : Form.of e = .branch test yes (some no))
      (tested : Evaluates (expression test) env i (.ok v) j) (fails : v.isTrue = false)
      (chosen : Evaluates (expression no) env j r k) :
      Evaluates (expression e) env i r k
  | branchNeither {e test yes v env i j} (form : Form.of e = .branch test yes none)
      (tested : Evaluates (expression test) env i (.ok v) j) (fails : v.isTrue = false) :
      Evaluates (expression e) env i (.ok .void) j
  | branchFault {e test yes no fault env i j} (form : Form.of e = .branch test yes no)
      (tested : Evaluates (expression test) env i (.error fault) j) :
      Evaluates (expression e) env i (.error fault) j
  -- `begin`, and sequences
  | beginNothing {e env i} (form : Form.of e = .sequence .nil) :
      Evaluates (expression e) env i (.ok .void) i
  | begin {e expressions env i r j} (form : Form.of e = .sequence expressions)
      (some : expressions ≠ .nil) (done : Evaluates (sequence expressions) env i r j) :
      Evaluates (expression e) env i r j
  | sequenceLast {stamp e env i r j} (done : Evaluates (expression e) env i r j) :
      Evaluates (sequence (.pair stamp e .nil)) env i r j
  | sequenceMore {stamp e rest v env i j r k} (more : rest ≠ .nil)
      (first : Evaluates (expression e) env i (.ok v) j)
      (done : Evaluates (sequence rest) env j r k) :
      Evaluates (sequence (.pair stamp e rest)) env i r k
  | sequenceFault {stamp e rest fault env i j} (more : rest ≠ .nil)
      (first : Evaluates (expression e) env i (.error fault) j) :
      Evaluates (sequence (.pair stamp e rest)) env i (.error fault) j
  | sequenceImproper {other env i} (improper : ∀ stamp e rest, other ≠ .pair stamp e rest) :
      Evaluates (sequence other) env i (.error (.noPart other.typeName "cdr")) i
  -- `define`
  | procedure {e name parameters body env i closure j}
      (form : Form.of e = .procedure (.symbol name) parameters body)
      (valid : Parameters.check i.store parameters = none)
      (made : i.onStore (Store.newClosure parameters body env) = (closure, j)) :
      Evaluates (expression e) env i (.ok .void) (j.changeStore (Store.define env name closure))
  | procedureInvalid {e name parameters body env i fault}
      (form : Form.of e = .procedure name parameters body)
      (invalid : Parameters.check i.store parameters = some fault) :
      Evaluates (expression e) env i (.error fault) i
  | procedureUnnamed {e name parameters body env i}
      (form : Form.of e = .procedure name parameters body)
      (valid : Parameters.check i.store parameters = none) (unnamed : ∀ n, name ≠ .symbol n) :
      Evaluates (expression e) env i
        (.error (.symbolExpected (e.written i.store) (name.written i.store))) i
  | definition {e name x v env i j} (form : Form.of e = .definition (.symbol name) x)
      (done : Evaluates (expression x) env i (.ok v) j) :
      Evaluates (expression e) env i (.ok .void) (j.changeStore (Store.define env name v))
  | definitionFault {e name x fault env i j} (form : Form.of e = .definition (.symbol name) x)
      (done : Evaluates (expression x) env i (.error fault) j) :
      Evaluates (expression e) env i (.error fault) j
  | definitionUnnamed {e name x env i} (form : Form.of e = .definition name x)
      (unnamed : ∀ n, name ≠ .symbol n) :
      Evaluates (expression e) env i
        (.error (.symbolExpected (e.written i.store) (name.written i.store))) i
  -- `set!`, which finds the binding before it evaluates its operand
  | assignment {e name x node old v env i j} (form : Form.of e = .assignment (.symbol name) x)
      (found : i.store.find? name env = some (node, old))
      (done : Evaluates (expression x) env i (.ok v) j) :
      Evaluates (expression e) env i (.ok .void) (j.changeStore (Store.assign node v))
  | assignmentFault {e name x node old fault env i j}
      (form : Form.of e = .assignment (.symbol name) x)
      (found : i.store.find? name env = some (node, old))
      (done : Evaluates (expression x) env i (.error fault) j) :
      Evaluates (expression e) env i (.error fault) j
  | assignmentUnbound {e name x env i} (form : Form.of e = .assignment (.symbol name) x)
      (missing : i.store.find? name env = none) :
      Evaluates (expression e) env i (.error (.unbound name)) i
  | assignmentUnnamed {e name x env i} (form : Form.of e = .assignment name x)
      (unnamed : ∀ n, name ≠ .symbol n) :
      Evaluates (expression e) env i
        (.error (.symbolExpected (e.written i.store) (name.written i.store))) i
  -- Applications
  | application {e operator chain expressions callee arguments env i j k r l}
      (form : Form.of e = .application operator chain)
      (first : Evaluates (expression operator) env i (.ok callee) j)
      (proper : chain.elements = .ok expressions)
      (passed : Evaluates (operands [] expressions) env j (.ok arguments) k)
      (called : Evaluates (call callee arguments) env k r l) :
      Evaluates (expression e) env i r l
  | operatorFault {e operator chain fault env i j} (form : Form.of e = .application operator chain)
      (first : Evaluates (expression operator) env i (.error fault) j) :
      Evaluates (expression e) env i (.error fault) j
  | operandsImproper {e operator chain callee tail env i j}
      (form : Form.of e = .application operator chain)
      (first : Evaluates (expression operator) env i (.ok callee) j)
      (improper : chain.elements = .error tail) :
      Evaluates (expression e) env i (.error (.improperList (tail.written j.store))) j
  | operandsFault {e operator chain expressions callee fault env i j k}
      (form : Form.of e = .application operator chain)
      (first : Evaluates (expression operator) env i (.ok callee) j)
      (proper : chain.elements = .ok expressions)
      (passed : Evaluates (operands [] expressions) env j (.error fault) k) :
      Evaluates (expression e) env i (.error fault) k
  | operandsNone {collected list env i j}
      (made : i.onStore (Store.newList collected.reverse) = (list, j)) :
      Evaluates (operands collected []) env i (.ok list) j
  | operandsMore {collected e expressions v env i j r k}
      (first : Evaluates (expression e) env i (.ok v) j)
      (done : Evaluates (operands (v :: collected) expressions) env
        (j.changeStore fun s => (s.newPair v .nil).2) r k) :
      Evaluates (operands collected (e :: expressions)) env i r k
  | operandFault {collected e expressions fault env i j}
      (first : Evaluates (expression e) env i (.error fault) j) :
      Evaluates (operands collected (e :: expressions)) env i (.error fault) j
  -- Calls
  | closure {stamp parameters body home arguments bindings frame env i j r k}
      (bound : Parameters.bindings i.store parameters arguments = .ok bindings)
      (opened : i.onStore (Store.openFrame home bindings) = (frame, j))
      (done : Evaluates (sequence body) frame j r k) :
      Evaluates (call (.closure stamp parameters body home) arguments) env i r k
  | closureFault {stamp parameters body home arguments fault env i}
      (unbound : Parameters.bindings i.store parameters arguments = .error fault) :
      Evaluates (call (.closure stamp parameters body home) arguments) env i (.error fault) i
  | primitive {p arguments args v env i sh} (proper : arguments.elements = .ok args)
      (done : p.perform arguments args i.shared = (.ok (.value v), sh)) :
      Evaluates (call (.primitive p) arguments) env i (.ok v) { i with shared := sh }
  | primitiveFault {p arguments args fault env i sh} (proper : arguments.elements = .ok args)
      (done : p.perform arguments args i.shared = (.error fault, sh)) :
      Evaluates (call (.primitive p) arguments) env i (.error fault) { i with shared := sh }
  | primitiveAwait {p arguments args s env i sh r j} (proper : arguments.elements = .ok args)
      (done : p.perform arguments args i.shared = (.ok (.suspend s), sh))
      (awaited : Evaluates (await s) env { i with shared := sh } r j) :
      Evaluates (call (.primitive p) arguments) env i r j
  | primitiveImproper {p arguments tail env i} (improper : arguments.elements = .error tail) :
      Evaluates (call (.primitive p) arguments) env i
        (.error (.improperList (tail.written i.store))) i
  | apply {arguments callee list env i r j} (two : arguments.elements = .ok [callee, list])
      (chain : list = .nil ∨ ∃ stamp head tail, list = .pair stamp head tail)
      (done : Evaluates (call callee list) env i r j) :
      Evaluates (call .applyToList arguments) env i r j
  | applyNoList {arguments callee list env i} (two : arguments.elements = .ok [callee, list])
      (none : list ≠ .nil) (improper : ∀ stamp head tail, list ≠ .pair stamp head tail) :
      Evaluates (call .applyToList arguments) env i
        (.error (.listExpected (list.written i.store))) i
  | applyCount {arguments args env i} (proper : arguments.elements = .ok args)
      (count : args.length ≠ 2) :
      Evaluates (call .applyToList arguments) env i
        (.error (.argumentCount (args.length < 2) "apply" 2 (arguments.written i.store))) i
  | applyImproper {arguments tail env i} (improper : arguments.elements = .error tail) :
      Evaluates (call .applyToList arguments) env i
        (.error (.improperList (tail.written i.store))) i
  | notCallable {callee arguments env i} (other : callee.isProcedure = false) :
      Evaluates (call callee arguments) env i
        (.error (.notCallable (callee.written i.store) (arguments.written i.store))) i
  -- Waiting for the host
  | answered {s v env i j} (done : i.reply s = (.ok (.value v), j)) :
      Evaluates (await s) env i (.ok v) j
  | answeredFault {s fault env i j} (done : i.reply s = (.error fault, j)) :
      Evaluates (await s) env i (.error fault) j
  | answeredAwait {s t env i j r k} (again : i.reply s = (.ok (.suspend t), j))
      (awaited : Evaluates (await t) env j r k) :
      Evaluates (await s) env i r k

end SchemeMachine
