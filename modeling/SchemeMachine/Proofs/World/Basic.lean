import SchemeMachine.Interpreter
import SchemeMachine.Proofs.Changes

/-!
# The states an interpreter can reach

A world is all there is of an interpreter at one moment: the shared state and its
evaluations, wherever each of them stands.  `World.Reachable` gathers the worlds
that any history leads to.  Evaluations are begun, run, suspend, are resumed with
any answer, end, or are given up; the host does as it likes with the input and the
output.  Evaluations may take turns after every single step, which is more than the
interpreter itself allows: it changes from one to another only where they suspend.

Worlds also remember what the machine does not.  Each frame on a stack has a
record: the environment its code belongs to, if it holds code.  And each call of
`call/cc` that made a continuation is kept as a `Capture`, with the records of the
frames.  Nothing of this is looked at by the machine.
-/

namespace SchemeMachine

/-! ## Records -/

/-- Whether a kind of frame holds code that has yet to run in some environment. -/
def FrameKind.isCode : FrameKind → Bool
  | choose | sequence | define | operands | operand => true
  | assign | operator | collect | restore => false

/-- The environment that the code of each frame belongs to, the top frame first. -/
abbrev Records := List (Option Addr)

namespace Records

/-- The record of a new frame whose code belongs to `owner`. -/
def entry (owner : Option Addr) (frame : Frame) : Option Addr :=
  if frame.1.isCode then owner else none

/-- Records for `frames`, of which the lowest have the records `base` already and
the others are new. -/
def grow (owner : Option Addr) (base : Records) (frames : List Frame) : Records :=
  (frames.take (frames.length - base.length)).map (entry owner) ++ base

theorem grow_append (owner : Option Addr) {base : Records} {rest : List Frame}
    (hlength : base.length = rest.length) (new : List Frame) :
    grow owner base (new ++ rest) = new.map (entry owner) ++ base := by
  rw [grow, List.length_append, hlength, Nat.add_sub_cancel, List.take_left]

theorem grow_cons (owner : Option Addr) {base : Records} {frames : List Frame}
    (hlength : base.length ≤ frames.length) (frame : Frame) :
    grow owner base (frame :: frames) = entry owner frame :: grow owner base frames := by
  rw [grow, List.length_cons, Nat.succ_sub hlength, List.take_succ_cons]
  rfl

end Records

/-- A call of `call/cc` that made a continuation: the stamp of the continuation, and
the environment and the stack that the call was made in. -/
structure Capture where
  stamp : Nat
  env : Addr
  stack : Stack
  records : Records

namespace Capture

/-- The frames of the continuation that was made. -/
def frames (capture : Capture) : List Frame :=
  (capture.stack.pushRestore capture.env).frames

/-- The records of the frames of the continuation that was made. -/
def frameRecords (capture : Capture) : Records :=
  Records.grow none capture.records capture.frames

end Capture

namespace Config

/-- The capture that the next step makes, if it makes one. -/
def capture? (c : Config) (records : Records) : Option Capture :=
  match c.focus with
  | .call .callWithContinuation arguments =>
    match arguments.elements with
    | .ok [_] => some ⟨c.store.nextStamp, c.env, c.stack, records⟩
    | _ => none
  | _ => none

/-- The records once a step has led to the environment `env` and these frames.  A
frame pushed by a form, or for the operands of a call, belongs to the environment
that was current; what is left of a sequence belongs where the sequence did; the
body of a closure belongs to the frame of its call.  The frames of a continuation
come back with the records they were captured with. -/
def recordsAfter (c : Config) (captures : List Capture) (records : Records) (env : Addr)
    (frames : List Frame) : Records :=
  match c.focus with
  | .reduce _ => Records.grow (some c.env) records frames
  | .drain _ =>
    match c.stack.top?, records with
    | some .sequence, owner :: rest => Records.grow owner rest frames
    | some .collect, _ :: _ :: rest => Records.grow none rest frames
    | _, _ :: rest => Records.grow (some c.env) rest frames
    | _, [] => []
  | .call (.continuation stamp _) _ =>
    match captures.find? (·.stamp = stamp) with
    | some capture => capture.frameRecords
    | none => []
  | .call _ _ => Records.grow (some env) records frames

/-- The records after the next step. -/
def nextRecords (c : Config) (captures : List Capture) (records : Records) : Records :=
  c.recordsAfter captures records c.step.config.env c.step.config.stack.frames

end Config

/-! ## Worlds -/

/-- Where an evaluation stands. -/
inductive Thread.Phase where
  | ready (expression : Value)
  | running (focus : Focus)
  | suspended (suspension : Suspension)
  | over

/-- An evaluation, which may be in the middle of a run. -/
structure Thread where
  phase : Thread.Phase
  env : Addr
  stack : Stack
  records : Records

namespace Thread

/-- The evaluation after a step. -/
def ofTransition (records : Records) : Transition → Thread
  | .running c => ⟨.running c.focus, c.env, c.stack, records⟩
  | .suspended suspension c => ⟨.suspended suspension, c.env, c.stack, records⟩
  | .finished _ c | .failed _ c => ⟨.over, c.env, c.stack, records⟩

theorem ofTransition_eq (records : Records) (t : Transition) :
    (ofTransition records t).env = t.config.env ∧ (ofTransition records t).stack = t.config.stack ∧
      (ofTransition records t).records = records := by
  cases t with
  | running c => exact ⟨rfl, rfl, rfl⟩
  | finished v c => exact ⟨rfl, rfl, rfl⟩
  | suspended suspension c => exact ⟨rfl, rfl, rfl⟩
  | failed fault c => exact ⟨rfl, rfl, rfl⟩

/-- An evaluation as the interpreter has it. -/
def ofEvaluation (ev : Evaluation) (records : Records) : Thread :=
  match ev.status with
  | .ready expression => ⟨.ready expression, ev.env, ev.stack, records⟩
  | .suspended suspension => ⟨.suspended suspension, ev.env, ev.stack, records⟩
  | .over => ⟨.over, ev.env, ev.stack, records⟩

theorem stack_ofEvaluation (ev : Evaluation) (records : Records) :
    (ofEvaluation ev records).stack = ev.stack := by
  unfold ofEvaluation
  split <;> rfl

end Thread

theorem Config.resume_config (suspension : Suspension) (answer : Option String) (c : Config) :
    (Config.resume suspension answer c).config.env = c.env ∧
      (Config.resume suspension answer c).config.stack = c.stack := by
  unfold Config.resume
  split
  · exact ⟨rfl, rfl⟩
  · exact ⟨rfl, rfl⟩
  · exact ⟨rfl, rfl⟩

/-- An interpreter with all its evaluations, and all that was captured, the latest
first. -/
structure World where
  shared : Shared
  threads : List Thread
  captures : List Capture

namespace World

/-- What may happen next in a world. -/
inductive Step : World → World → Prop
  /-- An evaluation of a new expression is made. -/
  | submitted {sh : Shared} {threads : List Thread} {captures : List Capture} (d : Datum)
      (env : Addr) :
      Step ⟨sh, threads, captures⟩
        ⟨(sh.onStore (Store.place d)).2,
          ⟨.ready (sh.onStore (Store.place d)).1, env, .empty, []⟩ :: threads, captures⟩
  | started {sh : Shared} {before after : List Thread} {captures : List Capture} {e : Value}
      {env : Addr} {k : Stack} {records : Records} :
      Step ⟨sh, before ++ ⟨.ready e, env, k, records⟩ :: after, captures⟩
        ⟨sh, before ++ ⟨.running (.reduce e), env, k, records⟩ :: after, captures⟩
  /-- An evaluation takes a step. -/
  | stepped {sh : Shared} {before after : List Thread} {captures : List Capture} {focus : Focus}
      {env : Addr} {k : Stack} {records : Records} {c : Config} (hc : c = ⟨focus, env, k, sh⟩) :
      Step ⟨sh, before ++ ⟨.running focus, env, k, records⟩ :: after, captures⟩
        ⟨c.step.config.shared,
          before ++ .ofTransition (c.nextRecords captures records) c.step :: after,
          (c.capture? records).toList ++ captures⟩
  /-- A suspended evaluation is given an answer. -/
  | resumed {sh : Shared} {before after : List Thread} {captures : List Capture}
      {suspension : Suspension} {env : Addr} {k : Stack} {records : Records} {t : Transition}
      (answer : Option String)
      (ht : t = Config.resume suspension answer ⟨.drain .void, env, k, sh⟩) :
      Step ⟨sh, before ++ ⟨.suspended suspension, env, k, records⟩ :: after, captures⟩
        ⟨t.config.shared, before ++ .ofTransition records t :: after, captures⟩
  /-- An evaluation is given up. -/
  | abandoned {sh : Shared} {before after : List Thread} {captures : List Capture}
      {phase : Thread.Phase} {env : Addr} {k : Stack} {records : Records} :
      Step ⟨sh, before ++ ⟨phase, env, k, records⟩ :: after, captures⟩
        ⟨sh, before ++ ⟨.over, env, k, records⟩ :: after, captures⟩
  /-- The host reads, writes or notes something. -/
  | hosted {sh : Shared} {threads : List Thread} {captures : List Capture} (next : Shared)
      (hstore : next.store = sh.store) :
      Step ⟨sh, threads, captures⟩ ⟨next, threads, captures⟩

/-- The worlds that some history leads to. -/
inductive Reachable : World → Prop
  | initial (sh : Shared) (hstore : sh.store = .initial) : Reachable ⟨sh, [], []⟩
  | step {w next : World} (h : Reachable w) (hstep : Step w next) : Reachable next

/-! ## One evaluation on its own -/

/-- The world after the first evaluation has gone one step further. -/
def advance : World → World
  | ⟨sh, ⟨.ready e, env, k, records⟩ :: after, captures⟩ =>
    ⟨sh, ⟨.running (.reduce e), env, k, records⟩ :: after, captures⟩
  | ⟨sh, ⟨.running focus, env, k, records⟩ :: after, captures⟩ =>
    let c : Config := ⟨focus, env, k, sh⟩
    ⟨c.step.config.shared,
      .ofTransition (c.nextRecords captures records) c.step :: after,
      (c.capture? records).toList ++ captures⟩
  | w => w

/-- A new interpreter, so many steps into the evaluation of an expression. -/
def alone (d : Datum) (steps : Nat) : World :=
  let (e, sh) := Shared.initial.onStore (Store.place d)
  Nat.repeat advance steps ⟨sh, [⟨.ready e, Store.global, .empty, []⟩], []⟩

theorem Reachable.advance {w : World} (h : w.Reachable) : w.advance.Reachable := by
  unfold World.advance
  split
  · exact h.step (@Step.started _ [] _ _ _ _ _ _)
  · exact h.step (@Step.stepped _ [] _ _ _ _ _ _ _ rfl)
  · exact h

theorem reachable_alone (d : Datum) (steps : Nat) : (alone d steps).Reachable := by
  induction steps with
  | zero => exact (Reachable.initial .initial rfl).step (.submitted d Store.global)
  | succ steps ih => exact ih.advance

end World

end SchemeMachine
