import SchemeMachine.Proofs.Changes

/-!
# What becomes of an evaluation

`Transition.EndsIn` says how the rest of an evaluation goes: what it comes to, and
the shared state it leaves.  It may suspend any number of times, and what the host
and the other evaluations do meanwhile is given as a list of acts.

What becomes of an evaluation depends on the frames of its stack, and not on how
deep the stack is said to have been (`EndsIn.of_bare`).
-/

namespace SchemeMachine

/-- What happens while an evaluation is suspended: the shared state is changed in
some way, and then an answer is given. -/
structure Act where
  change : Shared → Shared
  answer : Option String

/-- What an evaluation has come to. -/
inductive Verdict where
  | value (v : Value)
  | failure (failure : Failure)
  | suspended (suspension : Suspension)

namespace Transition

/-- The rest of an evaluation comes to a verdict, with this shared state, if these
acts come in between. -/
inductive EndsIn : Transition → List Act → Verdict → Shared → Prop
  | finished {v : Value} {c : Config} {acts : List Act} :
      EndsIn (.finished v c) acts (.value v) c.shared
  | failed {fault : Fault} {c : Config} {acts : List Act} :
      EndsIn (.failed fault c) acts (.failure (c.failure fault)) c.shared
  | waiting {suspension : Suspension} {c : Config} :
      EndsIn (.suspended suspension c) [] (.suspended suspension)
        (c.shared.noteSuspension suspension)
  | resumed {suspension : Suspension} {c : Config} {act : Act} {acts : List Act}
      {verdict : Verdict} {sh : Shared}
      (h : EndsIn (Config.resume suspension act.answer
        { c with shared := act.change (c.shared.noteSuspension suspension) }) acts verdict sh) :
      EndsIn (.suspended suspension c) (act :: acts) verdict sh
  | step {c : Config} {acts : List Act} {verdict : Verdict} {sh : Shared}
      (h : EndsIn c.step acts verdict sh) : EndsIn (.running c) acts verdict sh

theorem endsIn_running_iff {c : Config} {acts : List Act} {verdict : Verdict} {sh : Shared} :
    EndsIn (.running c) acts verdict sh ↔ EndsIn c.step acts verdict sh := by
  constructor
  · intro h
    cases h with
    | step h => exact h
  · exact .step

end Transition

/-- A frame that restores an environment does only that. -/
theorem Config.step_restore [Saving] {v : Value} {node : Addr} {k : Stack} {sh : Shared}
    {rest : List Frame} (hframes : k.frames = (.restore, .environment node) :: rest) :
    ∃ below : Stack, below.frames = rest ∧
      ∀ env, Config.step ⟨.drain v, env, k, sh⟩ = .running ⟨.drain v, node, below, sh⟩ := by
  obtain ⟨below, hpop, hbelow⟩ := Stack.pop?_of_frames hframes
  refine ⟨below, hbelow, fun env => ?_⟩
  simp only [Config.step, Config.drain, hpop]
  rfl

/-! ## Only the frames count -/

namespace Config

/-- A configuration whose stack has not been any deeper than it is. -/
def bare (c : Config) : Config :=
  { c with stack := .ofFrames c.stack.frames }

theorem frames_eq_of_bare {c d : Config} (h : c.bare = d.bare) :
    c.stack.frames = d.stack.frames := by
  have hframes : c.bare.stack.frames = d.bare.stack.frames := by rw [h]
  exact hframes

theorem shared_eq_of_bare {c d : Config} (h : c.bare = d.bare) : c.shared = d.shared := by
  have hshared : c.bare.shared = d.bare.shared := by rw [h]
  exact hshared

end Config

/-- A transition to a configuration whose stack has not been any deeper than it is. -/
def Transition.bare : Transition → Transition
  | .running c => .running c.bare
  | .finished v c => .finished v c.bare
  | .suspended suspension c => .suspended suspension c.bare
  | .failed fault c => .failed fault c.bare

namespace Config

variable {c : Config}

theorem bare_toSequence (c : Config) (expressions : Value) :
    (c.bare.toSequence expressions).bare = (c.toSequence expressions).bare := by
  unfold toSequence
  split <;> rfl

theorem bare_reduceAs (c : Config) (e : Value) (form : Form) :
    (c.bare.reduceAs e form).bare = (c.reduceAs e form).bare := by
  obtain ⟨focus, env, k, sh⟩ := c
  cases form with
  | symbol name =>
      simp only [reduceAs, bare, store]
      split <;> rfl
  | sequence expressions =>
      by_cases hsome : expressions = .nil
      · subst hsome
        rfl
      · rw [reduceAs_sequence _ e hsome, reduceAs_sequence _ e hsome]
        exact bare_toSequence _ expressions
  | lambda parameters body =>
      simp only [reduceAs, reduceLambda, bare, store]
      split <;> rfl
  | procedure name parameters body =>
      simp only [reduceAs, reduceDefineProcedure, bare, store]
      split
      · rfl
      · split <;> rfl
  | definition name x =>
      simp only [reduceAs, reduceDefine]
      split <;> rfl
  | assignment name x =>
      simp only [reduceAs, reduceAssign, bare, store]
      split
      · split <;> rfl
      · rfl
  | _ => rfl

theorem bare_resumeChoose (c : Config) (v arms : Value) :
    (c.bare.resumeChoose v arms).bare = (c.resumeChoose v arms).bare := by
  unfold resumeChoose
  split
  · split <;> rfl
  · split <;> rfl

theorem bare_resumeOperands (c : Config) (callee operands : Value) :
    (c.bare.resumeOperands callee operands).bare = (c.resumeOperands callee operands).bare := by
  unfold resumeOperands
  split
  · rfl
  · split
    · rfl
    · rename_i others _
      simp only [toReduce, push, Transition.bare, bare, Stack.frames_push, frames_pushOperands,
        env_pushOperands, shared_pushOperands]
      rfl
  · rfl

theorem bare_callCollected (c : Config) (callee collected : Value) :
    (c.bare.callCollected callee collected).bare = (c.callCollected callee collected).bare := by
  unfold callCollected
  split <;> rfl

theorem bare_resumeCollect (c : Config) (v earlier : Value) :
    (c.bare.resumeCollect v earlier).bare = (c.resumeCollect v earlier).bare := by
  obtain ⟨focus, env, ⟨frames, depth, peak, hdepth⟩, sh⟩ := c
  cases frames with
  | nil => rfl
  | cons frame rest =>
      obtain ⟨kind, payload⟩ := frame
      cases kind with
      | operator =>
          simp only [resumeCollect, bare, onStore, Stack.ofFrames, Stack.pop?]
          unfold callCollected
          split <;> rfl
      | _ => rfl

theorem bare_resumeFrame (c : Config) (kind : FrameKind) (payload v : Value) :
    (c.bare.resumeFrame kind payload v).bare = (c.resumeFrame kind payload v).bare := by
  unfold resumeFrame
  split
  · exact bare_resumeChoose c v _
  · exact bare_toSequence c _
  · rfl
  · rfl
  · rfl
  · exact bare_resumeOperands c v _
  · exact bare_resumeCollect c v _
  · rfl
  · rfl

theorem bare_drain (c : Config) (v : Value) : (c.bare.drain v).bare = (c.drain v).bare := by
  obtain ⟨focus, env, ⟨frames, depth, peak, hdepth⟩, sh⟩ := c
  cases frames with
  | nil => rfl
  | cons frame rest =>
      obtain ⟨kind, payload⟩ := frame
      -- the two stacks that are left differ in depth and peak alone
      have hbelow : ∀ k : Stack, k.frames = rest →
          (resumeFrame ⟨focus, env, k, sh⟩ kind payload v).bare =
            (resumeFrame ⟨focus, env, .ofFrames rest, sh⟩ kind payload v).bare := by
        rintro k rfl
        exact (bare_resumeFrame ⟨focus, env, k, sh⟩ kind payload v).symm
      exact (hbelow _ rfl).trans (hbelow _ rfl).symm

theorem bare_pushRestore (env : Addr) (k : Stack) :
    ((Stack.ofFrames k.frames).pushRestore env).frames = (k.pushRestore env).frames := by
  rw [Stack.frames_pushRestore, Stack.frames_pushRestore]
  rfl

theorem bare_call (c : Config) (callee arguments : Value) :
    (c.bare.call callee arguments).bare = (c.call callee arguments).bare := by
  obtain ⟨focus, env, k, sh⟩ := c
  have hsaved := bare_pushRestore env k
  cases callee with
  | callWithContinuation =>
      simp only [call, callWithContinuation, bare, Saving.save_eliding]
      split
      · rfl
      · simp only [onStore, Shared.onStore, toCall, Transition.bare, bare, hsaved]
      · rfl
  | applyToList =>
      simp only [call, applyToList]
      split
      · rfl
      · split <;> rfl
      · rfl
  | primitive p =>
      simp only [call, callPrimitive, bare]
      split
      · rfl
      · split <;> rfl
  | closure stamp parameters body home =>
      simp only [call, callClosure, bare, Saving.save_eliding, store]
      split
      · simp only [Transition.bare, bare, Stack.frames_push, hsaved]
      · simp only [onStore, toDrain, Transition.bare, bare, Stack.frames_push, hsaved]
  | _ => rfl

/-- A step goes by the frames of the stack. -/
theorem bare_step (c : Config) : c.bare.step.bare = c.step.bare := by
  obtain ⟨focus, env, k, sh⟩ := c
  cases focus with
  | reduce e =>
      have hforms := bare_reduceAs ⟨.reduce e, env, k, sh⟩ e (Form.of e)
      rwa [← reduce_eq, ← reduce_eq] at hforms
  | drain v => exact bare_drain _ v
  | call callee arguments => exact bare_call _ callee arguments

theorem bare_resume (suspension : Suspension) (answer : Option String) (c : Config) :
    (Config.resume suspension answer c.bare).bare = (Config.resume suspension answer c).bare := by
  simp only [Config.resume, bare]
  split <;> rfl

theorem failure_eq_of_bare {d : Config} (h : c.bare = d.bare) (fault : Fault) :
    c.failure fault = d.failure fault := by
  rw [failure, failure, frames_eq_of_bare h, store, store, shared_eq_of_bare h]

end Config

theorem Transition.EndsIn.of_bare {t u : Transition} {acts : List Act} {verdict : Verdict}
    {sh : Shared} (h : EndsIn t acts verdict sh) (hbare : t.bare = u.bare) :
    EndsIn u acts verdict sh := by
  induction h generalizing u with
  | @finished v c acts =>
      cases u with
      | finished w d =>
          injection hbare with hvalue hconfig
          subst hvalue
          rw [Config.shared_eq_of_bare hconfig]
          exact .finished
      | _ => cases hbare
  | @failed fault c acts =>
      cases u with
      | failed other d =>
          injection hbare with hfault hconfig
          subst hfault
          rw [Config.shared_eq_of_bare hconfig, Config.failure_eq_of_bare hconfig]
          exact .failed
      | _ => cases hbare
  | @waiting suspension c =>
      cases u with
      | suspended other d =>
          injection hbare with hsuspension hconfig
          subst hsuspension
          rw [Config.shared_eq_of_bare hconfig]
          exact .waiting
      | _ => cases hbare
  | @resumed suspension c act acts verdict sh _ ih =>
      cases u with
      | suspended other d =>
          injection hbare with hsuspension hconfig
          subst hsuspension
          have hchanged : ∀ next : Shared, ({ c with shared := next } : Config).bare =
              ({ d with shared := next } : Config).bare :=
            fun next => congrArg (fun x : Config => { x with shared := next }) hconfig
          refine .resumed (ih ?_)
          rw [← Config.bare_resume, hchanged, Config.bare_resume, Config.shared_eq_of_bare hconfig]
      | _ => cases hbare
  | @step c acts verdict sh _ ih =>
      cases u with
      | running d =>
          injection hbare with hconfig
          refine .step (ih ?_)
          rw [← Config.bare_step c, ← Config.bare_step d, hconfig]
      | _ => cases hbare

end SchemeMachine
