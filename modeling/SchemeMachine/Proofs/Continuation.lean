import SchemeMachine.Proofs.Behaviour
import SchemeMachine.Proofs.World.Captures

/-!
# Calling a continuation

A continuation that is called replaces the stack by the frames it was captured with,
and leaves the environment of its caller in place.  That is no harm: the topmost of
those frames restores an environment, the one `call/cc` was called in, or, if that
call had nothing left to do in its environment, the one that was to be restored
after it.

So the rest of the evaluation is as if `call/cc` had just returned the value, again
and from whichever evaluation: `continuation_resumes_capture`.
-/

namespace SchemeMachine

open Transition (EndsIn)

/-- A procedure is applied to a list of arguments, directly or through `apply`, over
any number of calls of it. -/
inductive Focus.Applies (callee arguments : Value) : Focus → Prop
  | direct : Applies callee arguments (.call callee arguments)
  | through {inner list outer : Value} (htwo : outer.elements = .ok [inner, list])
      (hlist : list = .nil ∨ ∃ stamp head tail, list = .pair stamp head tail)
      (h : Applies callee arguments (.call inner list)) :
      Applies callee arguments (.call .applyToList outer)

variable {callee arguments v : Value} {focus : Focus} {env : Addr} {k : Stack} {sh left : Shared}
  {acts : List Act} {verdict : Verdict}

theorem Focus.Applies.meets {r : Requirement} (h : focus.Applies callee arguments)
    (hfocus : focus.Meets r) : callee.Meets r := by
  induction h with
  | direct => exact hfocus.1
  | through htwo _ _ ih =>
      have hmeets := hfocus.2.elements htwo
      exact ih ⟨hmeets _ List.mem_cons_self, hmeets _ (by simp)⟩

theorem Focus.Applies.endsIn_iff (h : focus.Applies callee arguments) :
    EndsIn (.running ⟨focus, env, k, sh⟩) acts verdict left ↔
      EndsIn (.running ⟨.call callee arguments, env, k, sh⟩) acts verdict left := by
  induction h with
  | direct => exact Iff.rfl
  | @through inner list outer htwo hlist _ ih =>
      have hstep : Config.step ⟨.call .applyToList outer, env, k, sh⟩ =
          .running ⟨.call inner list, env, k, sh⟩ := by
        simp only [Config.step, Config.call, Config.applyToList, htwo]
        rcases hlist with rfl | ⟨stamp, head, tail, rfl⟩
        · rfl
        · rfl
      rw [Transition.endsIn_running_iff, hstep]
      exact ih

/-! ## A frame that restores an environment does not look at the current one -/

theorem endsIn_of_frames {l : Stack} (hframes : k.frames = l.frames)
    (h : EndsIn (.running ⟨.drain v, env, k, sh⟩) acts verdict left) :
    EndsIn (.running ⟨.drain v, env, l, sh⟩) acts verdict left := by
  refine h.of_bare ?_
  simp only [Transition.bare, Config.bare, hframes]

theorem endsIn_of_restore {l : Stack} {found : Addr} (hframes : k.frames = l.frames)
    (htop : k.top? = some .restore)
    (h : EndsIn (.running ⟨.drain v, env, k, sh⟩) acts verdict left) :
    EndsIn (.running ⟨.drain v, found, l, sh⟩) acts verdict left := by
  have hsame := endsIn_of_frames hframes h
  obtain ⟨frame, frames, hcons⟩ : ∃ frame frames, l.frames = frame :: frames := by
    rw [Stack.top?, hframes] at htop
    cases hl : l.frames with
    | nil => simp [hl] at htop
    | cons frame frames => exact ⟨frame, frames, rfl⟩
  obtain ⟨kind, payload⟩ := frame
  obtain rfl : kind = .restore := by
    rw [Stack.top?, hframes, hcons] at htop
    exact Option.some.inj htop
  obtain ⟨below, hpop, _⟩ := Stack.pop?_of_frames hcons
  rw [Transition.endsIn_running_iff] at hsame ⊢
  simp only [Config.step, Config.drain, hpop] at hsame ⊢
  cases payload with
  | environment node => exact hsame
  | _ =>
      -- a frame that holds anything else fails, wherever it is
      cases hsame
      exact .failed

/-- The frames of a continuation bring back the environment and the stack that it was
captured in. -/
theorem Capture.endsIn_iff (capture : Capture) (hframes : k.frames = capture.frames) :
    EndsIn (.running ⟨.drain v, env, k, sh⟩) acts verdict left ↔
      EndsIn (.running ⟨.drain v, capture.env, capture.stack, sh⟩) acts verdict left := by
  rw [Capture.frames, Stack.frames_pushRestore] at hframes
  by_cases htop : capture.stack.top? = some .restore
  · rw [if_pos htop] at hframes
    have htop' : k.top? = some .restore := by rwa [Stack.top?, hframes]
    exact ⟨endsIn_of_restore hframes htop', endsIn_of_restore hframes.symm htop⟩
  · rw [if_neg htop] at hframes
    obtain ⟨below, hbelow, hstep⟩ := Config.step_restore hframes
    rw [Transition.endsIn_running_iff, hstep]
    exact ⟨endsIn_of_frames hbelow, endsIn_of_frames hbelow.symm⟩

/-- **A continuation resumes its capture.**  Wherever and however often a continuation is
applied, the rest of that evaluation is what it would be if the call of `call/cc` that
made the continuation had returned the first argument, or nothing if there is none, to the
stack and the environment it was made in. -/
theorem continuation_resumes_capture {w : World} {th : Thread} {stamp : Nat}
    {frames : List Frame} (hw : w.Reachable) (hth : th ∈ w.threads)
    (hphase : th.phase = .running focus)
    (happlies : focus.Applies (.continuation stamp frames) arguments)
    (hpassed : (∃ cell rest, arguments = .pair cell v rest) ∨ arguments = .nil ∧ v = .void) :
    ∃ capture ∈ w.captures, capture.stamp = stamp ∧
      (∀ other ∈ w.captures, other.stamp = stamp → other = capture) ∧
      ∀ acts verdict left,
        EndsIn (.running ⟨focus, th.env, th.stack, w.shared⟩) acts verdict left ↔
          EndsIn (.running ⟨.drain v, capture.env, capture.stack, w.shared⟩) acts verdict left := by
  have htraced := hw.traced
  have hthread := htraced.threads th hth
  rw [Thread.Meets, hphase] at hthread
  obtain ⟨⟨capture, hmem, hstamp, hframes⟩, _⟩ := happlies.meets hthread.1
  refine ⟨capture, hmem, hstamp, fun other hother hsame =>
    htraced.capture_unique hmem hother (hsame.trans hstamp.symm), fun acts verdict left => ?_⟩
  have hvalue : Config.passedValue arguments = v := by
    rcases hpassed with ⟨cell, rest, rfl⟩ | ⟨rfl, rfl⟩
    · rfl
    · rfl
  have hstep : Config.step ⟨.call (.continuation stamp frames) arguments, th.env, th.stack,
      w.shared⟩ = .running ⟨.drain v, th.env, th.stack.reinstate frames, w.shared⟩ := by
    rw [← hvalue]
    rfl
  rw [happlies.endsIn_iff, Transition.endsIn_running_iff, hstep]
  exact capture.endsIn_iff hframes.symm

/-- Eight steps into `(call/cc call/cc)` the first continuation is called with the
second, which was captured without saving the environment once more. -/
theorem continuation_resumes_capture_nested :
    ∃ (w : World) (th : Thread) (arguments v : Value) (capture : Capture),
      w.Reachable ∧ th ∈ w.threads ∧ capture ∈ w.captures ∧ capture.stamp = 4 ∧
      th.phase = .running (.call (.continuation 4 [(.restore, .environment Store.global)])
        arguments) ∧
      ∀ acts verdict left,
        EndsIn (.running ⟨.call (.continuation 4 [(.restore, .environment Store.global)]) arguments,
          th.env, th.stack, w.shared⟩) acts verdict left ↔
        EndsIn (.running ⟨.drain v, capture.env, capture.stack, w.shared⟩) acts verdict left := by
  have hw := World.reachable_alone
    (.pair (.symbol "call/cc") (.pair (.symbol "call/cc") .nil)) 8
  obtain ⟨capture, hmem, hstamp, _, hends⟩ := continuation_resumes_capture hw List.mem_cons_self rfl
    .direct (.inl ⟨7, .nil, rfl⟩)
  exact ⟨_, _, _, _, capture, hw, List.mem_cons_self, hmem, hstamp, rfl, hends⟩

end SchemeMachine
