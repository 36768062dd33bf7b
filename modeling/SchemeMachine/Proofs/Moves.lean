import SchemeMachine.Proofs.Transitions

/-!
# What a step does to the stack

Whatever a step computes, it does one of twelve things to the environment and the
frames: `Config.Moves` lists them and `step_moved` says that there are no others.
It is a coarser list than that of the transitions, for what does not depend on the
code that is run.

A step that fails or finishes leaves no stack that anything will run on.
-/

namespace SchemeMachine

/-- The kinds of frames that a form leaves while one of its parts is evaluated. -/
def FrameKind.isOfForm : FrameKind → Bool
  | choose | sequence | define | assign | operands => true
  | operator | operand | collect | restore => false

/-- The payload is of the kind that the frame is made for. -/
def Frame.Documented : Frame → Prop
  | (.choose, arms) => (∃ stamp yes, arms = .pair stamp yes .nil) ∨
      ∃ stamp yes inner no, arms = .pair stamp yes (.pair inner no .nil)
  | (.sequence, rest) => rest ≠ .nil
  | (.define, key) => ∃ name, key = .symbol name
  | (.assign, target) => ∃ node, target = .environment node
  | (.collect, earlier) => ∃ items, earlier.elements = .ok items
  | (.restore, saved) => ∃ node, saved = .environment node
  | (.operands, _) | (.operator, _) | (.operand, _) => True

namespace Config

/-- What a step may do to the environment and the frames. -/
inductive Moves [Saving] (c : Config) : Addr → List Frame → Prop
  -- Reducing an expression
  | reduced {e : Value} (hfocus : c.focus = .reduce e) : Moves c c.env c.stack.frames
  | pushed {e : Value} {kind : FrameKind} {payload : Value} (hfocus : c.focus = .reduce e)
      (hkind : kind.isOfForm = true) (hpayload : Frame.Documented (kind, payload)) :
      Moves c c.env ((kind, payload) :: c.stack.frames)
  -- Handing a value to a frame
  | popped {v : Value} {kind : FrameKind} {payload : Value} {rest : List Frame}
      (hfocus : c.focus = .drain v) (hframes : c.stack.frames = (kind, payload) :: rest)
      (hkind : kind.isOfForm = true) : Moves c c.env rest
  | advanced {v expressions more : Value} {rest : List Frame} (hfocus : c.focus = .drain v)
      (hframes : c.stack.frames = (.sequence, expressions) :: rest) (hmore : more ≠ .nil) :
      Moves c c.env ((.sequence, more) :: rest)
  | operandsBegun {v chain : Value} {others : List Value} {rest : List Frame}
      (hfocus : c.focus = .drain v) (hframes : c.stack.frames = (.operands, chain) :: rest) :
      Moves c c.env
        ((.collect, .nil) :: (others.map (FrameKind.operand, ·) ++ (.operator, v) :: rest))
  | operandCollected {v earlier e : Value} {stamp : Nat} {rest : List Frame}
      (hfocus : c.focus = .drain v)
      (hframes : c.stack.frames = (.collect, earlier) :: (.operand, e) :: rest) :
      Moves c c.env ((.collect, .pair stamp v earlier) :: rest)
  | operandsCollected {v earlier callee : Value} {rest : List Frame}
      (hfocus : c.focus = .drain v)
      (hframes : c.stack.frames = (.collect, earlier) :: (.operator, callee) :: rest) :
      Moves c c.env rest
  | restored {v : Value} {node : Addr} {rest : List Frame} (hfocus : c.focus = .drain v)
      (hframes : c.stack.frames = (.restore, .environment node) :: rest) : Moves c node rest
  -- Calling a procedure
  | called {callee arguments : Value} (hfocus : c.focus = .call callee arguments)
      (hcallee : ∀ stamp frames, callee ≠ .continuation stamp frames) :
      Moves c c.env c.stack.frames
  | captured {arguments argument : Value}
      (hfocus : c.focus = .call .callWithContinuation arguments)
      (hone : arguments.elements = .ok [argument]) :
      Moves c c.env (Saving.save c.env c.stack).frames
  | entered {stamp : Nat} {parameters body arguments : Value} {home frame : Addr}
      (hfocus : c.focus = .call (.closure stamp parameters body home) arguments) :
      Moves c frame ((.sequence, body) :: (Saving.save c.env c.stack).frames)
  | reinstated {stamp : Nat} {frames : List Frame} {arguments : Value}
      (hfocus : c.focus = .call (.continuation stamp frames) arguments) : Moves c c.env frames

end Config

/-- A transition made one of the moves. -/
def Transition.Moved [Saving] (c : Config) : Transition → Prop
  | .running after => c.Moves after.env after.stack.frames
  | .suspended _ after => c.Moves after.env after.stack.frames
  | .finished .. | .failed .. => True

namespace Config

variable [Saving] {c : Config}

theorem Goes.moves {focus : Focus} {env : Addr} {k : Stack} (h : c.Goes focus env k) :
    c.Moves env k.frames := by
  cases h with
  | valued hfocus => exact .reduced hfocus
  | @tested e test yes no hfocus hform =>
      refine .pushed hfocus rfl ?_
      rcases Form.afterSecond_of_branch hform with ⟨_, stamp, harms⟩ | ⟨x, stamp, inner, _, harms⟩
      · exact .inl ⟨stamp, yes, harms⟩
      · exact .inr ⟨stamp, yes, inner, x, harms⟩
  | @begun e x rest stamp hfocus hform =>
      rcases c.stack.frames_forRest rest with ⟨_, hframes⟩ | ⟨hrest, hframes⟩
      · rw [hframes]
        exact .reduced hfocus
      · rw [hframes]
        exact .pushed hfocus rfl hrest
  | named hfocus hform => exact .pushed hfocus rfl ⟨_, rfl⟩
  | defining hfocus hform => exact .pushed hfocus rfl ⟨_, rfl⟩
  | assigning hfocus hform hfind => exact .pushed hfocus rfl ⟨_, rfl⟩
  | applying hfocus hform => exact .pushed hfocus rfl trivial
  | chosen hfocus hpop harm => exact .popped hfocus (Stack.frames_of_pop? hpop) rfl
  | noted hfocus hpop hkind =>
      refine .popped hfocus (Stack.frames_of_pop? hpop) ?_
      rcases hkind with rfl | rfl | rfl
      all_goals rfl
  | @advanced v x rest stamp below hfocus hpop =>
      have htop := Stack.frames_of_pop? hpop
      rcases below.frames_forRest rest with ⟨_, hframes⟩ | ⟨hrest, hframes⟩
      · rw [hframes]
        exact .popped hfocus htop rfl
      · rw [hframes]
        exact .advanced hfocus htop hrest
  | calling hfocus hpop => exact .popped hfocus (Stack.frames_of_pop? hpop) rfl
  | operandsBegun hfocus hpop hothers =>
      rw [Stack.frames_push, Stack.frames_pushOperands, Stack.frames_push]
      exact .operandsBegun hfocus (Stack.frames_of_pop? hpop)
  | operandCollected hfocus hpop hnext =>
      have htop := Stack.frames_of_pop? hpop
      rw [Stack.frames_of_pop? hnext] at htop
      exact .operandCollected hfocus htop
  | operandsCollected hfocus hpop hnext =>
      have htop := Stack.frames_of_pop? hpop
      rw [Stack.frames_of_pop? hnext] at htop
      exact .operandsCollected hfocus htop
  | restored hfocus hpop => exact .restored hfocus (Stack.frames_of_pop? hpop)
  | answered hfocus => exact .called hfocus nofun
  | passed hfocus => exact .called hfocus nofun
  | captured hfocus hone => exact .captured hfocus hone
  | entered hfocus => exact .entered hfocus
  | reinstated hfocus => exact .reinstated hfocus

/-- There are no other moves. -/
theorem step_moved (c : Config) : c.step.Moved c := by
  have hfollows := c.step_follows
  generalize c.step = t at hfollows
  cases t with
  | running after => exact hfollows.moves
  | suspended suspension after =>
      obtain ⟨⟨p, arguments, hfocus⟩, henv, hstack⟩ := hfollows
      rw [Transition.Moved, henv, hstack]
      exact .called hfocus nofun
  | finished v after => trivial
  | failed fault after => trivial

end Config

end SchemeMachine
