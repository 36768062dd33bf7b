import SchemeMachine.Proofs.Moves
import SchemeMachine.Proofs.Requirement.Step

/-!
# Well formed stacks

A stack is a pile of blocks.  Most blocks are a single frame, which holds what frames
of its kind are made for.  The frames of a call whose operands are being evaluated
make one block: the operator, above it the operands still to come, and on top the
arguments that are there already.

Every step leaves such a stack if it finds one, and so does a continuation, which
brings back a stack that was captured.  Both have to be shown together, for all the
continuations that a program holds: `Config.Sound` is the invariant and `step_sound`
says that a step keeps it, whichever way environments are saved.
-/

namespace SchemeMachine

/-- The frames are a pile of blocks. -/
inductive Frame.WellFormed : List Frame → Prop
  | nil : WellFormed []
  | single {kind : FrameKind} {payload : Value} {rest : List Frame}
      (hkind : kind.isOfForm = true ∨ kind = .restore) (hpayload : Documented (kind, payload))
      (h : WellFormed rest) : WellFormed ((kind, payload) :: rest)
  | arguments {earlier callee : Value} {rest : List Frame} (operands : List Value)
      (hearlier : Documented (.collect, earlier)) (h : WellFormed rest) :
      WellFormed ((.collect, earlier) ::
        (operands.map (FrameKind.operand, ·) ++ (.operator, callee) :: rest))

namespace Frame.WellFormed

variable {frames rest : List Frame} {payload earlier : Value}

theorem of_form {kind : FrameKind} (h : WellFormed ((kind, payload) :: rest))
    (hkind : kind.isOfForm = true) : WellFormed rest := by
  cases h with
  | single _ _ h => exact h
  | arguments => cases hkind

theorem of_restore (h : WellFormed ((.restore, payload) :: rest)) :
    (∃ node, payload = .environment node) ∧ WellFormed rest := by
  cases h with
  | single _ hpayload h => exact ⟨hpayload, h⟩

theorem of_collect (h : WellFormed ((.collect, earlier) :: rest)) :
    ∃ (operands : List Value) (callee : Value) (below : List Frame),
      rest = operands.map (FrameKind.operand, ·) ++ (.operator, callee) :: below ∧
        Documented (.collect, earlier) ∧ WellFormed below := by
  generalize hframes : (FrameKind.collect, earlier) :: rest = frames at h
  cases h with
  | nil => cases hframes
  | single hkind _ _ =>
      cases hframes
      rcases hkind with hkind | hkind
      · cases hkind
      · cases hkind
  | arguments operands hearlier h =>
      injection hframes with hframe hrest
      cases hframe
      exact ⟨operands, _, _, hrest, hearlier, h⟩

/-- A frame that waits for an argument lies above an operand or an operator. -/
theorem below_collect (h : WellFormed ((.collect, earlier) :: rest)) :
    rest.head?.map (·.1) ≠ some .restore := by
  obtain ⟨operands, callee, below, rfl, _, _⟩ := h.of_collect
  cases operands with
  | nil => exact nofun
  | cons operand operands => exact nofun

theorem save [Saving] [LawfulSaving] {k : Stack} (h : WellFormed k.frames) (env : Addr) :
    WellFormed (Saving.save env k).frames := by
  rcases LawfulSaving.frames_save env k with hframes | ⟨_, hframes⟩
  · rw [hframes]
    exact .single (.inr rfl) ⟨env, rfl⟩ h
  · rwa [hframes]

end Frame.WellFormed

/-- Every move of the machine leaves a well formed stack, if closures have bodies and
continuations hold well formed stacks. -/
theorem Config.Moves.wellFormed [Saving] [LawfulSaving] {c : Config} {env : Addr}
    {frames : List Frame} (hmoves : c.Moves env frames) (h : Frame.WellFormed c.stack.frames)
    (hclosure : ∀ stamp parameters body home arguments,
      c.focus = .call (.closure stamp parameters body home) arguments → body ≠ .nil)
    (hcontinuation : ∀ stamp frames arguments,
      c.focus = .call (.continuation stamp frames) arguments → Frame.WellFormed frames) :
    Frame.WellFormed frames := by
  cases hmoves with
  | reduced hfocus => exact h
  | pushed hfocus hkind hpayload => exact .single (.inl hkind) hpayload h
  | popped hfocus hframes hkind => exact (hframes ▸ h).of_form hkind
  | advanced hfocus hframes hmore => exact .single (.inl rfl) hmore ((hframes ▸ h).of_form rfl)
  | operandsBegun hfocus hframes =>
      exact .arguments _ ⟨[], rfl⟩ ((hframes ▸ h).of_form rfl)
  | @operandCollected v earlier e stamp rest hfocus hframes =>
      obtain ⟨operands, callee, below, hrest, ⟨items, hitems⟩, hbelow⟩ := (hframes ▸ h).of_collect
      cases operands with
      | nil => cases hrest
      | cons operand operands =>
          cases hrest
          refine .arguments operands ⟨v :: items, ?_⟩ hbelow
          rw [Value.elements, hitems]
          rfl
  | operandsCollected hfocus hframes =>
      obtain ⟨operands, callee, below, hrest, _, hbelow⟩ := (hframes ▸ h).of_collect
      cases operands with
      | nil =>
          cases hrest
          exact hbelow
      | cons operand operands => cases hrest
  | restored hfocus hframes => exact (hframes ▸ h).of_restore.2
  | called hfocus hcallee => exact h
  | captured hfocus hone => exact h.save c.env
  | entered hfocus => exact .single (.inl rfl) (hclosure _ _ _ _ _ hfocus) (h.save c.env)
  | reinstated hfocus => exact hcontinuation _ _ _ hfocus

/-- Closures have bodies, and continuations hold well formed stacks. -/
def Requirement.sound : Requirement where
  closure _ body _ := body.isBody = true
  continuation _ frames := Frame.WellFormed frames

/-- The stack is well formed and everything in sight of the machine is sound. -/
structure Config.Sound (c : Config) : Prop where
  meets : c.Meets .sound
  frames : Frame.WellFormed c.stack.frames

/-- What a step leads to is sound. -/
def Transition.Sound (t : Transition) : Prop :=
  t.Meets .sound ∧
    match t with
    | .running c | .suspended _ c => Frame.WellFormed c.stack.frames
    | .finished .. | .failed .. => True

namespace Config

variable {c : Config}

theorem step_sound [Saving] [LawfulSaving] (h : c.Sound) : c.step.Sound := by
  constructor
  · exact step_meets h.meets (fun _ _ _ _ _ hbody => hbody) fun _ _ _ _ => h.frames.save c.env
  · have hmoves : ∀ {env : Addr} {frames : List Frame}, c.Moves env frames →
        Frame.WellFormed frames := by
      intro env frames hmoves
      have hfocus := h.meets.focus
      refine hmoves.wellFormed h.frames ?_ ?_
      · rintro stamp parameters body home arguments hcall rfl
        rw [hcall] at hfocus
        cases hfocus.1.1
      · intro stamp frames arguments hcall
        rw [hcall] at hfocus
        exact hfocus.1.1
    have hmoved := c.step_moved
    generalize c.step = t at hmoved
    cases t with
    | running after => exact hmoves hmoved
    | suspended suspension after => exact hmoves hmoved
    | finished v after => trivial
    | failed fault after => trivial

theorem resume_sound {suspension : Suspension} (hsuspension : suspension.Meets .sound)
    (hmeets : Frame.AllMeet .sound c.stack.frames) (hstore : c.store.Meets .sound)
    (hframes : Frame.WellFormed c.stack.frames) (answer : Option String) :
    (Config.resume suspension answer c).Sound := by
  refine ⟨resume_meets hsuspension hmeets hstore answer, ?_⟩
  unfold Config.resume
  generalize c.shared.resume suspension answer = result
  obtain ⟨fault | v | s, sh⟩ := result
  · trivial
  · exact hframes
  · exact hframes

end Config

end SchemeMachine
