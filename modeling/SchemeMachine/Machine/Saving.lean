import SchemeMachine.Machine.Stack

/-!
# Saving the environment over a call

A call leaves the environment it is made in, so that environment is saved on the
stack before the call and found there after it.  There is more than one way to do
this.  The machine is defined for any `Saving`, which says what is put on the stack,
and what is shown of a value when its text is made.

The programs of this library run with `Saving.eliding`.
-/

namespace SchemeMachine

/-- A way of saving the environment over a call. -/
class Saving where
  /-- Save an environment on a stack. -/
  save : Addr → Stack → Stack
  /-- What the text of a value is made from. -/
  shown : Value → Value

/-- The environment is saved unless the top frame already returns to some
environment; values are shown as they are. -/
instance Saving.eliding : Saving where
  save := Stack.pushRestore
  shown := id

namespace Saving

@[simp] theorem save_eliding (env : Addr) (k : Stack) : save env k = k.pushRestore env := rfl

@[simp] theorem shown_eliding (v : Value) : shown v = v := rfl

end Saving

/-- A way of saving that either leaves a frame which returns to the environment, or
does nothing because the top frame returns to some environment. -/
class LawfulSaving [Saving] : Prop where
  frames_save (env : Addr) (k : Stack) :
    (Saving.save env k).frames = (.restore, .environment env) :: k.frames ∨
      k.top? = some .restore ∧ (Saving.save env k).frames = k.frames

instance : LawfulSaving where
  frames_save env k := by
    rw [Saving.save_eliding, Stack.pushRestore]
    by_cases htop : k.top? = some .restore
    · rw [if_pos htop]
      exact .inr ⟨htop, rfl⟩
    · rw [if_neg htop]
      exact .inl rfl

end SchemeMachine
