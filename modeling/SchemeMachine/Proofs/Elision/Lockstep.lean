import SchemeMachine.Proofs.Elision.Step
import SchemeMachine.Proofs.WellFormed

/-!
# Runs side by side

The plain machine saves the environment at every call; the other one only where it
is of use.  Beside each other, the plain machine now and then takes off a superfluous
frame while the other one waits, and every other step they take together.  At all
times they are in configurations that match: collapsing the one gives the other.

The current environments are the same too, but for one thing.  After the plain
machine has taken off a superfluous frame it is in an environment that the other one
was never in.  Then the next frame restores an environment in either machine, and
nothing runs before that.

Superfluous frames come to an end, as each of them makes the stack smaller.  So the
other machine does not wait for ever: `InLockstep`.
-/

namespace SchemeMachine

/-! ## Transition by transition -/

namespace Transition

/-- One step, if there is one to take. -/
def next [Saving] : Transition → Transition
  | .running c => c.step
  | ended => ended

theorem next_running [Saving] (c : Config) : next (.running c) = c.step := rfl

/-- So many steps later. -/
def after [Saving] : Nat → Transition → Transition
  | 0, t => t
  | n + 1, t => after n t.next

/-- Whether the next step takes off a superfluous frame. -/
def isSuperfluous : Transition → Bool
  | .running ⟨.drain _, _, k, _⟩ =>
    match k.frames with
    | (.restore, _) :: (.restore, _) :: _ => true
    | _ => false
  | _ => false

/-- How many of the next steps of the plain machine take off superfluous frames. -/
def superfluous : Nat → Transition → Nat
  | 0, _ => 0
  | n + 1, t => (if t.isSuperfluous then 1 else 0) + superfluous n (@next .always t)

end Transition

/-- Collapsing the configuration of the plain machine gives that of the other one,
whatever environments they are in. -/
structure Config.Matches (plain real : Config) : Prop where
  focus : real.focus = plain.focus.collapse
  frames : real.stack.frames = Frame.collapse plain.stack.frames
  shared : real.shared = plain.shared.collapse

/-- The next frame restores an environment. -/
def Config.IsReturning (c : Config) : Prop :=
  (∃ v, c.focus = .drain v) ∧ c.stack.top? = some .restore

/-- The plain machine and the other one are at the same point. -/
def Transition.Matches : Transition → Transition → Prop
  | .running c, .running d => c.Matches d ∧ (d.env = c.env ∨ c.IsReturning)
  | .finished v c, .finished w d => w = v.collapse ∧ c.Matches d ∧ d.env = c.env
  | .suspended suspension c, .suspended other d =>
    other = suspension.collapse ∧ c.Matches d ∧ d.env = c.env
  | .failed fault c, .failed other d => other = fault ∧ c.Matches d ∧ d.env = c.env
  | _, _ => False

theorem Config.matches_iff {c d : Config} : c.Matches d ∧ d.env = c.env ↔ d.bare = c.collapse := by
  obtain ⟨focus, env, k, sh⟩ := c
  obtain ⟨focus', env', k', sh'⟩ := d
  constructor
  · rintro ⟨⟨hfocus, hframes, hshared⟩, henv⟩
    simp only at hfocus hframes hshared henv
    subst hfocus hshared henv
    simp only [bare, collapse, hframes]
  · intro h
    simp only [bare, collapse, Config.mk.injEq] at h
    obtain ⟨hfocus, henv, hframes, hshared⟩ := h
    exact ⟨⟨hfocus, congrArg Stack.frames hframes, hshared⟩, henv⟩

/-- Before a frame that restores an environment the current one does not matter. -/
theorem Config.IsReturning.step_eq {c : Config} (h : c.IsReturning)
    (hwell : Frame.WellFormed c.stack.frames) (env : Addr) :
    @Config.step .always { c with env := env } = @Config.step .always c := by
  obtain ⟨⟨v, hfocus⟩, htop⟩ := h
  obtain ⟨focus, found, k, sh⟩ := c
  subst hfocus
  rw [Stack.top?] at htop
  cases hframes : k.frames with
  | nil => simp [hframes] at htop
  | cons frame rest =>
      obtain ⟨kind, payload⟩ := frame
      simp only [hframes] at htop hwell
      cases Option.some.inj htop
      obtain ⟨⟨node, rfl⟩, _⟩ := hwell.of_restore
      obtain ⟨below, _, hstep⟩ := @Config.step_restore .always v node k sh _ hframes
      rw [hstep, hstep]

namespace Transition

theorem Matches.of_bare {t u : Transition} (h : u.bare = t.collapse) : t.Matches u := by
  cases t with
  | running c =>
      cases u with
      | running d =>
          injection h with hconfig
          obtain ⟨hmatches, henv⟩ := Config.matches_iff.mpr hconfig
          exact ⟨hmatches, .inl henv⟩
      | _ => cases h
  | finished v c =>
      cases u with
      | finished w d =>
          injection h with hvalue hconfig
          exact ⟨hvalue, Config.matches_iff.mpr hconfig⟩
      | _ => cases h
  | suspended suspension c =>
      cases u with
      | suspended other d =>
          injection h with hsuspension hconfig
          exact ⟨hsuspension, Config.matches_iff.mpr hconfig⟩
      | _ => cases h
  | failed fault c =>
      cases u with
      | failed other d =>
          injection h with hfault hconfig
          exact ⟨hfault, Config.matches_iff.mpr hconfig⟩
      | _ => cases h

theorem isSuperfluous_iff {t : Transition} :
    t.isSuperfluous = true ↔ ∃ v env k sh above below rest, t = .running ⟨.drain v, env, k, sh⟩ ∧
      k.frames = (.restore, above) :: (.restore, below) :: rest := by
  constructor
  · intro h
    unfold isSuperfluous at h
    split at h
    · split at h
      · exact ⟨_, _, _, _, _, _, _, rfl, ‹_›⟩
      · cases h
    · cases h
  · rintro ⟨v, env, k, sh, above, below, rest, rfl, hframes⟩
    simp only [isSuperfluous, hframes]

theorem isSuperfluous_of_top {c : Config} {v payload : Value} {rest : List Frame}
    (hfocus : c.focus = .drain v) (hframes : c.stack.frames = (.restore, payload) :: rest)
    (htop : rest.head?.map (·.1) = some .restore) : isSuperfluous (.running c) = true := by
  obtain ⟨focus, env, k, sh⟩ := c
  subst hfocus
  cases rest with
  | nil => cases htop
  | cons frame rest =>
      obtain ⟨kind, below⟩ := frame
      cases Option.some.inj htop
      exact isSuperfluous_iff.mpr ⟨_, _, _, _, _, _, _, rfl, hframes⟩

/-- While the plain machine takes off a superfluous frame, the other one waits. -/
theorem Matches.wait {t u : Transition} (h : t.Matches u) (hsound : t.Sound)
    (hsuperfluous : t.isSuperfluous = true) : (@next .always t).Matches u := by
  obtain ⟨v, env, k, sh, above, below, rest, rfl, hframes⟩ := isSuperfluous_iff.mp hsuperfluous
  have hwell : Frame.WellFormed k.frames := hsound.2
  rw [hframes] at hwell
  obtain ⟨⟨node, rfl⟩, _⟩ := hwell.of_restore
  obtain ⟨k', hk', hstep⟩ := @Config.step_restore .always v node k sh _ hframes
  cases u with
  | running d =>
      rw [@next_running .always, hstep]
      obtain ⟨⟨hfocus, hcollapsed, hshared⟩, _⟩ := h
      have htop : (((FrameKind.restore, below) :: rest).head?.map (·.1)) = some .restore := rfl
      refine ⟨⟨hfocus, ?_, hshared⟩, .inr ⟨⟨v, rfl⟩, ?_⟩⟩
      · rw [hcollapsed, hframes, Frame.collapse_restore_cons_of_restore htop, hk']
      · rw [Stack.top?, hk']
        rfl
  | _ => cases h

/-- Every other step the two machines take together. -/
theorem Matches.next {t u : Transition} (h : t.Matches u) (hsound : t.Sound)
    (hsuperfluous : t.isSuperfluous = false) : (@next .always t).Matches u.next := by
  cases t with
  | running c =>
      cases u with
      | running d =>
          obtain ⟨hmatches, henv⟩ := h
          have hwell : Frame.WellFormed c.stack.frames := hsound.2
          -- the step of the plain machine, were it in the other machine's environment
          have hstep : d.step.bare = (@Config.step .always { c with env := d.env }).collapse := by
            have hbare : d.bare = ({ c with env := d.env } : Config).collapse :=
              Config.matches_iff.mp ⟨⟨hmatches.focus, hmatches.frames, hmatches.shared⟩, rfl⟩
            rw [← Config.bare_step, hbare]
            refine Config.step_collapse _ fun v kind payload rest hfocus hframes hkind htop => ?_
            rw [show c.stack.frames = _ from hframes] at hwell
            rcases hkind with rfl | rfl
            · exact hwell.below_collect htop
            · have hagain : isSuperfluous (.running c) = true :=
                isSuperfluous_of_top hfocus hframes htop
              rw [hsuperfluous] at hagain
              cases hagain
          have hsame : @Config.step .always { c with env := d.env } = @Config.step .always c := by
            rcases henv with henv | hreturning
            · rw [henv]
            · exact hreturning.step_eq hwell d.env
          rw [hsame] at hstep
          exact .of_bare hstep
      | _ => cases h
  | _ =>
      cases u with
      | running d => cases h
      | _ => exact h

/-! ## Whole runs -/

theorem Sound.next [Saving] [LawfulSaving] {t : Transition} (h : t.Sound) : t.next.Sound := by
  cases t with
  | running c => exact Config.step_sound ⟨h.1, h.2⟩
  | _ => exact h

theorem superfluous_le (n : Nat) (t : Transition) : t.superfluous n ≤ n := by
  induction n generalizing t with
  | zero => exact Nat.le_refl 0
  | succ n ih =>
      have hrest := ih (@Transition.next .always t)
      rw [superfluous]
      split
      · omega
      · omega

/-- Two runs of the same evaluation: after so many steps of the plain machine the
other one has taken those of them that took off no superfluous frame, and it goes on
for as long as the plain machine does. -/
structure InLockstep (plain real : Transition) : Prop where
  together : ∀ n, (@after .always n plain).Matches (real.after (n - plain.superfluous n))
  onward : ∀ n, ∃ m, m - plain.superfluous m = n

theorem Matches.together {t u : Transition} (h : t.Matches u) (hsound : t.Sound) (n : Nat) :
    (@after .always n t).Matches (u.after (n - t.superfluous n)) := by
  induction n generalizing t u with
  | zero => exact h
  | succ n ih =>
      have hnext := @Sound.next .always .always _ hsound
      have hle := superfluous_le n (@Transition.next .always t)
      rw [superfluous]
      generalize hcount : superfluous n (@Transition.next .always t) = count at hle
      by_cases hsuperfluous : t.isSuperfluous = true
      · have hsteps : n + 1 - (1 + count) = n - count := by omega
        rw [if_pos hsuperfluous, hsteps, ← hcount]
        exact ih (h.wait hsound hsuperfluous) hnext
      · have hsteps : n + 1 - (0 + count) = n - count + 1 := by omega
        rw [if_neg hsuperfluous, hsteps, ← hcount]
        exact ih (h.next hsound (Bool.eq_false_iff.mpr hsuperfluous)) hnext

/-- The number of frames on the stack of a run. -/
def depth : Transition → Nat
  | .running c => c.stack.frames.length
  | _ => 0

theorem Sound.depth_next {t : Transition} (h : t.Sound) (hsuperfluous : t.isSuperfluous = true) :
    (@Transition.next .always t).depth < t.depth := by
  obtain ⟨v, env, k, sh, above, below, rest, rfl, hframes⟩ := isSuperfluous_iff.mp hsuperfluous
  have hwell : Frame.WellFormed k.frames := h.2
  rw [hframes] at hwell
  obtain ⟨⟨node, rfl⟩, _⟩ := hwell.of_restore
  obtain ⟨k', hk', hstep⟩ := @Config.step_restore .always v node k sh _ hframes
  rw [@next_running .always, hstep]
  simp only [depth, hk', hframes, List.length_cons]
  omega

theorem Sound.onward {t : Transition} (h : t.Sound) (n : Nat) :
    ∃ m, m - t.superfluous m = n := by
  induction n generalizing t with
  | zero => exact ⟨0, rfl⟩
  | succ n ih =>
      -- superfluous frames come to an end, since each makes the stack smaller
      induction hdepth : t.depth using Nat.strongRecOn generalizing t with
      | ind depth ihDepth =>
          have hnext := @Sound.next .always .always _ h
          by_cases hsuperfluous : t.isSuperfluous = true
          · obtain ⟨m, hm⟩ := ihDepth _ (hdepth ▸ h.depth_next hsuperfluous) hnext rfl
            refine ⟨m + 1, ?_⟩
            rw [superfluous, if_pos hsuperfluous]
            omega
          · obtain ⟨m, hm⟩ := ih hnext
            have hle := superfluous_le m (@Transition.next .always t)
            refine ⟨m + 1, ?_⟩
            rw [superfluous, if_neg hsuperfluous]
            omega

theorem Matches.inLockstep {t u : Transition} (h : t.Matches u) (hsound : t.Sound) :
    InLockstep t u :=
  ⟨h.together hsound, hsound.onward⟩

end Transition

end SchemeMachine
