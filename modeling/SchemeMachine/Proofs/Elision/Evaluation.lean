import SchemeMachine.Proofs.Elision.Lockstep
import SchemeMachine.Proofs.EnoughSteps

/-!
# Evaluations side by side

Two runs in lockstep come to the same end, or neither comes to one.  So starting or
resuming an evaluation has the same outcome with the plain machine, if enough steps
are allowed there, as it has with the other one, if enough are allowed here.
-/

namespace SchemeMachine

/-- An outcome with its values collapsed. -/
def Outcome.collapse : Outcome → Outcome
  | .value v => .value v.collapse
  | .suspended suspension => .suspended suspension.collapse
  | .failed failure => .failed failure
  | .exhausted => .exhausted

namespace Evaluation

/-- Where an evaluation stands, with its values collapsed. -/
def Status.collapse : Status → Status
  | .ready expression => .ready expression.collapse
  | .suspended suspension => .suspended suspension.collapse
  | .over => .over

/-- An evaluation with its values and its stack collapsed. -/
def collapse (ev : Evaluation) : Evaluation :=
  ⟨ev.status.collapse, ev.env, .ofFrames (Frame.collapse ev.stack.frames)⟩

/-- An evaluation whose stack has not been any deeper than it is. -/
def bare (ev : Evaluation) : Evaluation :=
  { ev with stack := .ofFrames ev.stack.frames }

/-- All that an evaluation may still run is sound. -/
def Sound (ev : Evaluation) : Prop :=
  match ev.status with
  | .ready expression => expression.Meets .sound ∧ Frame.AllMeet .sound ev.stack.frames ∧
      Frame.WellFormed ev.stack.frames
  | .suspended suspension => suspension.Meets .sound ∧ Frame.AllMeet .sound ev.stack.frames ∧
      Frame.WellFormed ev.stack.frames
  | .over => True

end Evaluation

/-- The values of an outcome are sound. -/
def Outcome.Sound : Outcome → Prop
  | .value v => v.Meets .sound
  | .suspended suspension => suspension.Meets .sound
  | .failed _ | .exhausted => True

namespace Stretch

/-- Collapsing what the plain machine gives is what the other one gives. -/
structure Matches (plain real : Stretch) : Prop where
  outcome : real.1.1 = plain.1.1.collapse
  evaluation : real.1.2.bare = plain.1.2.collapse
  shared : real.2 = plain.2.collapse

/-- All that is left is sound. -/
structure Sound (stretch : Stretch) : Prop where
  outcome : stretch.1.1.Sound
  evaluation : stretch.1.2.Sound
  store : stretch.2.store.Meets .sound

theorem Matches.exhausted_iff {plain real : Stretch} (h : plain.Matches real) :
    real.1.1 = .exhausted ↔ plain.1.1 = .exhausted := by
  rw [h.outcome]
  cases plain.1.1 with
  | exhausted => exact Iff.rfl
  | _ => exact ⟨nofun, nofun⟩

/-- Of two computations that are given any number of steps, each comes to an end if
the other does, and then what they give matches. -/
structure Agree (plain real : Nat → Stretch) : Prop where
  forth : ∀ {stretch : Stretch}, Evaluation.ComesTo plain stretch →
    stretch.Sound ∧ ∃ other : Stretch, Evaluation.ComesTo real other ∧ stretch.Matches other
  back : ∀ {other : Stretch}, Evaluation.ComesTo real other →
    ∃ stretch, Evaluation.ComesTo plain stretch

end Stretch

namespace Transition

/-- What an evaluation has come to at this point. -/
def stretch [Saving] (t : Transition) : Stretch :=
  Evaluation.ofHalt (t.run 0)

theorem ofHalt_run [Saving] (n : Nat) (t : Transition) :
    Evaluation.ofHalt (t.run n) = (t.after n).stretch := by
  induction n generalizing t with
  | zero => rfl
  | succ n ih =>
      cases t with
      | running c => exact ih c.step
      | _ => exact Eq.trans (by cases n <;> rfl) (ih _)

theorem Matches.stretch {t u : Transition} (h : t.Matches u)
    (hended : (@Transition.stretch .always t).1.1 ≠ .exhausted) :
    Stretch.Matches (@Transition.stretch .always t) u.stretch := by
  cases t with
  | running c => exact absurd rfl hended
  | finished v c =>
      cases u with
      | finished w d =>
          obtain ⟨rfl, hmatches, henv⟩ := h
          refine ⟨rfl, ?_, hmatches.shared⟩
          simp only [Transition.stretch, Evaluation.ofHalt, run, Evaluation.bare,
            Evaluation.collapse, Evaluation.Status.collapse, hmatches.frames, henv]
      | _ => cases h
  | suspended suspension c =>
      cases u with
      | suspended other d =>
          obtain ⟨rfl, hmatches, henv⟩ := h
          refine ⟨rfl, ?_, ?_⟩
          · simp only [Transition.stretch, Evaluation.ofHalt, run, Evaluation.bare,
              Evaluation.collapse, Evaluation.Status.collapse, hmatches.frames, henv]
          · simp only [Transition.stretch, Evaluation.ofHalt, run, hmatches.shared]
            cases suspension <;> rfl
      | _ => cases h
  | failed fault c =>
      cases u with
      | failed other d =>
          obtain ⟨rfl, hmatches, henv⟩ := h
          refine ⟨?_, ?_, hmatches.shared⟩
          · have hbare := Config.matches_iff.mp ⟨hmatches, henv⟩
            have hfailure : d.failure other = @Config.failure .always c other :=
              (Config.failure_eq_of_bare hbare other).trans (c.failure_collapse other)
            simp only [Transition.stretch, Evaluation.ofHalt, run, Outcome.collapse, hfailure]
          · simp only [Transition.stretch, Evaluation.ofHalt, run, Evaluation.bare,
              Evaluation.collapse, Evaluation.Status.collapse, hmatches.frames, henv]
      | _ => cases h

theorem Matches.isRunning {t u : Transition} (h : t.Matches u) :
    (@Transition.stretch .always t).1.1 = .exhausted ↔
      u.stretch.1.1 = .exhausted := by
  cases t <;> cases u <;> first | exact Iff.rfl | exact h.elim | exact ⟨nofun, nofun⟩

theorem Sound.stretch {t : Transition} (h : t.Sound) :
    Stretch.Sound (@Transition.stretch .always t) := by
  obtain ⟨hmeets, hframes⟩ := h
  cases t with
  | running c => exact ⟨trivial, trivial, hmeets.store⟩
  | finished v c => exact ⟨hmeets.1, trivial, hmeets.2⟩
  | suspended suspension c =>
      refine ⟨hmeets.1, ⟨hmeets.1, hmeets.2.1, hframes⟩, ?_⟩
      cases suspension <;> exact hmeets.2.2
  | failed fault c => exact ⟨trivial, trivial, hmeets⟩

theorem Sound.after [Saving] [LawfulSaving] {t : Transition} (h : t.Sound) (n : Nat) :
    (t.after n).Sound := by
  induction n generalizing t with
  | zero => exact h
  | succ n ih => exact ih h.next

/-- Runs in lockstep come to the same end, or neither comes to one. -/
theorem Matches.agree {t u : Transition} (h : t.Matches u) (hsound : t.Sound) :
    Stretch.Agree (fun n => Evaluation.ofHalt (@run .always n t))
      (fun n => Evaluation.ofHalt (u.run n)) := by
  obtain ⟨htogether, honward⟩ := h.inLockstep hsound
  simp only [@ofHalt_run .always, ofHalt_run]
  constructor
  · rintro stretch ⟨hended, n, rfl⟩
    have hmatches := (htogether n).stretch hended
    exact ⟨(@Sound.after .always .always _ hsound n).stretch, _,
      ⟨mt hmatches.exhausted_iff.mp hended, _, rfl⟩, hmatches⟩
  · rintro other ⟨hended, m, rfl⟩
    obtain ⟨n, rfl⟩ := honward m
    exact ⟨_, mt (htogether n).isRunning.mp hended, n, rfl⟩

end Transition

theorem Stretch.Agree.const {plain real : Stretch} (hsound : plain.Sound)
    (hmatches : plain.Matches real) : Agree (fun _ => plain) (fun _ => real) := by
  constructor
  · rintro stretch ⟨hended, _, rfl⟩
    exact ⟨hsound, real, ⟨mt hmatches.exhausted_iff.mp hended, 0, rfl⟩, hmatches⟩
  · rintro other ⟨hended, _, rfl⟩
    exact ⟨plain, mt hmatches.exhausted_iff.mpr hended, 0, rfl⟩

namespace Evaluation

/-- The run that starting an evaluation begins, if it may be started. -/
def started (ev : Evaluation) (sh : Shared) : Option Transition :=
  match ev.status with
  | .ready e => some (.running ⟨.reduce e, ev.env, ev.stack, sh⟩)
  | _ => none

/-- The run that resuming an evaluation begins, if it is suspended. -/
def resumed (answer : Option String) (ev : Evaluation) (sh : Shared) : Option Transition :=
  match ev.status with
  | .suspended suspension =>
    some (Config.resume suspension answer ⟨.drain .void, ev.env, ev.stack, sh⟩)
  | _ => none

/-- What the run that begins comes to, or the refusal to begin one. -/
def begun [Saving] (refusal : Fault) (ev : Evaluation) (sh : Shared) (steps : Nat) :
    Option Transition → Stretch
  | some t => ofHalt (t.run steps)
  | none => ((.failed (.plain refusal), ev), sh)

theorem start_eq [Saving] (n : Nat) (ev : Evaluation) (sh : Shared) :
    ev.start n sh = begun .alreadyStarted ev sh n (ev.started sh) := by
  obtain ⟨status, env, k⟩ := ev
  cases status <;> rfl

theorem resume_eq [Saving] (n : Nat) (answer : Option String) (ev : Evaluation) (sh : Shared) :
    ev.resume n answer sh = begun .notSuspended ev sh n (ev.resumed answer sh) := by
  obtain ⟨status, env, k⟩ := ev
  cases status <;> rfl

variable {ev real : Evaluation} {sh : Shared}

/-- Either machine begins a run or neither does, and the runs match where they begin. -/
abbrev BeginAlike (plain real : Option Transition) : Prop :=
  Option.Rel (fun t u => t.Matches u ∧ t.Sound) plain real

theorem started_alike (hreal : real.bare = ev.collapse) (hsound : ev.Sound)
    (hstore : sh.store.Meets .sound) :
    BeginAlike (ev.started sh) (real.started sh.collapse) := by
  obtain ⟨status, env, k⟩ := ev
  obtain ⟨status', env', k'⟩ := real
  simp only [bare, collapse, Evaluation.mk.injEq] at hreal
  obtain ⟨rfl, rfl, hframes⟩ := hreal
  cases status with
  | ready e =>
      refine .some ⟨⟨⟨rfl, congrArg Stack.frames hframes, rfl⟩, .inl rfl⟩, ?_⟩
      exact ⟨⟨hsound.1, hsound.2.1, hstore⟩, hsound.2.2⟩
  | _ => exact .none

theorem resumed_alike (hreal : real.bare = ev.collapse) (hsound : ev.Sound)
    (hstore : sh.store.Meets .sound) (answer : Option String) :
    BeginAlike (ev.resumed answer sh) (real.resumed answer sh.collapse) := by
  obtain ⟨status, env, k⟩ := ev
  obtain ⟨status', env', k'⟩ := real
  simp only [bare, collapse, Evaluation.mk.injEq] at hreal
  obtain ⟨rfl, rfl, hframes⟩ := hreal
  cases status with
  | suspended suspension =>
      refine .some ⟨.of_bare ?_, ?_⟩
      · rw [← Config.bare_resume, ← Config.resume_collapse]
        simp only [Config.bare, Config.collapse, Focus.collapse, Value.collapse, hframes]
      · exact Config.resume_sound (c := ⟨.drain .void, env', k, sh⟩) hsound.1 hsound.2.1
          hstore hsound.2.2 answer
  | _ => exact .none

theorem BeginAlike.agree {refusal : Fault} {plain other : Option Transition}
    (h : BeginAlike plain other) (hreal : real.bare = ev.collapse) (hsound : ev.Sound)
    (hstore : sh.store.Meets .sound) :
    Stretch.Agree (fun n => @begun .always refusal ev sh n plain)
      (fun n => begun refusal real sh.collapse n other) := by
  cases h with
  | some hbegun => exact hbegun.1.agree hbegun.2
  | none => exact .const ⟨trivial, hsound, hstore⟩ ⟨rfl, hreal, rfl⟩

theorem BeginAlike.inLockstep {plain other : Option Transition} (h : BeginAlike plain other) :
    Option.Rel Transition.InLockstep plain other := by
  cases h with
  | some hbegun => exact .some (hbegun.1.inLockstep hbegun.2)
  | none => exact .none

theorem start_agree (hreal : real.bare = ev.collapse) (hsound : ev.Sound)
    (hstore : sh.store.Meets .sound) :
    Stretch.Agree (fun n => @start .always n ev sh) (fun n => real.start n sh.collapse) := by
  simp only [@start_eq .always, start_eq]
  exact (started_alike hreal hsound hstore).agree hreal hsound hstore

theorem resume_agree (hreal : real.bare = ev.collapse) (hsound : ev.Sound)
    (hstore : sh.store.Meets .sound) (answer : Option String) :
    Stretch.Agree (fun n => @resume .always n answer ev sh)
      (fun n => real.resume n answer sh.collapse) := by
  simp only [@resume_eq .always, resume_eq]
  exact (resumed_alike hreal hsound hstore answer).agree hreal hsound hstore

end Evaluation

end SchemeMachine
