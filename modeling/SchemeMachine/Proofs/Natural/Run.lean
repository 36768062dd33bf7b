import SchemeMachine.Proofs.Form
import SchemeMachine.Proofs.Service

/-!
# Runs above a stack

The machine evaluates an expression on top of whatever is on the stack, and is
done when it hands a value to the frames it found there.  `Served.Above frames`
holds of the states in between, and `Served.Runs` of the runs through such states.
A run above more frames is one above fewer, which is how the run of a part becomes
a stretch in the run of the whole.

`Settles` says how such a run ends.  It may find another environment at its end
than the one it began in: a call in tail position saves none, and leaves it to
the frame below to restore one.
-/

namespace SchemeMachine

namespace Focus

/-- Whether a value is handed to the frame on top of the stack. -/
def isDrain : Focus → Bool
  | drain _ => true
  | _ => false

/-- Whether `call/cc` or a continuation is called. -/
def escapes : Focus → Bool
  | call .callWithContinuation _ => true
  | call (.continuation ..) _ => true
  | _ => false

end Focus

namespace Served

variable {frames above : List Frame} {s t : Served}

/-- The run is not over, has not come back to `frames`, and does not leave them by
calling `call/cc` or a continuation. -/
def Above (frames : List Frame) : Served → Prop
  | ⟨.running c, _⟩ =>
    frames <:+ c.stack.frames ∧ (c.focus.isDrain = true → c.stack.frames ≠ frames) ∧
      c.focus.escapes = false
  | ⟨.suspended _ c, _⟩ => frames <:+ c.stack.frames
  | _ => False

/-- The state `t` comes `n` steps after `s`, and all of them are taken above
`frames`. -/
def Runs (frames : List Frame) : Nat → Served → Served → Prop
  | 0, s, t => s = t
  | n + 1, s, t => s.Above frames ∧ Runs frames n s.next t

theorem Runs.trans {m n : Nat} {u : Served} (hst : Runs frames m s t) (htu : Runs frames n t u) :
    Runs frames (m + n) s u := by
  induction m generalizing s with
  | zero =>
      cases hst
      rwa [Nat.zero_add]
  | succ m ih =>
      rw [Nat.add_right_comm]
      exact ⟨hst.1, ih hst.2⟩

theorem Runs.split {m n : Nat} {u : Served} (h : Runs frames (m + n) s u) :
    ∃ t, Runs frames m s t ∧ Runs frames n t u := by
  induction m generalizing s with
  | zero => exact ⟨s, rfl, by rwa [Nat.zero_add] at h⟩
  | succ m ih =>
      rw [Nat.add_right_comm] at h
      obtain ⟨t, hst, htu⟩ := ih h.2
      exact ⟨t, ⟨h.1, hst⟩, htu⟩

theorem runs_iff {n : Nat} :
    Runs frames n s t ↔ s.after n = t ∧ ∀ m < n, (s.after m).Above frames := by
  induction n generalizing s with
  | zero => simp [Runs]
  | succ n ih =>
      rw [Runs, ih, after_succ]
      constructor
      · rintro ⟨habove, ht, hrest⟩
        refine ⟨ht, fun m hm => ?_⟩
        cases m with
        | zero => exact habove
        | succ m => exact hrest m (by omega)
      · rintro ⟨ht, hall⟩
        exact ⟨hall 0 (by omega), ht, fun m hm => hall (m + 1) (by omega)⟩

/-! ## A run above more frames is a run above fewer -/

theorem Above.of_cons {frame : Frame} (h : s.Above (frame :: above)) (hframes : frames <:+ above) :
    s.Above frames := by
  obtain ⟨transition, lines⟩ := s
  have hsuffix : frames <:+ frame :: above := hframes.trans (List.suffix_cons frame above)
  cases transition with
  | running c =>
      refine ⟨hsuffix.trans h.1, fun _ heq => ?_, h.2.2⟩
      have hlong : (frame :: above).length ≤ c.stack.frames.length := h.1.length_le
      have hshort : frames.length ≤ above.length := hframes.length_le
      rw [heq, List.length_cons] at hlong
      omega
  | suspended suspension c => exact hsuffix.trans h
  | finished v c => exact h
  | failed fault c => exact h

theorem Runs.of_cons {frame : Frame} {n : Nat} (h : Runs (frame :: above) n s t)
    (hframes : frames <:+ above) : Runs frames n s t := by
  induction n generalizing s with
  | zero => exact h
  | succ n ih => exact ⟨h.1.of_cons hframes, ih h.2⟩

/-! ## How a run ends -/

/-- The run, begun in the environment `env`, comes back to `frames` with a value, or
fails above them. -/
def Settles (frames : List Frame) (env : Addr) (s : Served) :
    Except Fault Value → Interpreter → Prop
  | .ok v, i => ∃ n found k,
      Runs frames n s ⟨.running ⟨.drain v, found, k, i.shared⟩, i.lines⟩ ∧ k.frames = frames ∧
        (found = env ∨ k.top? = some .restore)
  | .error fault, i => ∃ n c,
      Runs frames n s ⟨.failed fault c, i.lines⟩ ∧ c.shared = i.shared ∧
        frames <:+ c.stack.frames

variable {env : Addr} {r : Except Fault Value} {i j : Interpreter}

theorem Settles.of_runs {n : Nat} (hrun : Runs frames n s t) (h : t.Settles frames env r j) :
    s.Settles frames env r j := by
  cases r with
  | ok v =>
      obtain ⟨m, found, k, hrest, hend⟩ := h
      exact ⟨n + m, found, k, hrun.trans hrest, hend⟩
  | error fault =>
      obtain ⟨m, c, hrest, hend⟩ := h
      exact ⟨n + m, c, hrun.trans hrest, hend⟩

theorem Settles.step (habove : s.Above frames) (h : s.next.Settles frames env r j) :
    s.Settles frames env r j :=
  Settles.of_runs (n := 1) ⟨habove, rfl⟩ h

/-- A value handed to the frames at once. -/
theorem Settles.value {k : Stack} {v : Value}
    (h : s = ⟨.running ⟨.drain v, env, k, j.shared⟩, j.lines⟩) : s.Settles k.frames env (.ok v) j :=
  ⟨0, env, k, h, rfl, .inl rfl⟩

/-- A fault at once. -/
theorem Settles.fault (fault : Fault) (c : Config) (lines : List String)
    (hframes : frames <:+ c.stack.frames) :
    Settles frames env ⟨.failed fault c, lines⟩ (.error fault) ⟨c.shared, lines⟩ :=
  ⟨0, c, rfl, rfl, hframes⟩

/-- A fault in a part is one of the whole. -/
theorem Settles.fault_of_cons {frame : Frame} {home : Addr} {fault : Fault}
    (h : s.Settles (frame :: above) home (.error fault) i) (hframes : frames <:+ above) :
    s.Settles frames env (.error fault) i := by
  obtain ⟨n, c, hrun, hshared, hstack⟩ := h
  exact ⟨n, c, hrun.of_cons hframes, hshared,
    hframes.trans ((List.suffix_cons frame above).trans hstack)⟩

/-- The value of a part is handed to the frame that was pushed for it, in the
environment the part began in: only a part right above a restoring frame may come
back in another one. -/
theorem Settles.resumes {kind : FrameKind} {payload v : Value}
    (h : s.Settles ((kind, payload) :: above) env (.ok v) i) (hkind : kind ≠ .restore)
    (hframes : frames <:+ above) :
    ∃ n below, below.frames = above ∧
      Runs frames n s
        ⟨Config.resumeFrame ⟨.drain v, env, below, i.shared⟩ kind payload v, i.lines⟩ := by
  obtain ⟨n, found, k, hrun, hk, hfound⟩ := h
  obtain rfl : found = env := by
    rcases hfound with hfound | htop
    · exact hfound
    · rw [Stack.top?, hk] at htop
      exact absurd (Option.some.inj htop) hkind
  obtain ⟨below, hpop, hbelow⟩ := Stack.pop?_of_frames hk
  refine ⟨n + 1, below, hbelow, (hrun.of_cons hframes).trans ⟨?_, ?_⟩⟩
  · refine ⟨?_, fun _ heq => ?_, rfl⟩
    · rw [hk]
      exact hframes.trans (List.suffix_cons _ above)
    · have hshort : frames.length ≤ above.length := hframes.length_le
      have hlong : frames.length = above.length + 1 := by rw [← heq, hk, List.length_cons]
      omega
  · simp only [Runs, next, Config.step, Config.drain, hpop]

end Served

end SchemeMachine
