import SchemeMachine.Proofs.Width
import SchemeMachine.Proofs.World.Laws

/-!
# Narrow stacks

Between two frames that restore an environment there are never more frames than the
widest expression or body asks for (`Value.bound`), and no two such frames lie directly
on each other.

The law is `Law.narrow`.  It looks, for every frame of a stack, at how far the stack may
grow above the frames below it once the frame has been taken off: `Frame.reach`.  What
it says of a stack as a whole is `Frame.Bounded`.
-/

namespace SchemeMachine

namespace Frame

/-! ## What is left to do in a frame -/

/-- How many frames may come to lie where a frame was, while its work is done; the frame
itself counts. -/
def reach : Frame → Nat
  | (.choose, arms) => max 1 (Width.widest arms.widths)
  | (.sequence, rest) => max 1 rest.sequenceWidth
  | (.operands, operands) => max 1 operands.operandsWidth
  | (.operand, e) => 1 + e.width
  | _ => 1

/-- The largest width of a body in the code of a frame. -/
def inner : Frame → Nat
  | (.choose, chain) | (.sequence, chain) | (.operands, chain) => chain.innerWidth
  | (.operand, e) => e.inner
  | _ => 0

/-- The number of frames above the first that restores an environment. -/
def topRun : List Frame → Nat
  | [] => 0
  | (.restore, _) :: _ => 0
  | _ :: frames => topRun frames + 1

/-- No two frames that restore an environment lie on each other, and the frames between
them never come to more than `limit`. -/
def Narrow (limit : Nat) : List Frame → Prop
  | [] => True
  | (.restore, _) :: frames => frames.head?.map (·.1) ≠ some .restore ∧ Narrow limit frames
  | frame :: frames =>
    topRun frames + reach frame ≤ limit ∧ inner frame ≤ limit ∧ Narrow limit frames

variable {limit : Nat} {kind : FrameKind} {payload : Value} {frames : List Frame}

theorem topRun_cons (hkind : kind ≠ .restore) :
    topRun ((kind, payload) :: frames) = topRun frames + 1 := by
  cases kind with
  | restore => exact absurd rfl hkind
  | _ => rfl

theorem narrow_cons (hkind : kind ≠ .restore) : Narrow limit ((kind, payload) :: frames) ↔
    topRun frames + reach (kind, payload) ≤ limit ∧ inner (kind, payload) ≤ limit ∧
      Narrow limit frames := by
  cases kind with
  | restore => exact absurd rfl hkind
  | _ => rfl

theorem Narrow.below (h : Narrow limit ((kind, payload) :: frames)) : Narrow limit frames := by
  cases kind with
  | restore => exact h.2
  | _ => exact h.2.2

theorem Narrow.mono {more : Nat} (hle : limit ≤ more) (h : Narrow limit frames) :
    Narrow more frames := by
  induction frames with
  | nil => trivial
  | cons frame frames ih =>
      obtain ⟨kind, payload⟩ := frame
      by_cases hkind : kind = .restore
      · subst hkind
        exact ⟨h.1, ih h.2⟩
      · rw [narrow_cons hkind] at h ⊢
        exact ⟨by omega, by omega, ih h.2.2⟩

theorem one_le_reach (frame : Frame) : 1 ≤ reach frame := by
  unfold reach
  split <;> omega

theorem Narrow.topRun_le (h : Narrow limit frames) : topRun frames ≤ limit := by
  cases frames with
  | nil => exact Nat.zero_le _
  | cons frame frames =>
      obtain ⟨kind, payload⟩ := frame
      by_cases hkind : kind = .restore
      · subst hkind
        exact Nat.zero_le _
      · rw [narrow_cons hkind] at h
        rw [topRun_cons hkind]
        have hreach := one_le_reach (kind, payload)
        omega

theorem Narrow.pushRestore {k : Stack} (h : Narrow limit k.frames) (env : Addr) :
    Narrow limit (k.pushRestore env).frames ∧ topRun (k.pushRestore env).frames = 0 := by
  rw [Stack.frames_pushRestore]
  by_cases htop : k.top? = some .restore
  · rw [if_pos htop]
    refine ⟨h, ?_⟩
    unfold Stack.top? at htop
    cases hframes : k.frames with
    | nil =>
        rw [hframes] at htop
        cases htop
    | cons frame frames =>
        obtain ⟨kind, payload⟩ := frame
        rw [hframes] at htop
        cases htop
        rfl
  · rw [if_neg htop]
    exact ⟨⟨htop, h⟩, rfl⟩

/-- A frame that waits for one value and then does nothing more with the stack. -/
theorem Narrow.pushPlain (h : Narrow limit frames) (hkind : kind ≠ .restore)
    (hreach : reach (kind, payload) = 1) (hinner : inner (kind, payload) = 0)
    (hroom : topRun frames + 1 ≤ limit) : Narrow limit ((kind, payload) :: frames) := by
  rw [narrow_cons hkind, hreach, hinner]
  exact ⟨hroom, Nat.zero_le _, h⟩

end Frame

open SchemeMachine.Frame (topRun reach Narrow narrow_cons)

/-- Every stack is narrow, and an expression is reduced where there is room for its
width. -/
def Law.narrow (limit : Nat) : Law where
  requirement :=
    { closure := fun _ body _ => body.sequenceWidth ≤ limit ∧ body.innerWidth ≤ limit
      continuation := fun _ frames => Narrow limit frames }
  frames := Narrow limit
  expression e frames := topRun frames + e.width ≤ limit ∧ e.inner ≤ limit

theorem Law.narrow_mono {limit more : Nat} (hle : limit ≤ more) :
    Law.narrow limit ≤ Law.narrow more := by
  refine ⟨⟨?_, fun _ _ h => h.mono hle⟩, fun _ h => h.mono hle, ?_⟩
  · intro _ _ _ ⟨hwidth, hinner⟩
    exact ⟨Nat.le_trans hwidth hle, Nat.le_trans hinner hle⟩
  · intro _ _ ⟨hwidth, hinner⟩
    exact ⟨Nat.le_trans hwidth hle, Nat.le_trans hinner hle⟩

/-! ## The machine keeps its stacks narrow -/

namespace Config

variable {c : Config} {limit : Nat}

theorem narrow_below {frame : Frame} {k below : Stack} (h : Narrow limit k.frames)
    (hpop : k.pop? = some (frame, below)) : Narrow limit below.frames := by
  rw [Stack.frames_of_pop? hpop] at h
  exact h.below

/-- The rest of a sequence waits below its first expression. -/
theorem narrow_forRest {stamp : Nat} {k : Stack} {x rest : Value} (h : Narrow limit k.frames)
    (hwidth : topRun k.frames + (Value.pair stamp x rest).sequenceWidth ≤ limit)
    (hinner : (Value.pair stamp x rest).innerWidth ≤ limit) :
    Narrow limit (k.forRest rest).frames ∧
      topRun (k.forRest rest).frames + x.width ≤ limit ∧ x.inner ≤ limit := by
  rw [Value.innerWidth_pair] at hinner
  obtain ⟨hlast, hmore⟩ := @Value.sequenceWidth_pair stamp x rest
  rcases k.frames_forRest rest with ⟨_, hframes⟩ | ⟨hrest, hframes⟩
  · rw [hframes]
    exact ⟨h, by omega, by omega⟩
  · obtain ⟨hfirst, hothers⟩ := hmore hrest
    simp only [hframes, Narrow, topRun, Frame.reach, Frame.inner]
    exact ⟨⟨by omega, by omega, h⟩, by omega, by omega⟩

/-- The operands of a call wait above the operator, each with room for the arguments
before it. -/
theorem narrow_operands {frames : List Frame} {v : Value} (h : Narrow limit frames)
    (hroom : topRun frames + 1 ≤ limit) (others : List Value)
    (hwidth : topRun frames + Width.operands (others.map Value.width) ≤ limit)
    (hinner : ∀ x ∈ others, x.inner ≤ limit) :
    Narrow limit (others.map (FrameKind.operand, ·) ++ (.operator, v) :: frames) ∧
      topRun (others.map (FrameKind.operand, ·) ++ (.operator, v) :: frames) =
        topRun frames + 1 + others.length := by
  induction others with
  | nil => exact ⟨h.pushPlain (by decide) rfl rfl hroom, rfl⟩
  | cons other others ih =>
      obtain ⟨hfirst, hothers⟩ := List.forall_mem_cons.mp hinner
      simp only [List.map_cons, Width.operands, List.length_map] at hwidth
      obtain ⟨hnarrow, hrun⟩ := ih (by omega) hothers
      simp only [List.map_cons, List.cons_append, Narrow, topRun, hrun, Frame.reach,
        Frame.inner, List.length_cons]
      exact ⟨⟨by omega, hfirst, hnarrow⟩, by omega⟩

/-- The body of a closure waits above a frame that restores an environment. -/
theorem narrow_enter {k : Stack} {env : Addr} {body : Value} (hlimit : 1 ≤ limit)
    (h : Narrow limit k.frames) (hbody : body.sequenceWidth ≤ limit ∧ body.innerWidth ≤ limit) :
    Narrow limit ((Saving.save env k).push .sequence body).frames := by
  obtain ⟨hsaved, hrun⟩ := h.pushRestore env
  simp only [Stack.frames_push, Saving.save_eliding, Narrow, hrun, Frame.reach, Frame.inner]
  exact ⟨by omega, hbody.2, hsaved⟩

theorem Goes.narrow {focus : Focus} {env : Addr} {k : Stack} (hlimit : 1 ≤ limit)
    (hgoes : c.Goes focus env k) (h : c.Obeys (.narrow limit)) :
    Narrow limit k.frames ∧ ∀ e, focus = .reduce e →
      topRun k.frames + e.width ≤ limit ∧ e.inner ≤ limit := by
  have hnarrow : Narrow limit c.stack.frames := h.frames.law
  have hroom {e : Value} (hfocus : c.focus = .reduce e) :
      topRun c.stack.frames + e.width ≤ limit ∧ e.inner ≤ limit := h.focus.expression e hfocus
  have hcallee := h.focus.meets
  -- what a frame other than a restoring one has left room for
  have htop {kind : FrameKind} {payload : Value} {below : Stack}
      (hpop : c.stack.pop? = some ((kind, payload), below)) (hkind : kind ≠ .restore) :
      topRun below.frames + reach (kind, payload) ≤ limit ∧ Frame.inner (kind, payload) ≤ limit ∧
        Narrow limit below.frames := by
    rw [Stack.frames_of_pop? hpop, narrow_cons hkind] at hnarrow
    exact hnarrow
  cases hgoes with
  | valued hfocus => exact ⟨hnarrow, by rintro _ ⟨⟩⟩
  | tested hfocus hform =>
      obtain ⟨hwidth, hinner⟩ := hroom hfocus
      obtain ⟨htest, harms⟩ := Value.width_branch hform
      obtain ⟨htestInner, harmsInner⟩ := Value.inner_branch hform
      simp only [Stack.frames_push, Narrow, topRun, Frame.reach, Frame.inner]
      refine ⟨⟨by omega, by omega, hnarrow⟩, ?_⟩
      rintro _ ⟨⟩
      exact ⟨by omega, by omega⟩
  | begun hfocus hform =>
      obtain ⟨hwidth, hinner⟩ := hroom hfocus
      obtain ⟨hsequence, hsequenceInner⟩ := Value.width_sequence hform
      obtain ⟨hframes, hfirst⟩ := narrow_forRest hnarrow (hsequence ▸ hwidth)
        (by omega)
      refine ⟨hframes, ?_⟩
      rintro _ ⟨⟩
      exact hfirst
  | named hfocus hform =>
      obtain ⟨hwidth, _⟩ := hroom hfocus
      rw [Value.width_procedure hform] at hwidth
      exact ⟨hnarrow.pushPlain (by decide) rfl rfl hwidth, by rintro _ ⟨⟩⟩
  | defining hfocus hform =>
      obtain ⟨hwidth, hinner⟩ := hroom hfocus
      obtain ⟨hx, hxInner⟩ := Value.width_value (.inl hform)
      refine ⟨hnarrow.pushPlain (by decide) rfl rfl (by omega), ?_⟩
      rintro _ ⟨⟩
      simp only [Stack.frames_push, topRun]
      exact ⟨by omega, by omega⟩
  | assigning hfocus hform hfind =>
      obtain ⟨hwidth, hinner⟩ := hroom hfocus
      obtain ⟨hx, hxInner⟩ := Value.width_value (.inr hform)
      refine ⟨hnarrow.pushPlain (by decide) rfl rfl (by omega), ?_⟩
      rintro _ ⟨⟩
      simp only [Stack.frames_push, topRun]
      exact ⟨by omega, by omega⟩
  | applying hfocus hform =>
      obtain ⟨hwidth, hinner⟩ := hroom hfocus
      obtain ⟨hoperator, hoperands, hoperatorInner, hoperandsInner⟩ :=
        Value.width_application hform
      simp only [Stack.frames_push, Narrow, topRun, Frame.reach, Frame.inner]
      refine ⟨⟨by omega, by omega, hnarrow⟩, ?_⟩
      rintro _ ⟨⟩
      exact ⟨by omega, by omega⟩
  | chosen hfocus hpop harm =>
      obtain ⟨hreach, hinner, hbelow⟩ := htop hpop (by decide)
      have hx := Value.width_le_widest harm
      have hxInner := Value.inner_le_innerWidth harm
      simp only [Frame.reach, Frame.inner] at hreach hinner
      refine ⟨hbelow, ?_⟩
      rintro _ ⟨⟩
      exact ⟨by omega, by omega⟩
  | noted hfocus hpop hkind => exact ⟨narrow_below hnarrow hpop, by rintro _ ⟨⟩⟩
  | advanced hfocus hpop =>
      obtain ⟨hreach, hinner, hbelow⟩ := htop hpop (by decide)
      simp only [Frame.reach, Frame.inner] at hreach hinner
      obtain ⟨hframes, hfirst⟩ := narrow_forRest hbelow (by omega) hinner
      refine ⟨hframes, ?_⟩
      rintro _ ⟨⟩
      exact hfirst
  | calling hfocus hpop => exact ⟨narrow_below hnarrow hpop, by rintro _ ⟨⟩⟩
  | @operandsBegun v first rest stamp others below hfocus hpop hothers =>
      obtain ⟨hreach, hinner, hbelow⟩ := htop hpop (by decide)
      have hitems := Value.items_of_elements hothers
      have hwidth : (Value.pair stamp first rest).operandsWidth =
          Width.operands (first.width :: others.map Value.width) := by
        rw [Value.operandsWidth, Value.isProper_pair,
          if_pos (Value.isProper_of_elements hothers), Value.widths, Value.widths_eq, hitems]
      simp only [Frame.reach, Frame.inner, hwidth, Width.operands, List.length_map,
        Value.innerWidth_pair] at hreach hinner
      have hothersInner : ∀ x ∈ others, x.inner ≤ limit := by
        intro x hx
        have hle := Value.inner_le_innerWidth (hitems ▸ hx)
        omega
      obtain ⟨hframes, hrun⟩ := @narrow_operands limit _ v hbelow (by omega) others (by omega)
        hothersInner
      rw [Stack.frames_push, Stack.frames_pushOperands, Stack.frames_push]
      refine ⟨hframes.pushPlain (by decide) rfl rfl (by omega), ?_⟩
      rintro _ ⟨⟩
      simp only [topRun, hrun]
      exact ⟨by omega, by omega⟩
  | operandCollected hfocus hpop hnext =>
      have hbelow := narrow_below hnarrow hpop
      simp only [Stack.frames_of_pop? hnext, Narrow, Frame.reach, Frame.inner] at hbelow
      obtain ⟨hreach, hinner, hrest⟩ := hbelow
      refine ⟨hrest.pushPlain (by decide) rfl rfl (by omega), ?_⟩
      rintro _ ⟨⟩
      simp only [Stack.frames_push, topRun]
      exact ⟨by omega, hinner⟩
  | operandsCollected hfocus hpop hnext =>
      exact ⟨narrow_below (narrow_below hnarrow hpop) hnext, by rintro _ ⟨⟩⟩
  | restored hfocus hpop => exact ⟨narrow_below hnarrow hpop, by rintro _ ⟨⟩⟩
  | answered hfocus => exact ⟨hnarrow, by rintro _ ⟨⟩⟩
  | passed hfocus => exact ⟨hnarrow, by rintro _ ⟨⟩⟩
  | captured hfocus hone => exact ⟨(hnarrow.pushRestore c.env).1, by rintro _ ⟨⟩⟩
  | entered hfocus =>
      rw [hfocus] at hcallee
      exact ⟨narrow_enter hlimit hnarrow hcallee.1.1, by rintro _ ⟨⟩⟩
  | reinstated hfocus =>
      rw [hfocus] at hcallee
      exact ⟨hcallee.1.1, by rintro _ ⟨⟩⟩

theorem Fails.narrow {fault : Fault} {k : Stack} (hlimit : 1 ≤ limit) (hfails : c.Fails fault k)
    (h : c.Obeys (.narrow limit)) : Narrow limit k.frames := by
  have hnarrow : Narrow limit c.stack.frames := h.frames.law
  refine hfails.leaves hnarrow (fun _ _ hframes => hframes.below) ?_
  intro stamp parameters body home arguments hfocus
  have hcallee := h.focus.meets
  rw [hfocus] at hcallee
  exact narrow_enter hlimit hnarrow hcallee.1.1

end Config

theorem Law.narrow_kept {limit : Nat} (hlimit : 1 ≤ limit) : (Law.narrow limit).Kept := by
  refine Law.kept_of ?_ ?_ ?_ ?_
  · intro c e parameters body h hfocus hmakes hbody
    obtain ⟨_, hinner⟩ := h.focus.expression e hfocus
    obtain ⟨hwidth, hbodyInner⟩ := Value.inner_makes hmakes
    have hbodyWidth : body.sequenceWidth = Width.sequence body.widths :=
      if_pos (Value.isProper_of_isBody hbody)
    exact ⟨by omega, by omega⟩
  · intro c h
    exact (h.frames.law.pushRestore c.env).1
  · intro c focus env k h hgoes
    exact hgoes.narrow hlimit h
  · intro c fault k h hfails
    exact hfails.narrow hlimit h

/-- Whatever has been evaluated, every stack is narrow. -/
theorem World.Evaluated.narrow {rule : World → World → Prop} {es : List Value} {w : World}
    (h : World.Evaluated rule es w) : w.Obeys (.narrow (Value.bound es)) := by
  refine h.obeys (fun es => .narrow (Value.bound es)) ?_ ?_ ?_ ?_
  · intro es
    exact Law.narrow_kept (Value.one_le_bound es)
  · intro es
    trivial
  · intro e es
    refine Law.narrow_mono ?_
    rw [Value.bound]
    omega
  · intro e es _
    simp only [Law.narrow, topRun, Value.bound]
    omega

/-! ## What a narrow stack looks like -/

namespace Frame

variable {limit : Nat} {frames : List Frame}

/-- The number of frames that restore an environment. -/
def restores (frames : List Frame) : Nat :=
  frames.countP (·.1 = .restore)

/-- No two frames that restore an environment are adjacent, the runs between them have at
most so many frames, and the depth is bounded accordingly. -/
structure Bounded (limit : Nat) (frames : List Frame) : Prop where
  apart : ∀ above below v w, frames ≠ above ++ (.restore, v) :: (.restore, w) :: below
  runs : ∀ above run below, frames = above ++ run ++ below → (∀ frame ∈ run, frame.1 ≠ .restore) →
    run.length ≤ limit
  depth : frames.length ≤ limit * (restores frames + 1) + restores frames

theorem Narrow.suffix {above below : List Frame} (h : Narrow limit (above ++ below)) :
    Narrow limit below := by
  induction above with
  | nil => exact h
  | cons frame above ih => exact ih h.below

theorem length_le_topRun {run : List Frame} (hrun : ∀ frame ∈ run, frame.1 ≠ .restore)
    (below : List Frame) : run.length ≤ topRun (run ++ below) := by
  induction run with
  | nil => exact Nat.zero_le _
  | cons frame run ih =>
      obtain ⟨hkind, hrest⟩ := List.forall_mem_cons.mp hrun
      rw [List.cons_append, topRun_cons hkind, List.length_cons]
      exact Nat.succ_le_succ (ih hrest)

theorem Narrow.length_le (h : Narrow limit frames) :
    frames.length ≤ topRun frames + (limit + 1) * restores frames := by
  induction frames with
  | nil => exact Nat.zero_le _
  | cons frame frames ih =>
      obtain ⟨kind, payload⟩ := frame
      have hbelow := ih h.below
      have hrun := h.below.topRun_le
      by_cases hkind : kind = .restore
      · have hcount : restores ((kind, payload) :: frames) = restores frames + 1 :=
          List.countP_cons_of_pos (by simpa using hkind)
        rw [hcount, List.length_cons, Nat.mul_succ]
        omega
      · have hcount : restores ((kind, payload) :: frames) = restores frames :=
          List.countP_cons_of_neg (by simpa using hkind)
        rw [hcount, topRun_cons hkind, List.length_cons]
        omega

theorem Narrow.bounded (h : Narrow limit frames) : Bounded limit frames where
  apart above below v w hframes := by
    subst hframes
    exact h.suffix.1 rfl
  runs above run below hframes hrun := by
    subst hframes
    rw [List.append_assoc] at h
    exact Nat.le_trans (length_le_topRun hrun below) h.suffix.topRun_le
  depth := by
    have hlength := h.length_le
    have hrun := h.topRun_le
    calc frames.length
      _ ≤ limit + (limit + 1) * restores frames := by omega
      _ = limit * (restores frames + 1) + restores frames := by
        rw [Nat.mul_succ, Nat.succ_mul]
        omega

end Frame

/-- The stacks of evaluations and the continuations that are held anywhere are bounded. -/
def Law.bounded (limit : Nat) : Law where
  requirement :=
    { closure := fun _ _ _ => True
      continuation := fun _ frames => Frame.Bounded limit frames }
  frames := Frame.Bounded limit
  expression _ _ := True

theorem Law.narrow_le_bounded (limit : Nat) : Law.narrow limit ≤ Law.bounded limit :=
  ⟨⟨fun _ _ _ _ => trivial, fun _ _ h => h.bounded⟩, fun _ h => h.bounded,
    fun _ _ _ => trivial⟩

end SchemeMachine
