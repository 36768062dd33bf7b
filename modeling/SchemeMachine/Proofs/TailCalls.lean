import SchemeMachine.Proofs.NarrowStacks

/-!
# Tail calls take no room

No frame waits for a call in tail position.  So a loop, which makes all its calls with
nothing left to do after them, never has more than one frame that restores an
environment, and its stack stays as low as the width of the code, however long it runs.
-/

namespace SchemeMachine

open SchemeMachine.Frame (topRun topRun_cons)

/-- Whether no call is made but of a primitive, or of a closure with nothing left to do
after it. -/
def Thread.loops (th : Thread) : Bool :=
  match th.phase with
  | .running (.call .callWithContinuation _) | .running (.call (.continuation ..) _) => false
  | .running (.call (.closure ..) _) => th.stack.top? = none ∨ th.stack.top? = some .restore
  | _ => true

namespace Frame

/-- No frame lies below one that restores an environment. -/
def Flat : List Frame → Prop
  | [] => True
  | (.restore, _) :: frames => frames = []
  | _ :: frames => Flat frames

variable {kind : FrameKind} {payload : Value} {frames : List Frame}

theorem Flat.below (h : Flat ((kind, payload) :: frames)) : Flat frames := by
  cases kind with
  | restore =>
      cases h
      trivial
  | _ => exact h

theorem Flat.length_le (h : Flat frames) : frames.length ≤ topRun frames + 1 := by
  induction frames with
  | nil => exact Nat.zero_le _
  | cons frame frames ih =>
      obtain ⟨kind, payload⟩ := frame
      by_cases hkind : kind = .restore
      · subst hkind
        cases h
        exact Nat.le_refl _
      · rw [topRun_cons hkind, List.length_cons]
        exact Nat.succ_le_succ (ih h.below)

theorem Flat.pushRestore {k : Stack} (h : Flat k.frames)
    (htop : k.top? = none ∨ k.top? = some .restore) (env : Addr) :
    Flat (k.pushRestore env).frames := by
  rw [Stack.frames_pushRestore]
  rcases htop with hnone | hrestore
  · have hframes : k.frames = [] := by simpa [Stack.top?] using hnone
    rw [hnone, hframes]
    rfl
  · rw [if_pos hrestore]
    exact h

end Frame

namespace Config

open SchemeMachine.Frame (Flat)

variable {c : Config}

theorem flat_below {frame : Frame} {k below : Stack} (h : Flat k.frames)
    (hpop : k.pop? = some (frame, below)) : Flat below.frames := by
  rw [Stack.frames_of_pop? hpop] at h
  exact h.below

theorem flat_forRest {k : Stack} (h : Flat k.frames) (rest : Value) :
    Flat (k.forRest rest).frames := by
  rcases k.frames_forRest rest with ⟨_, hframes⟩ | ⟨_, hframes⟩
  · rw [hframes]
    exact h
  · rw [hframes]
    exact h

theorem flat_operands {frames : List Frame} (h : Flat frames) (others : List Value) :
    Flat (others.map (FrameKind.operand, ·) ++ frames) := by
  induction others with
  | nil => exact h
  | cons other others ih => exact ih

theorem Goes.flat {focus : Focus} {env : Addr} {k : Stack} {records : Records}
    (hgoes : c.Goes focus env k)
    (hloops : Thread.loops ⟨.running c.focus, c.env, c.stack, records⟩ = true)
    (h : Flat c.stack.frames) : Flat k.frames := by
  cases hgoes with
  | valued | answered | passed => exact h
  | tested | named | defining | assigning | applying => exact h
  | begun => exact flat_forRest h _
  | chosen hfocus hpop | noted hfocus hpop | calling hfocus hpop | restored hfocus hpop =>
      exact flat_below h hpop
  | advanced hfocus hpop => exact flat_forRest (flat_below h hpop) _
  | @operandsBegun v first rest stamp others below hfocus hpop =>
      rw [Stack.frames_push, Stack.frames_pushOperands]
      have hbelow := flat_below h hpop
      have hoperator : Flat (below.push .operator v).frames := hbelow
      exact flat_operands hoperator others
  | operandCollected hfocus hpop hnext =>
      have hrest := flat_below (flat_below h hpop) hnext
      exact hrest
  | operandsCollected hfocus hpop hnext => exact flat_below (flat_below h hpop) hnext
  | captured hfocus | reinstated hfocus =>
      rw [hfocus] at hloops
      cases hloops
  | entered hfocus =>
      rw [hfocus] at hloops
      exact h.pushRestore (of_decide_eq_true hloops) c.env

theorem Fails.flat {fault : Fault} {k : Stack} {records : Records} (hfails : c.Fails fault k)
    (hloops : Thread.loops ⟨.running c.focus, c.env, c.stack, records⟩ = true)
    (h : Flat c.stack.frames) : Flat k.frames := by
  refine hfails.leaves h (fun _ _ hframes => hframes.below) ?_
  intro stamp parameters body home arguments hfocus
  rw [hfocus] at hloops
  exact h.pushRestore (of_decide_eq_true hloops) c.env

end Config

/-! ## The peak of a stack -/

namespace Stack

/-- The peak of a stack is no more than that of another, or than its own depth. -/
def PeaksOver (before after : Stack) : Prop :=
  after.peak ≤ max before.peak after.depth

variable {k after below : Stack}

theorem peaksOver_refl (k : Stack) : k.PeaksOver k :=
  Nat.le_max_left _ _

theorem PeaksOver.push (h : k.PeaksOver after) (kind : FrameKind) (payload : Value) :
    k.PeaksOver (after.push kind payload) := by
  simp only [PeaksOver, Stack.push] at h ⊢
  omega

theorem peaksOver_of_peak (h : after.peak = k.peak) : k.PeaksOver after := by
  rw [PeaksOver, h]
  exact Nat.le_max_left _ _

theorem peak_of_pop? {frame : Frame} (h : k.pop? = some (frame, below)) : below.peak = k.peak := by
  obtain ⟨frames, depth, peak, hdepth⟩ := k
  cases frames with
  | nil => cases h
  | cons top rest =>
      cases h
      rfl

theorem PeaksOver.pushRestore (h : k.PeaksOver after) (env : Addr) :
    k.PeaksOver (after.pushRestore env) := by
  unfold Stack.pushRestore
  split
  · exact h
  · exact h.push _ _

theorem PeaksOver.forRest (h : k.PeaksOver after) (rest : Value) :
    k.PeaksOver (after.forRest rest) := by
  cases rest with
  | nil => exact h
  | _ => exact h.push _ _

theorem PeaksOver.pushOperands (h : k.PeaksOver after) (operands : List Value) :
    k.PeaksOver (after.pushOperands operands) := by
  induction operands with
  | nil => exact h
  | cons operand operands ih => exact ih.push _ _

end Stack

namespace Config

variable {c : Config}

/-- Within a step the stack never stands higher than at one of its ends. -/
theorem Goes.peaksOver {focus : Focus} {env : Addr} {k : Stack} (hgoes : c.Goes focus env k) :
    c.stack.PeaksOver k := by
  have hsame := c.stack.peaksOver_refl
  have hpopped {frame : Frame} {below : Stack} (hpop : c.stack.pop? = some (frame, below)) :
      c.stack.PeaksOver below := Stack.peaksOver_of_peak (Stack.peak_of_pop? hpop)
  have hpoppedTwice {frame next : Frame} {below rest : Stack}
      (hpop : c.stack.pop? = some (frame, below)) (hnext : below.pop? = some (next, rest)) :
      c.stack.PeaksOver rest :=
    Stack.peaksOver_of_peak ((Stack.peak_of_pop? hnext).trans (Stack.peak_of_pop? hpop))
  cases hgoes with
  | valued | answered | passed => exact hsame
  | tested | named | defining | assigning | applying => exact hsame.push _ _
  | begun => exact hsame.forRest _
  | chosen hfocus hpop | noted hfocus hpop | calling hfocus hpop | restored hfocus hpop =>
      exact hpopped hpop
  | advanced hfocus hpop => exact (hpopped hpop).forRest _
  | operandsBegun hfocus hpop => exact (((hpopped hpop).push _ _).pushOperands _).push _ _
  | operandCollected hfocus hpop hnext => exact (hpoppedTwice hpop hnext).push _ _
  | operandsCollected hfocus hpop hnext => exact hpoppedTwice hpop hnext
  | captured => exact hsame.pushRestore c.env
  | entered => exact (hsame.pushRestore c.env).push _ _
  | reinstated => exact Nat.le_refl _

theorem Fails.peaksOver {fault : Fault} {k : Stack} (hfails : c.Fails fault k) :
    c.stack.PeaksOver k := by
  have hsame := c.stack.peaksOver_refl
  cases hfails with
  | refused | stuckForm | uncalled | overflowed => exact hsame
  | stuckFrame hfocus hpop | armless hfocus hpop | operandsRefused hfocus hpop
  | collectorLost hfocus hpop | misplaced hfocus hpop =>
      exact Stack.peaksOver_of_peak (Stack.peak_of_pop? hpop)
  | collectorMisled hfocus hpop hnext | collectedRefused hfocus hpop hnext =>
      exact Stack.peaksOver_of_peak ((Stack.peak_of_pop? hnext).trans (Stack.peak_of_pop? hpop))
  | unbound => exact (hsame.pushRestore c.env).push _ _

/-- A step of a loop leaves the stack flat. -/
theorem step_loops {records : Records}
    (hloops : Thread.loops ⟨.running c.focus, c.env, c.stack, records⟩ = true)
    (h : Frame.Flat c.stack.frames) :
    Frame.Flat c.step.config.stack.frames ∧ c.stack.PeaksOver c.step.config.stack := by
  have hfollows := c.step_follows
  generalize c.step = t at hfollows
  cases t with
  | running after => exact ⟨hfollows.flat hloops h, hfollows.peaksOver⟩
  | suspended suspension after =>
      rw [Transition.config, hfollows.2.2]
      exact ⟨h, c.stack.peaksOver_refl⟩
  | finished v after =>
      rw [Transition.config, hfollows.2.2]
      exact ⟨h, c.stack.peaksOver_refl⟩
  | failed fault after => exact ⟨hfollows.flat hloops h, hfollows.peaksOver⟩

end Config

/-! ## Whole histories -/

namespace World

/-- If the step changes the evaluation with this number, then as a loop does. -/
def LoopsAt (n : Nat) (w next : World) : Prop :=
  ∀ th, w.evaluation? n = some th → next.evaluation? n ≠ some th → th.loops = true

variable {rule : World → World → Prop} {es : List Value} {w next : World} {n : Nat}

theorem LoopsAt.flat {limit : Nat} (hloops : LoopsAt n w next) (hstep : Step w next)
    (h : ∀ th, w.evaluation? n = some th →
      Frame.Flat th.stack.frames ∧ th.stack.peak ≤ limit) {th : Thread}
    (hth : next.evaluation? n = some th) :
    Frame.Flat th.stack.frames ∧ th.stack.peak ≤ max limit th.stack.depth := by
  rcases hstep.evaluation hth with hempty |
    ⟨earlier, hearlier, hsame | ⟨focus, records, hphase, rfl⟩⟩
  · rw [hempty]
    exact ⟨trivial, Nat.zero_le _⟩
  · obtain ⟨hflat, hpeak⟩ := h earlier hearlier
    rw [hsame]
    exact ⟨hflat, Nat.le_trans hpeak (Nat.le_max_left _ _)⟩
  · obtain ⟨phase, env, k, past⟩ := earlier
    cases hphase
    obtain ⟨hflat, hpeak⟩ := h _ hearlier
    rw [(Thread.ofTransition_eq _ _).2.1]
    by_cases hchanged : next.evaluation? n = some ⟨.running focus, env, k, past⟩
    · rw [hchanged, Option.some.injEq] at hth
      have hstack := congrArg Thread.stack hth
      rw [(Thread.ofTransition_eq _ _).2.1] at hstack
      rw [← hstack]
      exact ⟨hflat, Nat.le_trans hpeak (Nat.le_max_left _ _)⟩
    · obtain ⟨hnext, hover⟩ := Config.step_loops (c := ⟨focus, env, k, w.shared⟩)
        (hloops _ hearlier hchanged) hflat
      refine ⟨hnext, Nat.le_trans hover ?_⟩
      exact Nat.max_le.mpr ⟨Nat.le_trans hpeak (Nat.le_max_left _ _), Nat.le_max_right _ _⟩

theorem Evaluated.depth_le (h : Evaluated rule es w) {th : Thread}
    (hth : w.evaluation? n = some th) (hflat : Frame.Flat th.stack.frames) :
    th.stack.depth ≤ Value.bound es + 1 := by
  have hmem : th ∈ w.threads := List.mem_reverse.mp (List.mem_of_getElem? hth)
  have hnarrow : Frame.Narrow (Value.bound es) th.stack.frames := (h.narrow.threads th hmem).1.law
  calc th.stack.depth
    _ = th.stack.frames.length := th.stack.depth_eq
    _ ≤ topRun th.stack.frames + 1 := hflat.length_le
    _ ≤ Value.bound es + 1 := Nat.succ_le_succ hnarrow.topRun_le

/-- The stack of a loop is flat, and has never been higher than the code is wide. -/
theorem Evaluated.flat (h : Evaluated rule es w)
    (hrule : ∀ u next, rule u next → LoopsAt n u next) :
    ∀ th, w.evaluation? n = some th →
      Frame.Flat th.stack.frames ∧ th.stack.peak ≤ Value.bound es + 1 := by
  induction h with
  | initial sh hstore =>
      intro th hth
      cases hth
  | @started es w next e h hstarts hstep ih =>
      intro th hth
      obtain ⟨hflat, hpeak⟩ := (hrule _ _ hstep).flat hstarts.step ih hth
      have hdepth := (h.started hstarts hstep).depth_le hth hflat
      have hbound : Value.bound es ≤ Value.bound (e :: es) := Nat.le_max_right _ _
      exact ⟨hflat, by omega⟩
  | @other es w next h hstep hquiet hfollows ih =>
      intro th hth
      obtain ⟨hflat, hpeak⟩ := (hrule _ _ hfollows).flat hstep ih hth
      have hdepth := (h.other hstep hquiet hfollows).depth_le hth hflat
      exact ⟨hflat, by omega⟩

end World

/-- **Tail calls take no room.**  Whatever has been evaluated, no stack and no
continuation has two adjacent frames that restore an environment, or more frames between
two of them than the code is wide.  An evaluation that calls closures only with nothing
left to do, and never captures or calls a continuation, has at most one frame more than
the code is wide, at any time. -/
theorem tail_calls_take_no_room {rule : World → World → Prop} {es : List Value} {w : World}
    (h : World.Evaluated rule es w) :
    (∀ th ∈ w.threads, Frame.Bounded (Value.bound es) th.stack.frames) ∧
    w.Obeys (.bounded (Value.bound es)) ∧
    ∀ n, (∀ u next, rule u next → World.LoopsAt n u next) → ∀ th, w.evaluation? n = some th →
      th.stack.depth ≤ Value.bound es + 1 ∧ th.stack.peak ≤ Value.bound es + 1 := by
  have hbounded := h.narrow.mono (Law.narrow_le_bounded _)
  refine ⟨fun th hth => (hbounded.threads th hth).1.law, hbounded, ?_⟩
  intro n hrule th hth
  obtain ⟨hflat, hpeak⟩ := h.flat hrule th hth
  exact ⟨h.depth_le hth hflat, hpeak⟩

/-- `((lambda (f) (f f)) (lambda (f) (f f)))` never ends. -/
def endless : Datum :=
  let twice : Datum := .ofList
    [.symbol "lambda", .ofList [.symbol "f"] .nil, .ofList [.symbol "f", .symbol "f"] .nil] .nil
  .ofList [twice, twice] .nil

/-- A hundred steps into the loop, its stack has never had more than three frames. -/
theorem tail_calls_take_no_room_in_endless_loop :
    ∃ th, (World.alone endless 100).evaluation? 0 = some th ∧
      Frame.Bounded 2 th.stack.frames ∧ th.stack.depth ≤ 3 ∧ th.stack.peak ≤ 3 := by
  have hloops : ∀ i ≤ 99, ((World.alone endless i).evaluation? 0).all Thread.loops = true := by
    decide +kernel
  obtain ⟨h, _⟩ := @World.evaluated_alone (World.LoopsAt 0) endless nofun 99 <| by
    intro i hi th hth _
    simpa [hth] using hloops i hi
  have hbound : Value.bound [(Shared.initial.onStore (Store.place endless)).1] = 2 := rfl
  obtain ⟨hbounded, _, hlow⟩ := tail_calls_take_no_room h
  obtain ⟨th, hth⟩ : ∃ th, (World.alone endless 100).evaluation? 0 = some th :=
    Option.isSome_iff_exists.mp (by decide +kernel)
  rw [hbound] at hbounded hlow
  have hmem : th ∈ (World.alone endless 100).threads :=
    List.mem_reverse.mp (List.mem_of_getElem? hth)
  exact ⟨th, hth, hbounded th hmem, hlow 0 (fun _ _ hrule => hrule) th hth⟩

end SchemeMachine
