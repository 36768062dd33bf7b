import SchemeMachine.Value.Basic

/-!
# The frame stack

The work an evaluation still has to do, as a stack of frames with the next one
on top.  The stack knows its depth, and its peak, the greatest depth it has had.

`pushRestore` is what makes tail calls cheap: a call made when the next thing to
do is to restore an environment need not save the current one, because nothing
will run in it any more.
-/

namespace SchemeMachine

/-- A stack of frames, the top one first. -/
structure Stack where
  frames : List Frame
  depth : Nat
  peak : Nat
  depth_eq : depth = frames.length

namespace Stack

/-- No work left. -/
def empty : Stack :=
  ⟨[], 0, 0, rfl⟩

/-- A stack that starts out with these frames. -/
def ofFrames (frames : List Frame) : Stack :=
  ⟨frames, frames.length, frames.length, rfl⟩

/-- Put a frame on top. -/
def push (kind : FrameKind) (payload : Value) (k : Stack) : Stack :=
  ⟨(kind, payload) :: k.frames, k.depth + 1, max k.peak (k.depth + 1), by simp [k.depth_eq]⟩

/-- Take the top frame off. -/
def pop? : Stack → Option (Frame × Stack)
  | ⟨[], _, _, _⟩ => none
  | ⟨frame :: frames, depth, peak, h⟩ => some (frame, ⟨frames, depth - 1, peak, by simp [h]⟩)

/-- The kind of the top frame. -/
def top? (k : Stack) : Option FrameKind :=
  k.frames.head?.map (·.1)

/-- Put a frame on top that returns to `env`, unless the top frame already
returns to some environment. -/
def pushRestore (env : Addr) (k : Stack) : Stack :=
  if k.top? = some .restore then k else k.push .restore (.environment env)

/-- Replace all the frames. -/
def reinstate (frames : List Frame) (k : Stack) : Stack :=
  ⟨frames, frames.length, max k.peak frames.length, rfl⟩

/-! ## What the operations do to the frames -/

@[simp] theorem frames_push (kind : FrameKind) (payload : Value) (k : Stack) :
    (k.push kind payload).frames = (kind, payload) :: k.frames := rfl

@[simp] theorem frames_reinstate (frames : List Frame) (k : Stack) :
    (k.reinstate frames).frames = frames := rfl

theorem frames_pushRestore (env : Addr) (k : Stack) :
    (k.pushRestore env).frames =
      if k.top? = some .restore then k.frames else (.restore, .environment env) :: k.frames := by
  unfold pushRestore
  split <;> rfl

theorem pop?_eq_none_iff (k : Stack) : k.pop? = none ↔ k.frames = [] := by
  obtain ⟨frames, depth, peak, h⟩ := k
  cases frames <;> simp [pop?]

theorem frames_of_pop? {k below : Stack} {frame : Frame} (h : k.pop? = some (frame, below)) :
    k.frames = frame :: below.frames := by
  obtain ⟨frames, depth, peak, hdepth⟩ := k
  cases frames with
  | nil => simp [pop?] at h
  | cons top rest =>
    simp only [pop?, Option.some.injEq, Prod.mk.injEq] at h
    obtain ⟨rfl, rfl⟩ := h
    rfl

theorem pop?_of_frames {k : Stack} {frame : Frame} {frames : List Frame}
    (h : k.frames = frame :: frames) :
    ∃ below, k.pop? = some (frame, below) ∧ below.frames = frames := by
  obtain ⟨_, depth, peak, hdepth⟩ := k
  cases h
  exact ⟨_, rfl, rfl⟩

end Stack

end SchemeMachine
