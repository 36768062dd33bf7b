import SchemeMachine.Proofs.Environment.AppendOnly
import SchemeMachine.Proofs.Surroundings

/-!
# An evaluation run alone

`Evaluation.Alone` gathers all that an evaluation comes to when nothing else runs and each
suspension is answered, in whatever way.  An evaluation that, run alone, keeps off what exists
when it starts calls no `read`, defines nothing in a frame that exists, and assigns to no node
that exists.

Such an evaluation only ever changes nodes that it has made itself.  For a definition that takes
an argument: the current environment is a marker, and a marker whose address was in use at the
start has been a marker from the start.
-/

namespace SchemeMachine

/-! ## What a step changes -/

theorem Store.getElem?_insertAfter_of_ne {s : Store} {b d : Addr} (hb : b < s.nodes.size)
    (hne : b ≠ d) (entry : Entry) : (s.insertAfter d entry).nodes[b]? = s.nodes[b]? := by
  cases hd : s.nodes[d]? with
  | none => simp only [Store.insertAfter, hd]
  | some node => rw [Store.nodes_insertAfter hd, if_neg hne, if_neg (Nat.ne_of_lt hb)]

namespace Config

/-- The next step hands a value to this frame. -/
def Executes (c : Config) (frame : Frame) : Prop :=
  ∃ v below, c.focus = .drain v ∧ c.stack.frames = frame :: below

/-- The next step changes the node at the address. -/
inductive Touches (c : Config) : Addr → Prop
  | defined {key : Value} (h : c.Executes (.define, key)) : Touches c c.env
  | assigned {node : Addr} (h : c.Executes (.assign, .environment node)) : Touches c node

/-- The next step keeps off the input and off what exists in the store. -/
structure KeepsOff (s : Store) (c : Config) : Prop where
  unread : ¬ c.Reads
  undefined : ∀ key, c.Executes (.define, key) → ¬ s.IsMarker c.env
  unassigned : ∀ node, c.Executes (.assign, .environment node) → ¬ node < s.nodes.size

/-- A step leaves all other nodes as they are. -/
theorem nodes_of_not_touches {c : Config} {b : Addr} (hb : b < c.store.nodes.size)
    (h : ¬ c.Touches b) : c.step.config.store.nodes[b]? = c.store.nodes[b]? := by
  have heffect := c.step_effect
  generalize c.deed? = deed, c.step.config.store = t, c.step.config.env = env at heffect
  cases heffect with
  | kept hgrows => rw [hgrows.nodes]
  | restored _ _ => rfl
  | @defined v name rest hfocus hframes =>
      apply Store.getElem?_insertAfter_of_ne hb
      rintro rfl
      exact h (.defined ⟨v, rest, hfocus, hframes⟩)
  | @keyed v key label rest hfocus hframes _ =>
      apply Store.getElem?_insertAfter_of_ne hb
      rintro rfl
      exact h (.defined ⟨v, rest, hfocus, hframes⟩)
  | @assigned v node rest hfocus hframes =>
      rw [Store.nodes_assign, if_neg]
      rintro rfl
      exact h (.assigned ⟨v, rest, hfocus, hframes⟩)
  | opened _ _ =>
      have hnode := Array.getElem?_eq_getElem hb
      rw [hnode]
      exact Store.getElem?_openFrame hnode _ _

end Config

/-! ## Markers that were there from the start -/

theorem Thread.not_ready_ofTransition (records : Records) (x : Transition) (e : Value) :
    (ofTransition records x).phase ≠ .ready e := by
  cases x <;> simp [ofTransition]

namespace World

variable {w next later : World} {a : Addr}

/-- A later marker whose address was in use before has been a marker before. -/
theorem Anchored.isMarker_of_later (h : w.Anchored)
    (hlater : Relation.ReflTransGen Proceeds w later) :
    later.Anchored ∧ w.shared.store.nodes.size ≤ later.shared.store.nodes.size ∧
      ∀ a < w.shared.store.nodes.size, later.shared.store.IsMarker a →
        w.shared.store.IsMarker a := by
  induction hlater with
  | refl => exact ⟨h, Nat.le_refl _, fun a _ hmarker => hmarker⟩
  | @tail mid later _ hstep ih =>
      obtain ⟨hmid, hsize, hback⟩ := ih
      refine ⟨hmid.step hstep.1 hstep.2, ?_⟩
      have hproceeds := hmid.proceeds hstep
      generalize later.shared.store = t at hproceeds
      rcases hproceeds with ⟨deed, hdone⟩ | hnodes
      · refine ⟨Nat.le_trans hsize hdone.size_le, ?_⟩
        intro a ha ⟨entry, hentry, hmarker⟩
        rcases hdone.of_entryAt_marker hentry hmarker with hold | ⟨_, home, parameters, rfl⟩
        · exact hback a ha ⟨entry, hold, hmarker⟩
        · -- the frame that is opened is at the end of the store
          cases hdone
          omega
      · refine ⟨hnodes ▸ hsize, ?_⟩
        intro a ha hmarker
        exact hback a ha (hmarker.of_nodes hnodes.symm)

/-- A step that makes no evaluation leaves none to be started outside of the frames. -/
theorem Anchored.proceeds_of (h : w.Anchored) (hstep : Step w next)
    (hthreads : ∀ th ∈ next.threads, th ∈ w.threads ∨ ∀ e, th.phase ≠ .ready e) :
    Proceeds w next := by
  refine ⟨hstep, ?_⟩
  intro th hth e hready
  rcases hthreads th hth with hold | hother
  · exact hstep.isMarker (h.threads th hold)
  · exact absurd hready (hother e)

theorem mem_or_of_replaced {before after : List Thread} {old new : Thread}
    (hnew : ∀ e, new.phase ≠ .ready e) :
    ∀ th ∈ before ++ new :: after,
      th ∈ before ++ old :: after ∨ ∀ e, th.phase ≠ .ready e := by
  intro th hth
  simp only [List.mem_append, List.mem_cons] at hth ⊢
  rcases hth with hbefore | rfl | hafter
  · exact .inl (.inl hbefore)
  · exact .inr hnew
  · exact .inl (.inr (.inr hafter))

theorem Anchored.starts (h : w.Anchored) {e : Value} {env : Addr} {k : Stack} {records : Records}
    (hth : ⟨.ready e, env, k, records⟩ ∈ w.threads) :
    ∃ next, Proceeds w next ∧ next.shared = w.shared ∧
      ⟨.running (.reduce e), env, k, records⟩ ∈ next.threads := by
  obtain ⟨sh, threads, captures⟩ := w
  obtain ⟨before, after, rfl⟩ := List.append_of_mem hth
  refine ⟨_, h.proceeds_of .started (mem_or_of_replaced ?_), rfl, by simp⟩
  simp

theorem Anchored.steps (h : w.Anchored) {c : Config} {records : Records}
    (hshared : c.shared = w.shared) (hth : Thread.ofTransition records (.running c) ∈ w.threads) :
    ∃ next records', Proceeds w next ∧ next.shared = c.step.config.shared ∧
      .ofTransition records' c.step ∈ next.threads := by
  obtain ⟨sh, threads, captures⟩ := w
  obtain ⟨before, after, rfl⟩ := List.append_of_mem hth
  cases hshared
  refine ⟨_, c.nextRecords captures records, h.proceeds_of (.stepped rfl) (mem_or_of_replaced ?_),
    rfl, List.mem_append_right _ List.mem_cons_self⟩
  exact Thread.not_ready_ofTransition _ _

theorem Anchored.resumes (h : w.Anchored) {suspension : Suspension} {env : Addr} {k : Stack}
    {records : Records} (hth : ⟨.suspended suspension, env, k, records⟩ ∈ w.threads)
    (answer : Option String) {x : Transition}
    (hx : x = Config.resume suspension answer ⟨.drain .void, env, k, w.shared⟩) :
    ∃ next, Proceeds w next ∧ next.shared = x.config.shared ∧
      .ofTransition records x ∈ next.threads := by
  obtain ⟨sh, threads, captures⟩ := w
  obtain ⟨before, after, rfl⟩ := List.append_of_mem hth
  refine ⟨_, h.proceeds_of (.resumed answer hx) (mem_or_of_replaced ?_), rfl, by simp⟩
  exact Thread.not_ready_ofTransition _ _

/-- The host notes something. -/
theorem Anchored.notes (h : w.Anchored) {sh : Shared} (hstore : sh.store = w.shared.store) :
    Proceeds w ⟨sh, w.threads, w.captures⟩ := by
  obtain ⟨_, threads, captures⟩ := w
  exact h.proceeds_of (.hosted sh hstore) fun th hth => .inl hth

end World

/-! ## Runs -/

namespace Evaluation

/-- What the evaluation comes to when it is run alone from this state. -/
inductive Alone (ev : Evaluation) (sh : Shared) : Transition → Prop
  | started {e : Value} (hready : ev.status = .ready e) :
      Alone ev sh (.running ⟨.reduce e, ev.env, ev.stack, sh⟩)
  | stepped {c : Config} (h : Alone ev sh (.running c)) : Alone ev sh c.step
  | resumed {suspension : Suspension} {c : Config} (answer : Option String)
      (h : Alone ev sh (.suspended suspension c)) :
      Alone ev sh (Config.resume suspension answer
        ⟨.drain .void, c.env, c.stack, c.shared.noteSuspension suspension⟩)

namespace Alone

variable {ev : Evaluation} {w : World} {x : Transition} {c : Config}

/-- Running an evaluation alone is one of the things that may happen in a world. -/
theorem proceeds (hw : w.Anchored) {records : Records}
    (hth : Thread.ofEvaluation ev records ∈ w.threads) (h : ev.Alone w.shared x) :
    ∃ later, Relation.ReflTransGen World.Proceeds w later ∧ later.shared = x.config.shared ∧
      ∃ records', Thread.ofTransition records' x ∈ later.threads := by
  induction h with
  | @started e hready =>
      have hmem : (⟨.ready e, ev.env, ev.stack, records⟩ : Thread) ∈ w.threads := by
        rwa [Thread.ofEvaluation, hready] at hth
      obtain ⟨next, hstep, hshared, hnext⟩ := hw.starts hmem
      exact ⟨next, .single hstep, hshared, records, hnext⟩
  | stepped _ ih =>
      obtain ⟨later, hlater, hshared, records', hmem⟩ := ih
      obtain ⟨next, records'', hstep, hnext⟩ :=
        (hw.isMarker_of_later hlater).1.steps hshared.symm hmem
      exact ⟨next, hlater.tail hstep, hnext.1, records'', hnext.2⟩
  | @resumed suspension c answer _ ih =>
      obtain ⟨later, hlater, hshared, records', hmem⟩ := ih
      have hstore : (c.shared.noteSuspension suspension).store = later.shared.store := by
        rw [hshared]
        cases suspension <;> rfl
      have hnoted := hlater.tail ((hw.isMarker_of_later hlater).1.notes hstore)
      obtain ⟨next, hstep, hnext⟩ := (hw.isMarker_of_later hnoted).1.resumes hmem answer rfl
      exact ⟨next, hnoted.tail hstep, hnext.1, records', hnext.2⟩

/-- An evaluation that keeps off what exists at the start only changes nodes made since. -/
theorem le_of_touches (hw : w.Anchored) {records : Records}
    (hth : Thread.ofEvaluation ev records ∈ w.threads) (h : ev.Alone w.shared (.running c))
    (hkeeps : c.KeepsOff w.shared.store) {a : Addr} (htouches : c.Touches a) :
    w.shared.store.nodes.size ≤ a := by
  apply Nat.le_of_not_lt
  intro ha
  cases htouches with
  | defined hexecutes =>
      obtain ⟨later, hlater, hshared, records', hmem⟩ := h.proceeds hw hth
      obtain ⟨hanchored, _, hback⟩ := hw.isMarker_of_later hlater
      exact hkeeps.undefined _ hexecutes (hback _ ha (hanchored.threads _ hmem))
  | assigned hexecutes => exact hkeeps.unassigned _ hexecutes ha

/-- An evaluation that never reads is suspended for output only. -/
theorem isYield {sh : Shared} (hunread : ∀ c, ev.Alone sh (.running c) → ¬ c.Reads)
    {suspension : Suspension} (h : ev.Alone sh (.suspended suspension c)) :
    suspension.IsYield := by
  generalize hx : Transition.suspended suspension c = x at h
  induction h generalizing suspension c with
  | started _ => cases hx
  | @stepped c' h _ =>
      obtain ⟨_, halike⟩ := c'.step_amid c'.shared.surroundings (hunread c' h)
      exact halike.yields suspension c hx.symm
  | @resumed suspension' c' answer _ ih =>
      have hyield := ih rfl
      cases suspension' with
      | awaiting request => exact hyield.elim
      | yielding v => cases hx

end Alone

end Evaluation

/-! ## Checking a run

Whether an evaluation that ends keeps off what exists can be found out by running it alone. -/

/-- `Config.KeepsOff`, as a test. -/
def Config.keepsOff (s : Store) (c : Config) : Bool :=
  match c.focus, c.stack.frames with
  | .call (.primitive .read) .nil, _ => false
  | .drain _, (.define, _) :: _ => !(s.entryAt c.env).any Entry.isMarker
  | .drain _, (.assign, .environment node) :: _ => s.nodes.size ≤ node
  | _, _ => true

/-- The run ends within so many steps, and keeps off what exists in the store. -/
def Transition.keepsOff (s : Store) : Nat → Transition → Bool
  | steps + 1, .running c => c.keepsOff s && keepsOff s steps c.step
  | steps + 1, .suspended (.yielding v) c =>
    keepsOff s steps
      (.running ⟨.drain v, c.env, c.stack, c.shared.noteSuspension (.yielding v)⟩)
  | _, .finished _ _ => true
  | _, .failed _ _ => true
  | _, _ => false

theorem Config.keepsOff_of_test {s : Store} {c : Config} (h : c.keepsOff s = true) :
    c.KeepsOff s := by
  obtain ⟨focus, env, k, sh⟩ := c
  constructor
  · intro hreads
    obtain rfl : focus = .call (.primitive .read) .nil := hreads
    cases h
  · intro key ⟨v, below, hfocus, hframes⟩ ⟨entry, hentry, hmarker⟩
    obtain rfl : focus = .drain v := hfocus
    change k.frames = _ at hframes
    simp only [keepsOff, hframes, hentry, Option.any_some, hmarker] at h
    cases h
  · intro node ⟨v, below, hfocus, hframes⟩ hlt
    obtain rfl : focus = .drain v := hfocus
    change k.frames = _ at hframes
    simp only [keepsOff, hframes, decide_eq_true_eq] at h
    exact Nat.not_lt.mpr h hlt

/-- The test is passed wherever the evaluation comes to. -/
theorem Evaluation.Alone.exists_keepsOff {ev : Evaluation} {sh : Shared} {s : Store} {e : Value}
    (hready : ev.status = .ready e) {steps : Nat}
    (htest : Transition.keepsOff s steps (.running ⟨.reduce e, ev.env, ev.stack, sh⟩) = true)
    {x : Transition} (h : ev.Alone sh x) : ∃ steps, x.keepsOff s steps = true := by
  induction h with
  | started hready' =>
      cases hready.symm.trans hready'
      exact ⟨steps, htest⟩
  | stepped _ ih =>
      obtain ⟨steps, hsteps⟩ := ih
      cases steps with
      | zero => cases hsteps
      | succ steps =>
          rw [Transition.keepsOff, Bool.and_eq_true] at hsteps
          exact ⟨steps, hsteps.2⟩
  | @resumed suspension c answer _ ih =>
      obtain ⟨steps, hsteps⟩ := ih
      cases steps with
      | zero => cases hsteps
      | succ steps =>
          cases suspension with
          | awaiting request => cases hsteps
          | yielding v => exact ⟨steps, hsteps⟩

theorem Evaluation.Alone.keepsOff {ev : Evaluation} {sh : Shared} {s : Store} {e : Value}
    (hready : ev.status = .ready e) {steps : Nat}
    (htest : Transition.keepsOff s steps (.running ⟨.reduce e, ev.env, ev.stack, sh⟩) = true)
    {c : Config} (h : ev.Alone sh (.running c)) : c.KeepsOff s := by
  obtain ⟨steps, hsteps⟩ := h.exists_keepsOff hready htest
  cases steps with
  | zero => cases hsteps
  | succ steps =>
      rw [Transition.keepsOff, Bool.and_eq_true] at hsteps
      exact Config.keepsOff_of_test hsteps.1

end SchemeMachine
