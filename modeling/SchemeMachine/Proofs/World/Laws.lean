import SchemeMachine.Proofs.Code
import SchemeMachine.Proofs.Transitions
import SchemeMachine.Proofs.World.Captures

/-!
# Laws of the machine

A law asks something of every stack, something of the expression that is being reduced
on a stack, and something of every closure and continuation in sight.  If the
transitions of the machine keep a law (`Law.Kept`) then it holds wherever an interpreter
can get to: on the stacks of evaluations that run, that are suspended and that have
failed, and in the continuations that are held anywhere (`World.Evaluated.obeys`).

A law may depend on the expressions that have been evaluated so far.  So histories are
told here with them: `World.Evaluated` is `World.Reachable` with the expressions that
have been started, and with a rule that all the steps of the history follow.
-/

namespace SchemeMachine

/-! ## Histories with the expressions they evaluate -/

namespace World

/-- The step from the one world to the other starts an evaluation of the expression. -/
inductive Starts : World → World → Value → Prop
  | mk {sh : Shared} {before after : List Thread} {captures : List Capture} {e : Value}
      {env : Addr} {k : Stack} {records : Records} :
      Starts ⟨sh, before ++ ⟨.ready e, env, k, records⟩ :: after, captures⟩
        ⟨sh, before ++ ⟨.running (.reduce e), env, k, records⟩ :: after, captures⟩ e

/-- Some history whose steps follow the rule starts these expressions, the latest first,
and leads to the world. -/
inductive Evaluated (rule : World → World → Prop) : List Value → World → Prop
  | initial (sh : Shared) (hstore : sh.store = .initial) : Evaluated rule [] ⟨sh, [], []⟩
  | started {es : List Value} {w next : World} {e : Value} (h : Evaluated rule es w)
      (hstarts : Starts w next e) (hrule : rule w next) : Evaluated rule (e :: es) next
  | other {es : List Value} {w next : World} (h : Evaluated rule es w) (hstep : Step w next)
      (hquiet : ∀ e, ¬Starts w next e) (hrule : rule w next) : Evaluated rule es next

theorem Starts.step {w next : World} {e : Value} (h : Starts w next e) : Step w next := by
  cases h
  exact .started

/-- Every history starts some expressions. -/
theorem Reachable.evaluated {w : World} (h : w.Reachable) :
    ∃ es, Evaluated (fun _ _ => True) es w := by
  induction h with
  | initial sh hstore => exact ⟨[], .initial sh hstore⟩
  | @step w next h hstep ih =>
      obtain ⟨es, ih⟩ := ih
      by_cases hstarts : ∃ e, Starts w next e
      · obtain ⟨e, hstarts⟩ := hstarts
        exact ⟨e :: es, ih.started hstarts trivial⟩
      · exact ⟨es, ih.other hstep (fun e he => hstarts ⟨e, he⟩) trivial⟩

/-! ## One evaluation on its own -/

variable {rule : World → World → Prop}

theorem Starts.ready {w next : World} {e : Value} (h : Starts w next e) :
    ∃ th ∈ w.threads, th.phase = .ready e := by
  cases h with
  | @mk sh before after captures e env k records =>
      exact ⟨⟨.ready e, env, k, records⟩, by simp, rfl⟩

/-- Every evaluation has been started. -/
def AllStarted (w : World) : Prop :=
  ∀ th ∈ w.threads, ∀ e, th.phase ≠ .ready e

theorem AllStarted.advance {w : World} (h : w.AllStarted) : w.advance.AllStarted := by
  unfold AllStarted World.advance at *
  split
  · exact absurd rfl (h _ List.mem_cons_self _)
  · rw [List.forall_mem_cons] at h ⊢
    refine ⟨?_, h.2⟩
    rintro e
    generalize Config.step _ = t
    cases t <;> nofun
  · exact h

theorem Evaluated.advance {es : List Value} {w : World} (h : Evaluated rule es w)
    (hstarted : w.AllStarted) (hrule : rule w w.advance) : Evaluated rule es w.advance := by
  have hquiet (e : Value) (next : World) : ¬Starts w next e := by
    intro hstarts
    obtain ⟨th, hth, hphase⟩ := hstarts.ready
    exact hstarted th hth e hphase
  generalize hnext : w.advance = next at hrule ⊢
  unfold World.advance at hnext
  split at hnext
  · exact absurd rfl (hstarted _ List.mem_cons_self _)
  · subst hnext
    exact h.other (@Step.stepped _ [] _ _ _ _ _ _ _ rfl) (fun e => hquiet e _) hrule
  · exact hnext ▸ h

theorem evaluated_alone (d : Datum) (hmade : rule ⟨.initial, [], []⟩ (alone d 0)) (steps : Nat)
    (hrule : ∀ i ≤ steps, rule (alone d i) (alone d (i + 1))) :
    Evaluated rule [(Shared.initial.onStore (Store.place d)).1] (alone d (steps + 1)) ∧
      (alone d (steps + 1)).AllStarted := by
  induction steps with
  | zero =>
      have hready : Evaluated rule [] (alone d 0) := by
        refine .other (.initial .initial rfl) (.submitted d Store.global) ?_ hmade
        intro e hstarts
        obtain ⟨_, hmem, _⟩ := hstarts.ready
        cases hmem
      refine ⟨hready.started (@Starts.mk _ [] _ _ _ _ _ _) (hrule 0 (Nat.le_refl _)), ?_⟩
      exact List.forall_mem_cons.mpr ⟨nofun, nofun⟩
  | succ steps ih =>
      obtain ⟨h, hstarted⟩ := ih fun i hi => hrule i (by omega)
      exact ⟨h.advance hstarted (hrule _ (Nat.le_refl _)), hstarted.advance⟩

/-! ## One evaluation among others -/

/-- The evaluation with this number, in the order in which they were made. -/
def evaluation? (w : World) (n : Nat) : Option Thread :=
  w.threads.reverse[n]?

theorem evaluation?_replace {before after : List Thread} (old : Thread) {new th : Thread} {n : Nat}
    (h : (before ++ new :: after).reverse[n]? = some th) :
    (before ++ old :: after).reverse[n]? = some th ∨
      (before ++ old :: after).reverse[n]? = some old ∧ th = new := by
  simp only [List.reverse_append, List.reverse_cons, List.append_assoc,
    List.singleton_append] at h ⊢
  rcases Nat.lt_trichotomy n after.reverse.length with hlt | rfl | hgt
  · rw [List.getElem?_append_left hlt] at h ⊢
    exact .inl h
  · simp only [List.getElem?_append_right (Nat.le_refl _), Nat.sub_self, List.getElem?_cons_zero,
      Option.some.injEq] at h ⊢
    exact .inr ⟨trivial, h.symm⟩
  · obtain ⟨m, rfl⟩ := Nat.exists_eq_add_of_lt hgt
    simp only [Nat.add_assoc, List.getElem?_append_right (Nat.le_add_right _ _),
      Nat.add_sub_cancel_left, List.getElem?_cons_succ] at h ⊢
    exact .inl h

/-- The stack of an evaluation is empty at first, and changes only when the evaluation
takes a step. -/
theorem Step.evaluation {w next : World} {n : Nat} {th : Thread} (hstep : Step w next)
    (h : next.evaluation? n = some th) :
    th.stack = .empty ∨ ∃ earlier, w.evaluation? n = some earlier ∧
      (th.stack = earlier.stack ∨ ∃ focus records, earlier.phase = .running focus ∧
        th = .ofTransition records
          (Config.step ⟨focus, earlier.env, earlier.stack, w.shared⟩)) := by
  cases hstep with
  | @submitted sh threads captures d env =>
      unfold evaluation? at h
      rw [List.reverse_cons] at h
      by_cases hlt : n < threads.reverse.length
      · rw [List.getElem?_append_left hlt] at h
        exact .inr ⟨th, h, .inl rfl⟩
      · rw [List.getElem?_append_right (Nat.le_of_not_lt hlt)] at h
        obtain rfl := List.mem_singleton.mp (List.mem_of_getElem? h)
        exact .inl rfl
  | @started sh before after captures e env k records =>
      rcases evaluation?_replace ⟨.ready e, env, k, records⟩ h with hsame | ⟨hold, rfl⟩
      · exact .inr ⟨th, hsame, .inl rfl⟩
      · exact .inr ⟨_, hold, .inl rfl⟩
  | @stepped sh before after captures focus env k records c hc =>
      rcases evaluation?_replace ⟨.running focus, env, k, records⟩ h with hsame | ⟨hold, rfl⟩
      · exact .inr ⟨th, hsame, .inl rfl⟩
      · subst hc
        exact .inr ⟨_, hold, .inr ⟨_, _, rfl, rfl⟩⟩
  | @resumed sh before after captures suspension env k records t answer ht =>
      rcases evaluation?_replace ⟨.suspended suspension, env, k, records⟩ h with hsame | ⟨hold, rfl⟩
      · exact .inr ⟨th, hsame, .inl rfl⟩
      · refine .inr ⟨_, hold, .inl ?_⟩
        rw [(Thread.ofTransition_eq _ _).2.1, ht, (Config.resume_config _ _ _).2]
  | @abandoned sh before after captures phase env k records =>
      rcases evaluation?_replace ⟨phase, env, k, records⟩ h with hsame | ⟨hold, rfl⟩
      · exact .inr ⟨th, hsame, .inl rfl⟩
      · exact .inr ⟨_, hold, .inl rfl⟩
  | hosted => exact .inr ⟨th, h, .inl rfl⟩

end World

/-! ## Laws -/

/-- What is asked of the procedures in sight, of the frames of a stack, and of an
expression that is reduced on a stack of these frames. -/
structure Law where
  requirement : Requirement
  frames : List Frame → Prop
  expression : Value → List Frame → Prop

/-- Whatever obeys the one law obeys the other. -/
instance : LE Law where
  le l m := l.requirement ≤ m.requirement ∧ (∀ frames, l.frames frames → m.frames frames) ∧
    ∀ e frames, l.expression e frames → m.expression e frames

/-- A stack of these frames obeys the law, and so do the procedures it holds. -/
structure Frame.AllObey (l : Law) (frames : List Frame) : Prop where
  meet : Frame.AllMeet l.requirement frames
  law : l.frames frames

/-- What the machine does obeys the law on a stack of these frames. -/
structure Focus.Obeys (l : Law) (focus : Focus) (frames : List Frame) : Prop where
  meets : focus.Meets l.requirement
  expression : ∀ e, focus = .reduce e → l.expression e frames

/-- The machine obeys the law. -/
structure Config.Obeys (l : Law) (c : Config) : Prop where
  focus : c.focus.Obeys l c.stack.frames
  frames : Frame.AllObey l c.stack.frames
  store : c.store.Meets l.requirement

/-- What a step leads to obeys the law, failures included. -/
def Transition.Obeys (l : Law) (t : Transition) : Prop :=
  t.config.store.Meets l.requirement ∧ Frame.AllObey l t.config.stack.frames ∧
    match t with
    | .running c => c.focus.Obeys l c.stack.frames
    | .suspended suspension _ => suspension.Meets l.requirement
    | .finished .. | .failed .. => True

/-- The machine keeps the law. -/
def Law.Kept (l : Law) : Prop :=
  ∀ c : Config, c.Obeys l → c.step.Obeys l

namespace Config

variable {l : Law} {c : Config}

theorem Obeys.allMeet (h : c.Obeys l) : c.Meets l.requirement :=
  ⟨h.focus.meets, h.frames.meet, h.store⟩

/-- A failure leaves no procedure on the stack that was not in sight. -/
theorem Fails.allMeet {r : Requirement} {fault : Fault} {k : Stack} (hfails : c.Fails fault k)
    (h : c.Meets r) : Frame.AllMeet r k.frames := by
  refine hfails.leaves h.frames (fun _ _ hframes => hframes.2) ?_
  intro stamp parameters body home arguments hfocus
  have hcallee := h.focus
  rw [hfocus] at hcallee
  exact ⟨hcallee.1.2.2, save_meets c.env h.frames⟩

end Config

/-- A step obeys a law if what it goes on or fails with keeps what the law asks of stacks
and expressions, and if a closure or a continuation that it makes meets its requirement. -/
theorem Config.step_obeys {l : Law} {c : Config} (h : c.Obeys l)
    (hclosure : ∀ e parameters body : Value, c.focus = .reduce e →
      (Form.of e).Makes parameters body → body.isBody = true →
      l.requirement.closure parameters body c.env)
    (hcontinuation :
      l.requirement.continuation c.store.nextStamp (c.stack.pushRestore c.env).frames)
    (hgoes : ∀ (focus : Focus) (env : Addr) (k : Stack), c.Goes focus env k →
      l.frames k.frames ∧ ∀ e, focus = .reduce e → l.expression e k.frames)
    (hfails : ∀ (fault : Fault) (k : Stack), c.Fails fault k → l.frames k.frames) :
    c.step.Obeys l := by
  have hmeets : c.step.Meets l.requirement :=
    Config.step_meets h.allMeet hclosure fun _ _ _ _ => hcontinuation
  have hfollows := c.step_follows
  generalize c.step = t at hmeets hfollows
  cases t with
  | running after =>
      obtain ⟨hframes, hexpression⟩ := hgoes _ _ _ hfollows
      exact ⟨hmeets.store, ⟨hmeets.frames, hframes⟩, ⟨hmeets.focus, hexpression⟩⟩
  | suspended suspension after =>
      refine ⟨hmeets.2.2, ⟨hmeets.2.1, ?_⟩, hmeets.1⟩
      rw [Transition.config, hfollows.2.2]
      exact h.frames.law
  | finished v after =>
      obtain ⟨_, _, rfl⟩ := hfollows
      exact ⟨hmeets.2, h.frames, trivial⟩
  | failed fault after =>
      exact ⟨hmeets, ⟨hfollows.allMeet h.allMeet, hfails fault _ hfollows⟩, trivial⟩

/-- A law is kept if every transition keeps what it asks of stacks and expressions, and
if the closures and continuations that are made meet its requirement. -/
theorem Law.kept_of {l : Law}
    (hclosure : ∀ (c : Config) (e parameters body : Value), c.Obeys l → c.focus = .reduce e →
      (Form.of e).Makes parameters body → body.isBody = true →
      l.requirement.closure parameters body c.env)
    (hcontinuation : ∀ c : Config, c.Obeys l →
      l.requirement.continuation c.store.nextStamp (c.stack.pushRestore c.env).frames)
    (hgoes : ∀ (c : Config) (focus : Focus) (env : Addr) (k : Stack), c.Obeys l →
      c.Goes focus env k →
      l.frames k.frames ∧ ∀ e, focus = .reduce e → l.expression e k.frames)
    (hfails : ∀ (c : Config) (fault : Fault) (k : Stack), c.Obeys l → c.Fails fault k →
      l.frames k.frames) : l.Kept := by
  intro c h
  exact Config.step_obeys h (fun e parameters body => hclosure c e parameters body h)
    (hcontinuation c h) (fun focus env k => hgoes c focus env k h) fun fault k => hfails c fault k h

/-! ## Evaluations and worlds -/

theorem Frame.AllObey.mono {l m : Law} {frames : List Frame} (hle : l ≤ m)
    (h : Frame.AllObey l frames) : Frame.AllObey m frames :=
  ⟨h.meet.mono hle.1, hle.2.1 frames h.law⟩

/-- An evaluation obeys the law, wherever it stands.  One that has not been started has
an expression that was read, and an empty stack. -/
def Thread.Obeys (l : Law) (th : Thread) : Prop :=
  Frame.AllObey l th.stack.frames ∧
    match th.phase with
    | .ready e => e.IsData ∧ e.Meets l.requirement ∧ th.stack.frames = []
    | .running focus => focus.Obeys l th.stack.frames
    | .suspended suspension => suspension.Meets l.requirement
    | .over => True

namespace Thread

variable {l m : Law}

theorem Obeys.mono {th : Thread} (hle : l ≤ m) (h : th.Obeys l) : th.Obeys m := by
  obtain ⟨phase, env, k, records⟩ := th
  refine ⟨h.1.mono hle, ?_⟩
  have hphase := h.2
  cases phase with
  | ready e => exact ⟨hphase.1, hphase.2.1.mono hle.1, hphase.2.2⟩
  | running focus =>
      refine ⟨?_, fun e he => hle.2.2 e _ (hphase.expression e he)⟩
      have hmeets := hphase.meets
      cases focus with
      | reduce e => exact Value.Meets.mono hle.1 hmeets
      | drain v => exact Value.Meets.mono hle.1 hmeets
      | call callee arguments => exact ⟨hmeets.1.mono hle.1, hmeets.2.mono hle.1⟩
  | suspended suspension =>
      cases suspension with
      | awaiting request => trivial
      | yielding v => exact Value.Meets.mono hle.1 hphase
  | _ => trivial

theorem ofTransition_obeys {t : Transition} (h : t.Obeys l) (records : Records) :
    (ofTransition records t).Obeys l := by
  cases t with
  | running c => exact h.2
  | suspended suspension c => exact h.2
  | finished v c => exact h.2
  | failed fault c => exact h.2

end Thread

/-- An answer of the host leaves the stack as it is. -/
theorem Config.resume_obeys {l : Law} {c : Config} {suspension : Suspension}
    (hsuspension : suspension.Meets l.requirement) (hframes : Frame.AllObey l c.stack.frames)
    (hstore : c.store.Meets l.requirement) (answer : Option String) :
    (Config.resume suspension answer c).Obeys l := by
  have hmeets := Config.resume_meets hsuspension hframes.meet hstore answer
  unfold Config.resume at hmeets ⊢
  generalize c.shared.resume suspension answer = result at hmeets ⊢
  obtain ⟨fault | v | s, shared⟩ := result
  · exact ⟨hmeets, hframes, trivial⟩
  · exact ⟨hmeets.store, hframes, ⟨hmeets.focus, nofun⟩⟩
  · exact ⟨hmeets.2.2, hframes, hmeets.1⟩

namespace World

/-- Everything in the world obeys the law. -/
structure Obeys (l : Law) (w : World) : Prop where
  store : w.shared.store.Meets l.requirement
  threads : ∀ th ∈ w.threads, th.Obeys l

theorem Obeys.mono {l m : Law} {w : World} (hle : l ≤ m) (h : w.Obeys l) : w.Obeys m :=
  ⟨h.store.mono hle.1, fun th hth => (h.threads th hth).mono hle⟩

/-- The configuration of an evaluation that is running. -/
theorem Obeys.config {l : Law} {w : World} (h : w.Obeys l) {th : Thread} (hth : th ∈ w.threads)
    {focus : Focus} (hphase : th.phase = .running focus) :
    Config.Obeys l ⟨focus, th.env, th.stack, w.shared⟩ := by
  obtain ⟨hframes, hfocus⟩ := h.threads th hth
  rw [hphase] at hfocus
  exact ⟨hfocus, hframes, h.store⟩

/-- Starting an evaluation keeps a law that allows its expression at the start. -/
theorem Obeys.started {l : Law} {w next : World} {e : Value} (h : w.Obeys l)
    (hstarts : Starts w next e) (hstart : e.IsData → l.expression e []) : next.Obeys l := by
  cases hstarts with
  | @mk sh before after captures _ env k records =>
      obtain ⟨hframes, hdata, hmeets, hstack⟩ := h.threads ⟨.ready e, env, k, records⟩ (by simp)
      refine ⟨h.store, forall_mem_replace h.threads ⟨hframes, hmeets, ?_⟩⟩
      rintro _ ⟨⟩
      have hnone : k.frames = [] := hstack
      rw [hnone]
      exact hstart hdata

/-- A step that starts no evaluation keeps a law that the machine keeps where it runs. -/
theorem Obeys.step_of {l : Law} (hempty : l.frames []) {w next : World} (h : w.Obeys l)
    (hkept : ∀ th ∈ w.threads, ∀ focus, th.phase = .running focus →
      (Config.step ⟨focus, th.env, th.stack, w.shared⟩).Obeys l)
    (hstep : Step w next) (hquiet : ∀ e, ¬Starts w next e) : next.Obeys l := by
  cases hstep with
  | @submitted sh threads captures d env =>
      refine ⟨h.store.of_nodes (Store.nodes_place d _), List.forall_mem_cons.mpr ⟨?_, h.threads⟩⟩
      exact ⟨⟨trivial, hempty⟩, Value.isData_place d _, Store.place_meets d _, rfl⟩
  | started => exact absurd .mk (hquiet _)
  | @stepped sh before after captures focus env k records c hc =>
      have hnext : c.step.Obeys l := by
        subst hc
        exact hkept ⟨.running focus, env, k, records⟩ (by simp) focus rfl
      exact ⟨hnext.1, forall_mem_replace h.threads (Thread.ofTransition_obeys hnext _)⟩
  | @resumed sh before after captures suspension env k records t answer ht =>
      obtain ⟨hframes, hsuspension⟩ :=
        h.threads ⟨.suspended suspension, env, k, records⟩ (by simp)
      have hnext : t.Obeys l := by
        rw [ht]
        exact Config.resume_obeys (c := ⟨.drain .void, env, k, sh⟩) hsuspension hframes h.store
          answer
      exact ⟨hnext.1, forall_mem_replace h.threads (Thread.ofTransition_obeys hnext _)⟩
  | @abandoned sh before after captures phase env k records =>
      obtain ⟨hframes, _⟩ := h.threads ⟨phase, env, k, records⟩ (by simp)
      exact ⟨h.store, forall_mem_replace h.threads ⟨hframes, trivial⟩⟩
  | hosted next hstore => exact ⟨hstore ▸ h.store, h.threads⟩

/-- A step that starts no evaluation keeps a law that the machine keeps. -/
theorem Obeys.step {l : Law} (hkept : l.Kept) (hempty : l.frames []) {w next : World}
    (h : w.Obeys l) (hstep : Step w next) (hquiet : ∀ e, ¬Starts w next e) : next.Obeys l :=
  h.step_of hempty (fun _ hth _ hphase => hkept _ (h.config hth hphase)) hstep hquiet

/-- Whatever has been evaluated, everything obeys a law that the machine keeps, if the
law grows with the expressions that are started and allows each of them at its start. -/
theorem Evaluated.obeys {rule : World → World → Prop} (law : List Value → Law)
    (hkept : ∀ es, (law es).Kept) (hempty : ∀ es, (law es).frames [])
    (hgrows : ∀ e es, law es ≤ law (e :: es))
    (hstart : ∀ e es, e.IsData → (law (e :: es)).expression e []) {es : List Value} {w : World}
    (h : Evaluated rule es w) : w.Obeys (law es) := by
  induction h with
  | initial sh hstore =>
      refine ⟨?_, fun th hmem => absurd hmem List.not_mem_nil⟩
      rw [hstore]
      exact Store.initial_meets _
  | @started es w next e h hstarts hrule ih =>
      exact (ih.mono (hgrows e es)).started hstarts (hstart e es)
  | @other es w next h hstep hquiet hrule ih => exact ih.step (hkept es) (hempty es) hstep hquiet

end World

end SchemeMachine
