import SchemeMachine.Proofs.Interleaving.Alone
import SchemeMachine.Proofs.Matching.Worlds

/-!
# One call, alone and among others

The same call is made twice: of an evaluation that runs alone, and of its counterpart in a store
where others have made nodes and objects too.  If what the two start from is alike, and the one
that runs alone keeps off what existed at first, then the outcomes are alike, the same text is
written, and what is left is alike again: `Evaluation.Stands.perform`.

The second run changes only nodes that are paired off with nodes made by the first, and nodes
that it makes itself.  So it spares what the others have made: `Store.Spares`.
-/

namespace SchemeMachine

variable {μ μ' : Match} {n : Nat}

/-! ## What a step looks at and what it changes -/

theorem Config.Alike.reads {c d : Config} (h : c.Alike μ d) (hreads : d.Reads) : c.Reads := by
  have hfocus := h.focus
  rw [Config.Reads] at hreads ⊢
  rw [hreads] at hfocus
  generalize c.focus = focus at hfocus
  cases hfocus with
  | call hcallee harguments =>
      cases hcallee
      cases harguments
      rfl

theorem Config.Alike.executes {c d : Config} (h : c.Alike μ d) {kind : FrameKind} {w : Value}
    (hexecutes : d.Executes (kind, w)) : ∃ v, c.Executes (kind, v) ∧ v.Alike μ w := by
  obtain ⟨x, below, hfocus, hframes⟩ := hexecutes
  have hfocusAlike := h.focus
  have hframesAlike := h.stack.frames
  rw [hfocus] at hfocusAlike
  rw [hframes] at hframesAlike
  generalize hc : c.focus = focus at hfocusAlike
  generalize hk : c.stack.frames = frames at hframesAlike
  cases hfocusAlike with
  | drain _ =>
      cases hframesAlike with
      | cons hpayload _ => exact ⟨_, ⟨_, _, hc, hk⟩, hpayload⟩

theorem Config.Touches.amid {c : Config} {b : Addr} (h : c.Touches b) (around : Surroundings) :
    (c.amid around).Touches b := by
  cases h with
  | defined hexecutes => exact .defined (c := c.amid around) hexecutes
  | assigned hexecutes => exact .assigned (c := c.amid around) hexecutes

/-- The nodes that the steps change are paired off. -/
theorem Config.Alike.touches {c d : Config} (h : c.Alike μ d) {b : Addr} (htouches : d.Touches b) :
    ∃ a, c.Touches a ∧ μ.nodes.rel a b := by
  cases htouches with
  | defined hexecutes =>
      obtain ⟨_, hdefines, _⟩ := h.executes hexecutes
      exact ⟨c.env, .defined hdefines, h.env⟩
  | assigned hexecutes =>
      obtain ⟨_, hassigns, hpayload⟩ := h.executes hexecutes
      cases hpayload with
      | environment hnode => exact ⟨_, .assigned hassigns, hnode⟩

/-- The later store has grown, and of the nodes there were, it differs at most in those that are
paired off with a node from `n` on. -/
structure Store.Spares (n : Nat) (μ : Match) (s t : Store) : Prop where
  size : s.nodes.size ≤ t.nodes.size
  stamp : s.nextStamp ≤ t.nextStamp
  nodes : ∀ b < s.nodes.size, (∀ a, μ.nodes.rel a b → a < n) → t.nodes[b]? = s.nodes[b]?

theorem Store.Spares.refl (s : Store) : s.Spares n μ s :=
  ⟨Nat.le_refl _, Nat.le_refl _, fun _ _ _ => rfl⟩

/-- What is paired off has been so before, or is new on both sides. -/
theorem Match.Grows.rel_cases (hgrows : μ.Grows μ') {a b : Nat} (hrel : μ'.nodes.rel a b) :
    μ.nodes.rel a b ∨ μ.nodes.left ≤ a ∧ μ.nodes.right ≤ b := by
  obtain ⟨nodes, stamps, rfl⟩ := hgrows
  rcases hrel with hold | hnew
  · exact .inl hold
  · exact .inr (by omega)

theorem Match.Grows.left_le (hgrows : μ.Grows μ') : μ.nodes.left ≤ μ'.nodes.left := by
  obtain ⟨nodes, stamps, rfl⟩ := hgrows
  exact Nat.le_add_right _ _

theorem Match.Grows.right_le (hgrows : μ.Grows μ') :
    μ.nodes.right ≤ μ'.nodes.right ∧ μ.stamps.right ≤ μ'.stamps.right := by
  obtain ⟨nodes, stamps, rfl⟩ := hgrows
  exact ⟨Nat.le_add_right _ _, Nat.le_add_right _ _⟩

theorem Store.Spares.trans {r s t : Store} (h : r.Spares n μ s)
    (hright : μ.nodes.right = r.nodes.size) (hgrows : μ.Grows μ') (h' : s.Spares n μ' t) :
    r.Spares n μ t := by
  refine ⟨Nat.le_trans h.size h'.size, Nat.le_trans h.stamp h'.stamp, ?_⟩
  intro b hb hapart
  have hlater : ∀ a, μ'.nodes.rel a b → a < n := by
    intro a hrel
    rcases hgrows.rel_cases hrel with hold | hnew
    · exact hapart a hold
    · omega
  rw [h'.nodes b (Nat.lt_of_lt_of_le hb h.size) hlater, h.nodes b hb hapart]

/-! ## Steps -/

/-- The second transition is like the first, but for what stands beside the store. -/
def Transition.Shadows (μ : Match) (x y : Transition) : Prop :=
  x.Alike μ (y.amid x.config.shared.surroundings)

/-- The shadow touches only the counterparts of what is touched. -/
theorem Config.Alike.spares {c d : Config} {around : Surroundings}
    (h : c.Alike μ (d.amid around)) (hgrows : μ.Grows μ') {s : Store}
    (hafter : s.Alike μ' d.step.config.store) (htouches : ∀ a, c.Touches a → n ≤ a) :
    d.store.Spares n μ d.step.config.store where
  size := by
    have hle := hgrows.right_le.1
    rw [h.store.nodesRight, hafter.nodesRight] at hle
    exact hle
  stamp := by
    have hle := hgrows.right_le.2
    rw [h.store.stampsRight, hafter.stampsRight] at hle
    exact hle
  nodes := by
    intro b hb hapart
    apply Config.nodes_of_not_touches hb
    intro htouch
    obtain ⟨a, hchanges, hrel⟩ := h.touches (htouch.amid _)
    have hlow := hapart a hrel
    have hhigh := htouches a hchanges
    omega

/-- The step of the shadow of a configuration that reads nothing. -/
theorem Transition.Shadows.step {c d : Config} (h : Transition.Shadows μ (.running c) (.running d))
    (hunread : ¬ c.Reads) (htouches : ∀ a, c.Touches a → n ≤ a) :
    ∃ μ' said, μ.Grows μ' ∧ Transition.Shadows μ' c.step d.step ∧
      c.step.config.shared.output = c.shared.output ++ said ∧
      d.step.config.shared.output = d.shared.output ++ said ∧
      d.store.Spares n μ d.step.config.store := by
  have halike : c.Alike μ (d.amid c.shared.surroundings) := by
    cases h with
    | running h => exact h
  have hunread' : ¬ d.Reads := fun hreads => hunread (halike.reads hreads)
  obtain ⟨said, hsteps⟩ := d.step_amid c.shared.surroundings hunread'
  obtain ⟨μ', hgrows, hnext⟩ := halike.step
  rw [hsteps.there] at hnext
  have haround : c.step.config.shared.surroundings = c.shared.surroundings.plus said := by
    have hsame := hnext.config.shared.around
    rw [Transition.shared_amid, Shared.surroundings_amid] at hsame
    exact hsame.symm
  refine ⟨μ', said, hgrows, ?_, congrArg Surroundings.output haround,
    congrArg Surroundings.output hsteps.said, ?_⟩
  · rw [Transition.Shadows, haround]
    exact hnext
  · have hafter := hnext.config.store
    rw [Config.store, Config.store, Transition.shared_amid, Shared.store_amid] at hafter
    exact halike.spares hgrows hafter htouches

/-! ## Runs -/

/-- The calls have come to the same. -/
inductive Outcome.Alike (μ : Match) : Outcome → Outcome → Prop
  | value {v w : Value} (h : v.Alike μ w) : Outcome.Alike μ (.value v) (.value w)
  | suspended {suspension suspension' : Suspension} (h : suspension.Alike μ suspension') :
      Outcome.Alike μ (.suspended suspension) (.suspended suspension')
  | failed (failure : Failure) : Outcome.Alike μ (.failed failure) (.failed failure)
  | exhausted : Outcome.Alike μ .exhausted .exhausted

namespace Evaluation

/-- The evaluations are equally far. -/
inductive Status.Alike (μ : Match) : Status → Status → Prop
  | ready {e e' : Value} (h : e.Alike μ e') : Status.Alike μ (.ready e) (.ready e')
  | suspended {suspension suspension' : Suspension} (h : suspension.Alike μ suspension') :
      Status.Alike μ (.suspended suspension) (.suspended suspension')
  | ended : Status.Alike μ .over .over

/-- The evaluations differ in the addresses and stamps that are paired off. -/
structure Alike (μ : Match) (ev ev' : Evaluation) : Prop where
  status : ev.status.Alike μ ev'.status
  env : μ.nodes.rel ev.env ev'.env
  stack : ev.stack.Alike μ ev'.stack

theorem Alike.mono (hle : μ ≤ μ') {ev ev' : Evaluation} (h : ev.Alike μ ev') : ev.Alike μ' ev' := by
  obtain ⟨status, env, k⟩ := ev
  obtain ⟨status', env', k'⟩ := ev'
  refine ⟨?_, hle.nodes h.env, h.stack.mono hle⟩
  have hstatus := h.status
  cases hstatus with
  | ready he => exact .ready (he.mono hle)
  | suspended hsuspension => exact .suspended (hsuspension.mono hle)
  | ended => exact .ended

/-- A call that was made on both sides, from these shared states, has these results.  The outcomes
and what is left are alike, the same text was written, and the second side has changed only what
is its own. -/
structure Together (n : Nat) (μ μ' : Match) (said : String) (sh sh' : Shared)
    (result result' : (Outcome × Evaluation) × Shared) : Prop where
  grows : μ.Grows μ'
  outcome : result.1.1.Alike μ' result'.1.1
  evaluation : result.1.2.Alike μ' result'.1.2
  store : result.2.store.Alike μ' result'.2.store
  wrote : result.2.output = sh.output ++ said
  wrote' : result'.2.output = sh'.output ++ said
  spares : sh'.store.Spares n μ result'.2.store

theorem Together.of_step {μ₁ : Match} {said said' : String} {sh sh' next next' : Shared}
    {result result' : (Outcome × Evaluation) × Shared} (hgrows : μ.Grows μ₁)
    (hright : μ.nodes.right = sh'.store.nodes.size) (hwrote : next.output = sh.output ++ said)
    (hwrote' : next'.output = sh'.output ++ said) (hspares : sh'.store.Spares n μ next'.store)
    (h : Together n μ₁ μ' said' next next' result result') :
    Together n μ μ' (said ++ said') sh sh' result result' where
  grows := hgrows.trans h.grows
  outcome := h.outcome
  evaluation := h.evaluation
  store := h.store
  wrote := by rw [h.wrote, hwrote, String.append_assoc]
  wrote' := by rw [h.wrote', hwrote', String.append_assoc]
  spares := hspares.trans hright hgrows h.spares

/-- A call that has nothing left to do. -/
theorem Together.of_eq {sh sh' : Shared} {result result' : (Outcome × Evaluation) × Shared}
    (houtcome : result.1.1.Alike μ result'.1.1) (hevaluation : result.1.2.Alike μ result'.1.2)
    (hstore : result.2.store.Alike μ result'.2.store) (hout : result.2.output = sh.output)
    (hout' : result'.2.output = sh'.output) (hsame : result'.2.store = sh'.store) :
    Together n μ μ "" sh sh' result result' where
  grows := .refl μ
  outcome := houtcome
  evaluation := hevaluation
  store := hstore
  wrote := by rw [hout, String.append_empty]
  wrote' := by rw [hout', String.append_empty]
  spares := by
    rw [hsame]
    exact .refl _

/-- The evaluation keeps off the input and off the nodes below `n` wherever it comes to. -/
def KeepsBelow (n : Nat) (ev : Evaluation) (sh : Shared) : Prop :=
  ∀ c, ev.Alone sh (.running c) → ¬ c.Reads ∧ ∀ a, c.Touches a → n ≤ a

end Evaluation

open Evaluation (Together ofHalt KeepsBelow Alone)

theorem Shared.note_eq (sh : Shared) (suspension : Suspension) :
    (sh.noteSuspension suspension).store = sh.store ∧
      (sh.noteSuspension suspension).output = sh.output := by
  cases suspension with
  | awaiting request => exact ⟨rfl, rfl⟩
  | yielding v => exact ⟨rfl, rfl⟩

namespace Transition.Shadows

variable {x y : Transition}

theorem ended (h : x.Shadows μ y) (hended : ∀ c, x ≠ .running c) (steps : Nat) :
    Together n μ μ "" x.config.shared y.config.shared (ofHalt (x.run steps))
      (ofHalt (y.run steps)) := by
  cases x with
  | running c => exact absurd rfl (hended c)
  | finished v c =>
      cases y with
      | finished w d =>
          cases h with
          | finished hv h =>
              simp only [Transition.run]
              exact .of_eq (.value hv) ⟨.ended, h.env, h.stack⟩ h.store rfl rfl rfl
      | _ => cases h
  | suspended suspension c =>
      cases y with
      | suspended suspension' d =>
          cases h with
          | suspended hsuspension h =>
              have hnote := c.shared.note_eq suspension
              have hnote' := d.shared.note_eq suspension'
              simp only [Transition.run]
              refine .of_eq (.suspended hsuspension) ⟨.suspended hsuspension, h.env, h.stack⟩ ?_
                hnote.2 hnote'.2 hnote'.1
              show (c.shared.noteSuspension suspension).store.Alike μ
                (d.shared.noteSuspension suspension').store
              rw [hnote.1, hnote'.1]
              exact h.store
      | _ => cases h
  | failed fault c =>
      cases y with
      | failed fault' d =>
          cases h with
          | failed _ h =>
              have hfailure : d.failure fault = c.failure fault := h.failure fault
              simp only [Transition.run, hfailure]
              exact .of_eq (.failed _) ⟨.ended, h.env, h.stack⟩ h.store rfl rfl rfl
      | _ => cases h

/-- A run of the shadow is alike, for any number of steps. -/
theorem run (h : x.Shadows μ y) {ev : Evaluation} {sh : Shared} (halone : ev.Alone sh x)
    (hkeeps : ev.KeepsBelow n sh) (steps : Nat) :
    ∃ μ' said, Together n μ μ' said x.config.shared y.config.shared (ofHalt (x.run steps))
      (ofHalt (y.run steps)) := by
  induction steps generalizing x y μ with
  | zero =>
      cases x with
      | running c =>
          cases y with
          | running d =>
              cases h with
              | running h =>
                  exact ⟨μ, "", .of_eq .exhausted ⟨.ended, h.env, h.stack⟩ h.store rfl rfl rfl⟩
          | _ => cases h
      | _ => exact ⟨μ, "", h.ended (by simp) 0⟩
  | succ steps ih =>
      cases x with
      | running c =>
          cases y with
          | running d =>
              obtain ⟨hunread, htouches⟩ := hkeeps c halone
              obtain ⟨μ₁, said, hgrows, hnext, hwrote, hwrote', hspares⟩ := h.step hunread htouches
              obtain ⟨μ', said', htogether⟩ := ih hnext halone.stepped
              have hright : μ.nodes.right = d.shared.store.nodes.size := by
                cases h with
                | running h => exact h.store.nodesRight
              exact ⟨μ', said ++ said', htogether.of_step hgrows hright hwrote hwrote' hspares⟩
          | _ => cases h
      | _ => exact ⟨μ, "", h.ended (by simp) (steps + 1)⟩

end Transition.Shadows

/-! ## Calls -/

namespace Evaluation

/-- What the host may ask of an evaluation: to start, or to go on with an answer.  Either may
take so many steps. -/
inductive Call where
  | start (steps : Nat)
  | resume (steps : Nat) (answer : Option String)

/-- The result of a call. -/
def Call.perform : Call → Evaluation → Shared → (Outcome × Evaluation) × Shared
  | .start steps, ev, sh => ev.start steps sh
  | .resume steps answer, ev, sh => ev.resume steps answer sh

/-- Where an evaluation can stand between calls, when nothing else runs. -/
inductive Stands (ev : Evaluation) (sh : Shared) : Evaluation → Shared → Prop
  | ready : Stands ev sh ev sh
  | suspended {suspension : Suspension} {c : Config} (h : ev.Alone sh (.suspended suspension c)) :
      Stands ev sh ⟨.suspended suspension, c.env, c.stack⟩ (c.shared.noteSuspension suspension)
  | ended (env : Addr) (k : Stack) (sh' : Shared) : Stands ev sh ⟨.over, env, k⟩ sh'

variable {ev now now' : Evaluation} {sh present present' : Shared}

theorem Alone.stands {x : Transition} (h : ev.Alone sh x) (steps : Nat) :
    Stands ev sh (ofHalt (x.run steps)).1.2 (ofHalt (x.run steps)).2 := by
  induction steps generalizing x with
  | zero =>
      cases x with
      | suspended suspension c => exact .suspended h
      | _ => exact .ended _ _ _
  | succ steps ih =>
      cases x with
      | running c => exact ih h.stepped
      | suspended suspension c => exact .suspended h
      | _ => exact .ended _ _ _

theorem Alike.status_of_ready (h : now.Alike μ now') {e : Value} (he : now.status = .ready e) :
    ∃ e', now'.status = .ready e' ∧ e.Alike μ e' := by
  have hstatus := h.status
  rw [he] at hstatus
  generalize now'.status = status' at hstatus
  cases hstatus with
  | ready he => exact ⟨_, rfl, he⟩

theorem Alike.status_of_suspended (h : now.Alike μ now') {suspension : Suspension}
    (hnow : now.status = .suspended suspension) :
    ∃ suspension', now'.status = .suspended suspension' ∧ suspension.Alike μ suspension' := by
  have hstatus := h.status
  rw [hnow] at hstatus
  generalize now'.status = status' at hstatus
  cases hstatus with
  | suspended hsuspension => exact ⟨_, rfl, hsuspension⟩

theorem Alike.status_of_over (h : now.Alike μ now') (hnow : now.status = .over) :
    now'.status = .over := by
  have hstatus := h.status
  rw [hnow] at hstatus
  generalize now'.status = status' at hstatus
  cases hstatus with
  | ended => rfl

/-- A call that is refused changes nothing. -/
theorem Alike.refused (h : now.Alike μ now') (hstore : present.store.Alike μ present'.store)
    (fault : Fault) :
    ∃ μ' said, Together n μ μ' said present present' ((.failed (.plain fault), now), present)
      ((.failed (.plain fault), now'), present') :=
  ⟨μ, "", .of_eq (.failed _) h hstore rfl rfl rfl⟩

theorem Stands.start (hready : ∃ e, ev.status = .ready e) (hkeeps : ev.KeepsBelow n sh)
    (hstands : Stands ev sh now present) (h : now.Alike μ now')
    (hstore : present.store.Alike μ present'.store) (steps : Nat) :
    Stands ev sh (now.start steps present).1.2 (now.start steps present).2 ∧
      ∃ μ' said, Together n μ μ' said present present' (now.start steps present)
        (now'.start steps present') := by
  cases hstands with
  | ready =>
      obtain ⟨e, he⟩ := hready
      obtain ⟨e', he', halike⟩ := h.status_of_ready he
      have hshadows : Transition.Shadows μ (.running ⟨.reduce e, ev.env, ev.stack, sh⟩)
          (.running ⟨.reduce e', now'.env, now'.stack, present'⟩) :=
        .running ⟨.reduce halike, h.env, h.stack, hstore, rfl⟩
      simp only [Evaluation.start, he, he', Config.run]
      exact ⟨(Alone.started he).stands steps, hshadows.run (.started he) hkeeps steps⟩
  | suspended halone =>
      obtain ⟨suspension', hnow', _⟩ := h.status_of_suspended rfl
      simp only [Evaluation.start, hnow']
      exact ⟨.suspended halone, h.refused hstore _⟩
  | ended env k _ =>
      have hnow' := h.status_of_over rfl
      simp only [Evaluation.start, hnow']
      exact ⟨.ended env k _, h.refused hstore _⟩

theorem Stands.resume (hready : ∃ e, ev.status = .ready e) (hkeeps : ev.KeepsBelow n sh)
    (hstands : Stands ev sh now present) (h : now.Alike μ now')
    (hstore : present.store.Alike μ present'.store) (steps : Nat) (answer : Option String) :
    Stands ev sh (now.resume steps answer present).1.2 (now.resume steps answer present).2 ∧
      ∃ μ' said, Together n μ μ' said present present' (now.resume steps answer present)
        (now'.resume steps answer present') := by
  cases hstands with
  | ready =>
      obtain ⟨e, he⟩ := hready
      obtain ⟨e', he', _⟩ := h.status_of_ready he
      simp only [Evaluation.resume, he, he']
      exact ⟨.ready, h.refused hstore _⟩
  | @suspended suspension c halone =>
      obtain ⟨suspension', hnow', halike⟩ := h.status_of_suspended rfl
      have hyield := halone.isYield fun c hc => (hkeeps c hc).1
      simp only [Evaluation.resume, hnow']
      refine ⟨(Alone.resumed answer halone).stands steps, ?_⟩
      cases halike with
      | awaiting request => exact hyield.elim
      | @yielding v w hv =>
          -- the value is there already, and the input is left alone
          have hshadows : Transition.Shadows μ
              (.running ⟨.drain v, c.env, c.stack, c.shared.noteSuspension (.yielding v)⟩)
              (.running ⟨.drain w, now'.env, now'.stack, present'⟩) :=
            .running ⟨.drain hv, h.env, h.stack, hstore, rfl⟩
          exact hshadows.run (.resumed answer halone) hkeeps steps
  | ended env k _ =>
      have hnow' := h.status_of_over rfl
      simp only [Evaluation.resume, hnow']
      exact ⟨.ended env k _, h.refused hstore _⟩

/-- The same call of an evaluation that runs alone, and of its counterpart among others. -/
theorem Stands.perform (hready : ∃ e, ev.status = .ready e) (hkeeps : ev.KeepsBelow n sh)
    (hstands : Stands ev sh now present) (h : now.Alike μ now')
    (hstore : present.store.Alike μ present'.store) (call : Call) :
    Stands ev sh (call.perform now present).1.2 (call.perform now present).2 ∧
      ∃ μ' said, Together n μ μ' said present present' (call.perform now present)
        (call.perform now' present') := by
  cases call with
  | start steps => exact hstands.start hready hkeeps h hstore steps
  | resume steps answer => exact hstands.resume hready hkeeps h hstore steps answer

end Evaluation

end SchemeMachine
