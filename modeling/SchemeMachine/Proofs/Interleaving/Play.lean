import Mathlib.Logic.Function.Basic
import SchemeMachine.Proofs.Interleaving.Calls

/-!
# Interleaved evaluations do not disturb one another

A host plays a schedule: a list of calls, each of one of several evaluations that share a state.
Each call gives a report of its outcome in printed form, the text that was written, and the depth
and the peak of the stack.

If the evaluations, each run alone, keep off what exists when the play begins, then a play can be
restricted to the calls of one evaluation and gives the same reports for them.

During a play every evaluation has its counterpart that runs alone.  `Beside` says that the two are
alike, for a match of their own.  `Abreast` says so of all evaluations, and that different matches
have only what existed at the start in common.
-/

namespace SchemeMachine

/-! ## Plays -/

/-- An outcome in printed form. -/
inductive Printed where
  | value (written displayed : String)
  | awaiting (request : LineRequest)
  | yielding (written : String)
  | failed (failure : Failure)
  | exhausted

/-- The printed form of an outcome. -/
def Outcome.printed (s : Store) : Outcome → Printed
  | .value v => .value (v.written s) (v.displayed s)
  | .suspended (.awaiting request) => .awaiting request
  | .suspended (.yielding v) => .yielding (v.written s)
  | .failed failure => .failed failure
  | .exhausted => .exhausted

/-- What can be seen of a call. -/
structure Report where
  outcome : Printed
  wrote : String
  depth : Nat
  peak : Nat

/-- The text that was written since. -/
def Shared.wroteSince (before after : Shared) : String :=
  .ofList (after.output.toList.drop before.output.toList.length)

namespace Evaluation

/-- The report of a call. -/
def report (before : Shared) : (Outcome × Evaluation) × Shared → Report
  | ((outcome, ev), after) =>
    ⟨outcome.printed after.store, before.wroteSince after, ev.stack.depth, ev.stack.peak⟩

variable {ι : Type} [DecidableEq ι]

/-- Play a schedule of calls.  Each report comes with the evaluation that was called. -/
def play : List (ι × Call) → (ι → Evaluation) → Shared → List (ι × Report)
  | [], _, _ => []
  | (i, call) :: schedule, evs, sh =>
    let result := call.perform (evs i) sh
    (i, report sh result) :: play schedule (Function.update evs i result.1.2) result.2

end Evaluation

theorem Outcome.Alike.printed {μ : Match} {s t : Store} (hs : s.Alike μ t)
    {outcome outcome' : Outcome} (h : outcome.Alike μ outcome') :
    outcome'.printed t = outcome.printed s := by
  cases h with
  | value hv => rw [Outcome.printed, Outcome.printed, hv.written hs, hv.displayed hs]
  | suspended hsuspension =>
      cases hsuspension with
      | awaiting request => rfl
      | yielding hv => rw [Outcome.printed, Outcome.printed, hv.written hs]
  | failed failure => rfl
  | exhausted => rfl

theorem Shared.wroteSince_eq {before after : Shared} {said : String}
    (h : after.output = before.output ++ said) : before.wroteSince after = said := by
  rw [wroteSince, h, String.toList_append, List.drop_left, String.ofList_toList]

namespace Evaluation

/-- What can be seen of the two calls is the same. -/
theorem Together.report_eq {n : Nat} {μ μ' : Match} {said : String} {sh sh' : Shared}
    {result result' : (Outcome × Evaluation) × Shared}
    (h : Together n μ μ' said sh sh' result result') : report sh' result' = report sh result := by
  obtain ⟨⟨outcome, ev⟩, after⟩ := result
  obtain ⟨⟨outcome', ev'⟩, after'⟩ := result'
  rw [report, report, h.outcome.printed h.store, Shared.wroteSince_eq h.wrote,
    Shared.wroteSince_eq h.wrote', h.evaluation.stack.depth_eq, h.evaluation.stack.peak]

end Evaluation

/-! ## Bystanders -/

/-- There may be more nodes and objects on the right, and they are not paired off. -/
def Match.widen (t : Store) (μ : Match) : Match :=
  ⟨μ.nodes.widen t.nodes.size, μ.stamps.widen t.nextStamp⟩

theorem Match.le_widen (t : Store) (μ : Match) : μ ≤ μ.widen t :=
  ⟨fun h => h, fun h => h⟩

/-- When the right store has changed only elsewhere, the stores are alike as before. -/
theorem Store.Alike.widen {μ : Match} {s t t' : Store} (h : s.Alike μ t)
    (hsize : t.nodes.size ≤ t'.nodes.size) (hstamp : t.nextStamp ≤ t'.nextStamp)
    (hnodes : ∀ a b, μ.nodes.rel a b → t'.nodes[b]? = t.nodes[b]?) :
    s.Alike (μ.widen t') t' where
  nodesLeft := h.nodesLeft
  nodesRight := by
    show max μ.nodes.right t'.nodes.size = t'.nodes.size
    rw [h.nodesRight]
    exact Nat.max_eq_right hsize
  stampsLeft := h.stampsLeft
  stampsRight := by
    show max μ.stamps.right t'.nextStamp = t'.nextStamp
    rw [h.stampsRight]
    exact Nat.max_eq_right hstamp
  node hrel := by
    obtain ⟨x, y, hx, hy, halike⟩ := h.node hrel
    exact ⟨x, y, hx, (hnodes _ _ hrel).trans hy, halike.mono (μ.le_widen t')⟩
  ends := h.ends
  global := h.global

/-! ## All evaluations side by side -/

namespace Evaluation

theorem Alike.of_like {μ : Match} {ev : Evaluation} {records : Records}
    (h : (Thread.ofEvaluation ev records).Like μ) : ev.Alike μ ev := by
  obtain ⟨status, env, k⟩ := ev
  cases status with
  | ready e => exact ⟨.ready h.phase, h.env, h.stack⟩
  | suspended suspension => exact ⟨.suspended h.phase, h.env, h.stack⟩
  | _ => exact ⟨.ended, h.env, h.stack⟩

variable {ι : Type} {n : Nat}

/-- An evaluation `now` among others is alike to its counterpart, which runs alone. -/
structure Beside (n : Nat) (counterpart : Evaluation × Shared) (now : Evaluation)
    (present : Shared) (μ : Match) : Prop where
  alike : counterpart.1.Alike μ now
  store : counterpart.2.store.Alike μ present.store
  above : n ≤ μ.nodes.left ∧ n ≤ μ.nodes.right
  /-- What existed at the start is paired off with itself. -/
  rooted : ∀ a b, μ.nodes.rel a b → a < n ∨ b < n → a = b

section Beside

variable {counterpart : Evaluation × Shared} {now : Evaluation} {present later : Shared}
  {μ μ' : Match} {said : String} {result result' : (Outcome × Evaluation) × Shared}

/-- The same call is made of both. -/
theorem Beside.called (h : Beside n counterpart now present μ)
    (hcall : Together n μ μ' said counterpart.2 present result result') :
    Beside n (result.1.2, result.2) result'.1.2 result'.2 μ' where
  alike := hcall.evaluation
  store := hcall.store
  above := by
    have habove := h.above
    have hleft := hcall.grows.left_le
    have hright := hcall.grows.right_le.1
    omega
  rooted := by
    intro a b hrel hlow
    rcases hcall.grows.rel_cases hrel with hold | hnew
    · exact h.rooted a b hold hlow
    · have habove := h.above
      omega

/-- Another evaluation has been called, and has left alone what this one looks at. -/
theorem Beside.stays (h : Beside n counterpart now present μ)
    (hsize : present.store.nodes.size ≤ later.store.nodes.size)
    (hstamp : present.store.nextStamp ≤ later.store.nextStamp)
    (hnodes : ∀ a b, μ.nodes.rel a b → later.store.nodes[b]? = present.store.nodes[b]?) :
    Beside n counterpart now later (μ.widen later.store) where
  alike := h.alike.mono (μ.le_widen _)
  store := h.store.widen hsize hstamp hnodes
  above := ⟨h.above.1, Nat.le_trans h.above.2 (Nat.le_max_left _ _)⟩
  rooted := h.rooted

end Beside

/-- The evaluations `now`, which share the state `present`, each beside its counterpart. -/
structure Abreast (n : Nat) (alone : ι → Evaluation × Shared) (now : ι → Evaluation)
    (present : Shared) (μ : ι → Match) : Prop where
  beside : ∀ i, Beside n (alone i) (now i) present (μ i)
  /-- Two evaluations have only what existed at the start in common. -/
  apart : ∀ i j, i ≠ j → ∀ a a' b, (μ i).nodes.rel a b → (μ j).nodes.rel a' b → b < n

namespace Abreast

variable {alone : ι → Evaluation × Shared} {now : ι → Evaluation} {present : Shared}
  {μ : ι → Match} {i : ι} {μ' : Match} {said : String}
  {result result' : (Outcome × Evaluation) × Shared}

/-- What an evaluation looks at is not changed by a call of another one. -/
theorem spared (h : Abreast n alone now present μ)
    (hcall : Together n (μ i) μ' said (alone i).2 present result result') {j : ι} (hj : j ≠ i)
    {a b : Addr} (hrel : (μ j).nodes.rel a b) :
    result'.2.store.nodes[b]? = present.store.nodes[b]? := by
  apply hcall.spares.nodes b
  · rw [← (h.beside j).store.nodesRight]
    exact ((μ j).nodes.bounded hrel).2
  · intro a' hrel'
    have hb : b < n := h.apart i j hj.symm a' a b hrel' hrel
    rw [(h.beside i).rooted a' b hrel' (.inr hb)]
    exact hb

/-- The evaluation that is called shares nothing new with the others. -/
theorem apart_call (h : Abreast n alone now present μ)
    (hcall : Together n (μ i) μ' said (alone i).2 present result result') {j : ι} (hj : j ≠ i)
    {a a' b : Addr} (hrel : μ'.nodes.rel a b) (hrel' : (μ j).nodes.rel a' b) : b < n := by
  rcases hcall.grows.rel_cases hrel with hold | hnew
  · exact h.apart i j hj.symm a a' b hold hrel'
  · have hb := ((μ j).nodes.bounded hrel').2
    rw [(h.beside j).store.nodesRight, ← (h.beside i).store.nodesRight] at hb
    omega

/-- A call of one evaluation leaves all the others where they are. -/
theorem call [DecidableEq ι] (h : Abreast n alone now present μ)
    (hcall : Together n (μ i) μ' said (alone i).2 present result result') :
    Abreast n (Function.update alone i (result.1.2, result.2)) (Function.update now i result'.1.2)
      result'.2 (Function.update (fun j => (μ j).widen result'.2.store) i μ') := by
  constructor
  case beside =>
    intro j
    by_cases hj : j = i
    · subst hj
      simp only [Function.update_self]
      exact (h.beside j).called hcall
    · simp only [Function.update_of_ne hj]
      exact (h.beside j).stays hcall.spares.size hcall.spares.stamp
        fun a b hrel => h.spared hcall hj hrel
  case apart =>
    intro j k hjk a a' b
    by_cases hj : j = i
    · subst hj
      rw [Function.update_self, Function.update_of_ne hjk.symm]
      exact h.apart_call hcall hjk.symm
    · rw [Function.update_of_ne hj]
      by_cases hk : k = i
      · subst hk
        rw [Function.update_self]
        intro hrel hrel'
        exact h.apart_call hcall hj hrel' hrel
      · rw [Function.update_of_ne hk]
        exact h.apart j k hjk a a' b

theorem stands_update [DecidableEq ι] {evs : ι → Evaluation} {sh : Shared}
    (hstands : ∀ i, Stands (evs i) sh (alone i).1 (alone i).2)
    (hnext : Stands (evs i) sh result.1.2 result.2) (j : ι) :
    Stands (evs j) sh (Function.update alone i (result.1.2, result.2) j).1
      (Function.update alone i (result.1.2, result.2) j).2 := by
  by_cases hj : j = i
  · subst hj
    rw [Function.update_self]
    exact hnext
  · rw [Function.update_of_ne hj]
    exact hstands j

/-- The reports of one evaluation in a play are those of its counterpart. -/
theorem play_filter [DecidableEq ι] {evs : ι → Evaluation} {sh : Shared}
    (hready : ∀ i, ∃ e, (evs i).status = .ready e) (hkeeps : ∀ i, (evs i).KeepsBelow n sh)
    (schedule : List (ι × Call)) (hstands : ∀ i, Stands (evs i) sh (alone i).1 (alone i).2)
    (h : Abreast n alone now present μ) (others : ι → Evaluation)
    (hothers : others i = (alone i).1) :
    (play schedule now present).filter (·.1 = i) =
      play (schedule.filter (·.1 = i)) others (alone i).2 := by
  induction schedule generalizing alone now present μ others with
  | nil => rfl
  | cons entry schedule ih =>
      obtain ⟨j, call⟩ := entry
      obtain ⟨hnext, μ', said, htogether⟩ :=
        (hstands j).perform (hready j) (hkeeps j) (h.beside j).alike (h.beside j).store call
      have hrest := ih (stands_update hstands hnext) (h.call htogether)
      by_cases hj : j = i
      · subst hj
        have hplayed := hrest (Function.update others j (call.perform (alone j).1 (alone j).2).1.2)
          (by simp only [Function.update_self])
        rw [Function.update_self] at hplayed
        rw [List.filter_cons_of_pos (by simp), play, play, List.filter_cons_of_pos (by simp),
          htogether.report_eq, hothers]
        exact congrArg (_ :: ·) hplayed
      · have hi : i ≠ j := fun heq => hj heq.symm
        have hplayed := hrest others (by rw [Function.update_of_ne hi, hothers])
        rw [Function.update_of_ne hi] at hplayed
        rw [List.filter_cons_of_neg (by simpa using hj), play,
          List.filter_cons_of_neg (by simpa using hj)]
        exact hplayed

/-- At first every evaluation is its own counterpart. -/
theorem start {w : World} (hw : w.Closed) {evs : ι → Evaluation}
    (hevs : ∀ i, ∃ records, Thread.ofEvaluation (evs i) records ∈ w.threads) :
    Abreast w.shared.store.nodes.size (fun i => (evs i, w.shared)) evs w.shared
      fun _ => w.shared.store.own where
  beside i := by
    obtain ⟨records, hth⟩ := hevs i
    exact ⟨.of_like (hw.threads _ hth), hw.store, ⟨Nat.le_refl _, Nat.le_refl _⟩,
      fun _ _ hrel _ => hrel.1⟩
  apart _ _ _ _ _ _ _ hrel := hrel.1 ▸ hrel.2

end Abreast

end Evaluation

open Evaluation (Call play)

/-- **Interleaved evaluations do not disturb one another.**  Let evaluations be made but not yet
started in a reachable state, such that none of them, run alone from there, calls `read`, defines
anything in a frame that exists in that state, or assigns to a node that exists in it.  Then in
every play each of them goes through what it goes through when only its own calls are made: the
same outcomes in printed form, the same texts written, and the same depth and peak of its stack
after each call. -/
theorem interleaved_evaluations_do_not_interfere {ι : Type} [DecidableEq ι] {sh : Shared}
    {w : World} (hstore : sh.store = .initial)
    (hw : Relation.ReflTransGen World.Proceeds ⟨sh, [], []⟩ w) {evs : ι → Evaluation}
    (hready : ∀ i, ∃ e, (evs i).status = .ready e)
    (hevs : ∀ i, ∃ records, Thread.ofEvaluation (evs i) records ∈ w.threads)
    (hkeeps : ∀ i c, (evs i).Alone w.shared (.running c) → c.KeepsOff w.shared.store)
    (schedule : List (ι × Call)) (i : ι) :
    (play schedule evs w.shared).filter (·.1 = i) =
      play (schedule.filter (·.1 = i)) evs w.shared := by
  obtain ⟨log, hlogged⟩ := (World.Logged.initial sh hstore).later hw
  have hanchored := hlogged.sound.1
  have hbelow (j : ι) : (evs j).KeepsBelow w.shared.store.nodes.size w.shared := by
    intro c halone
    obtain ⟨records, hth⟩ := hevs j
    refine ⟨(hkeeps j c halone).unread, ?_⟩
    intro a htouches
    exact halone.le_of_touches hanchored hth (hkeeps j c halone) htouches
  exact (Evaluation.Abreast.start (World.closed_of_proceeds hstore hw) hevs).play_filter hready
    hbelow schedule (fun _ => .ready) evs rfl

/-- After `(define f (lambda (x) (lambda () (set! x (+ x 1)) x)))` the evaluations of
`((lambda (g) (g) (display (g)) (g)) (f 1))` and `((lambda (g) (display (g)) (car (g))) (f 10))`
take turns.  Both call `f` and assign to the frame that it opened for them. -/
theorem interleaved_evaluations_do_not_interfere_of_counters :
    ∃ (w : World) (evs : Bool → Evaluation) (schedule : List (Bool × Call)),
      Relation.ReflTransGen World.Proceeds ⟨.initial, [], []⟩ w ∧
      (∀ i c, (evs i).Alone w.shared (.running c) → c.KeepsOff w.shared.store) ∧
      (play schedule evs w.shared).map (fun entry => (entry.1, entry.2.wrote, entry.2.depth)) =
        [(true, "3", 2), (false, "11", 2), (true, "", 0), (false, "", 1)] ∧
      ∀ i, (play schedule evs w.shared).filter (·.1 = i) =
        play (schedule.filter (·.1 = i)) evs w.shared := by
  let counting : Datum :=
    .ofList [.symbol "set!", .symbol "x",
      .ofList [.symbol "+", .symbol "x", .number (.exact 1)] .nil] .nil
  let defined : World :=
    World.alone (.ofList [.symbol "define", .symbol "f",
      .ofList [.symbol "lambda", .ofList [.symbol "x"] .nil,
        .ofList [.symbol "lambda", .nil, counting, .symbol "x"] .nil] .nil] .nil) 10
  let count : Datum := .ofList [.symbol "g"] .nil
  let shown : Datum := .ofList [.symbol "display", count] .nil
  let counter (body : List Datum) (n : Int) : Datum :=
    .ofList [.ofList (.symbol "lambda" :: .ofList [.symbol "g"] .nil :: body) .nil,
      .ofList [.symbol "f", .number (.exact n)] .nil] .nil
  let first : Datum := counter [count, shown, count] 1
  let second : Datum := counter [shown, .ofList [.symbol "car", count] .nil] 10
  let w : World := (defined.submit first).submit second
  let placed (i : Bool) : Value :=
    if i then (defined.shared.onStore (Store.place first)).1
    else ((defined.submit first).shared.onStore (Store.place second)).1
  let evs (i : Bool) : Evaluation := .ofExpression (placed i) Store.global
  let schedule : List (Bool × Call) :=
    [(true, .start 60), (false, .start 60), (true, .resume 60 none), (false, .resume 60 none)]
  have hw : Relation.ReflTransGen World.Proceeds ⟨.initial, [], []⟩ w :=
    World.proceeds_submit rfl (World.proceeds_submit rfl (World.proceeds_alone _ 10).1 first) second
  have hevs (i : Bool) : ∃ records, Thread.ofEvaluation (evs i) records ∈ w.threads := by
    cases i with
    | true => exact ⟨[], List.mem_cons_of_mem _ List.mem_cons_self⟩
    | false => exact ⟨[], List.mem_cons_self⟩
  have htest (i : Bool) : Transition.keepsOff w.shared.store 90
      (.running ⟨.reduce (placed i), Store.global, .empty, w.shared⟩) = true := by
    cases i with
    | true => decide +kernel
    | false => decide +kernel
  have hkeeps (i : Bool) (c : Config) (h : (evs i).Alone w.shared (.running c)) :
      c.KeepsOff w.shared.store :=
    h.keepsOff rfl (htest i)
  exact ⟨w, evs, schedule, hw, hkeeps, by decide +kernel,
    interleaved_evaluations_do_not_interfere rfl hw (fun i => ⟨_, rfl⟩) hevs hkeeps schedule⟩

end SchemeMachine
