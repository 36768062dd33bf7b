import SchemeMachine.Proofs.Environment.AppendOnly
import SchemeMachine.Proofs.Matching.Step

/-!
# Everything in sight exists

All the addresses and stamps that a reachable world holds are of nodes and objects that have
been made.  Put differently, the world is like itself for the match that pairs off every node
and every object of its store with itself: `World.Closed`.

That is what lets two runs start from the same world and be compared from then on.  It is kept
by every step because steps that are alike stay so: two copies of one step make the same nodes
and objects.
-/

namespace SchemeMachine

variable {μ μ' : Match} {s t : Store}

/-! ## Stores and configurations -/

/-- Every node and every object of the store with itself. -/
def Store.own (s : Store) : Match :=
  .diagonal s.nodes.size s.nextStamp

/-- What the store holds refers to the store itself. -/
def Store.Closed (s : Store) : Prop :=
  s.Alike s.own s

/-- When a store that is closed has grown, the match is that of the new store. -/
theorem Store.Alike.eq_own (h : t.Alike μ t) (hgrows : s.own.Grows μ) : μ = t.own := by
  rw [hgrows.diagonal, h.nodesLeft, h.stampsLeft]
  rfl

theorem Store.own_le_of_grows (h : t.Alike μ t) (hgrows : s.own.Grows μ) : s.own ≤ t.own := by
  rw [← h.eq_own hgrows]
  exact hgrows.le

theorem Transition.Alike.config {x y : Transition} (h : x.Alike μ y) :
    x.config.Alike μ y.config := by
  cases h with
  | running h => exact h
  | finished _ h => exact h
  | suspended _ h => exact h
  | failed _ h => exact h

/-- What the machine has come to is like itself, for the match of its store. -/
theorem Match.Leads.closed {x : Transition} (h : s.own.Leads x x) :
    s.own ≤ x.config.store.own ∧ x.Alike x.config.store.own x := by
  obtain ⟨μ, hgrows, halike⟩ := h
  have hstore := halike.config.store
  refine ⟨Store.own_le_of_grows hstore hgrows, ?_⟩
  rw [← hstore.eq_own hgrows]
  exact halike

/-! ## The initial store -/

namespace Store

theorem mem_numbered {β : Type} (start : Addr) {items : List β} {i : Nat}
    (hi : i < items.length) : (start + i, items[i]) ∈ numbered start items := by
  induction items generalizing start i with
  | nil => cases hi
  | cons item items ih =>
      cases i with
      | zero => exact List.mem_cons_self
      | succ i =>
          have hrest := ih (start + 1) (Nat.lt_of_succ_lt_succ hi)
          rw [Nat.add_assoc, Nat.add_comm 1 i] at hrest
          exact List.mem_cons_of_mem _ hrest

theorem size_bindingsFrom (start : Addr) (bindings : List (String × Value)) :
    (bindingsFrom start bindings).length = bindings.length := by
  induction bindings generalizing start with
  | nil => rfl
  | cons binding rest ih =>
      cases rest with
      | nil => rfl
      | cons next rest => exact congrArg (· + 1) (ih (start + 1))

theorem size_ofBindings (bindings : List (String × Value)) :
    (ofBindings bindings).nodes.size = bindings.length + 1 := by
  simp [ofBindings, size_bindingsFrom]

/-- Every node is on the chain of the global frame. -/
theorem exists_link_ofBindings {bindings : List (String × Value)}
    (hvalues : ∀ binding ∈ bindings, binding.2.Alike μ binding.2) {a : Nat}
    (ha : a < (ofBindings bindings).nodes.size) :
    ∃ entry, entry.Alike μ entry ∧ (a, entry) ∈
      (global, Entry.globalMarker) :: numbered (global + 1) (bindings.map Entry.ofBinding) := by
  rw [size_ofBindings] at ha
  cases a with
  | zero => exact ⟨.globalMarker, .globalMarker, List.mem_cons_self⟩
  | succ i =>
      have hi : i < (bindings.map Entry.ofBinding).length := by
        rw [List.length_map]
        omega
      have hplace : global + 1 + i = i + 1 := Nat.add_comm 1 i
      have hlink := mem_numbered (global + 1) hi
      rw [hplace, List.getElem_map] at hlink
      exact ⟨_, .binding _ (hvalues _ (List.getElem_mem _)), List.mem_cons_of_mem _ hlink⟩

theorem closed_ofBindings {bindings : List (String × Value)}
    (hvalues : ∀ (μ : Match), ∀ binding ∈ bindings, binding.2.Alike μ binding.2) :
    (ofBindings bindings).Closed := by
  have hway := linked_ofBindings bindings
  constructor
  case nodesLeft => rfl
  case nodesRight => rfl
  case stampsLeft => rfl
  case stampsRight => rfl
  case global =>
    refine ⟨rfl, ?_⟩
    show 0 < (ofBindings bindings).nodes.size
    rw [size_ofBindings]
    omega
  case node =>
    rintro a _ ⟨rfl, ha⟩
    obtain ⟨entry, hentry, hlink⟩ := exists_link_ofBindings (hvalues _) ha
    obtain ⟨_, after, _, hlinked⟩ := hway.of_mem hlink
    cases hlinked with
    | @cons _ _ next _ hnode hrest =>
        refine ⟨_, _, hnode, hnode, hentry, ?_⟩
        cases hrest with
        | nil => exact .none
        | cons hnext _ => exact .some ⟨rfl, (Array.getElem?_eq_some_iff.mp hnext).1⟩
  case ends =>
    rintro a _ ⟨rfl, ha⟩
    obtain ⟨entry, _, hlink⟩ := exists_link_ofBindings (hvalues (ofBindings bindings).own) ha
    obtain ⟨_, after, _, hlinked⟩ := hway.of_mem hlink
    exact hlinked.ends

theorem closed_initial : initial.Closed := by
  apply closed_ofBindings
  intro μ binding hmem
  rw [startBindings, List.mem_cons, List.mem_cons] at hmem
  rcases hmem with rfl | rfl | hmem
  · exact .callWithContinuation
  · exact .applyToList
  · obtain ⟨p, _, rfl⟩ := List.mem_map.mp hmem
    exact .primitive p

end Store

/-! ## Worlds -/

/-- The evaluation is like itself. -/
structure Thread.Like (μ : Match) (th : Thread) : Prop where
  env : μ.nodes.rel th.env th.env
  stack : th.stack.Alike μ th.stack
  phase : match th.phase with
    | .ready e => e.Alike μ e
    | .running focus => focus.Alike μ focus
    | .suspended suspension => suspension.Alike μ suspension
    | .over => True

theorem Suspension.Alike.mono (hle : μ ≤ μ') {suspension suspension' : Suspension}
    (h : suspension.Alike μ suspension') : suspension.Alike μ' suspension' := by
  cases h with
  | awaiting request => exact .awaiting request
  | yielding h => exact .yielding (h.mono hle)

namespace Thread.Like

variable {th : Thread}

theorem mono (hle : μ ≤ μ') (h : th.Like μ) : th.Like μ' := by
  obtain ⟨phase, env, k, records⟩ := th
  refine ⟨hle.nodes h.env, h.stack.mono hle, ?_⟩
  have hphase := h.phase
  cases phase with
  | ready e => exact Value.Alike.mono hle hphase
  | running focus => exact Focus.Alike.mono hle hphase
  | suspended suspension => exact Suspension.Alike.mono hle hphase
  | _ => trivial

theorem ofTransition {x : Transition} (h : x.Alike μ x) (records : Records) :
    (Thread.ofTransition records x).Like μ := by
  have hconfig := h.config
  cases x with
  | running c => exact ⟨hconfig.env, hconfig.stack, hconfig.focus⟩
  | suspended suspension c =>
      cases h with
      | suspended hsuspension _ => exact ⟨hconfig.env, hconfig.stack, hsuspension⟩
  | finished v c => exact ⟨hconfig.env, hconfig.stack, trivial⟩
  | failed fault c => exact ⟨hconfig.env, hconfig.stack, trivial⟩

end Thread.Like

namespace World

/-- All that the world holds exists in its store. -/
structure Closed (w : World) : Prop where
  store : w.shared.store.Closed
  threads : ∀ th ∈ w.threads, th.Like w.shared.store.own

variable {w next : World}

theorem Closed.replaced {sh : Shared} {before after : List Thread} {captures : List Capture}
    {old : Thread} (h : Closed ⟨sh, before ++ old :: after, captures⟩) {x : Transition}
    (hx : sh.store.own.Leads x x) (records : Records) (captures' : List Capture) :
    Closed ⟨x.config.shared, before ++ .ofTransition records x :: after, captures'⟩ := by
  obtain ⟨hle, halike⟩ := hx.closed
  refine ⟨halike.config.store, ?_⟩
  exact forall_mem_replace (fun th hth => (h.threads th hth).mono hle)
    (.ofTransition halike records)

/-- Every step keeps a world closed, if the host makes evaluations in nodes that exist. -/
theorem Closed.step (h : w.Closed) (hstep : Step w next) (hready : next.ReadyInFrames) :
    next.Closed := by
  cases hstep with
  | @submitted sh threads captures d env =>
      obtain ⟨μ, hgrows, hvalue, hstore⟩ := h.store.place d
      have hle := Store.own_le_of_grows hstore hgrows
      rw [hstore.eq_own hgrows] at hvalue hstore
      refine ⟨hstore, List.forall_mem_cons.mpr ⟨⟨?_, ⟨.nil, rfl⟩, hvalue⟩, ?_⟩⟩
      · have hmarker := hready _ List.mem_cons_self _ rfl
        exact ⟨rfl, hmarker.lt_size⟩
      · intro th hth
        exact (h.threads th hth).mono hle
  | @started sh before after captures e env k records =>
      have hth := h.threads ⟨.ready e, env, k, records⟩ (by simp)
      exact ⟨h.store, forall_mem_replace h.threads ⟨hth.env, hth.stack, .reduce hth.phase⟩⟩
  | @stepped sh before after captures focus env k records c hc =>
      subst hc
      have hth := h.threads ⟨.running focus, env, k, records⟩ (by simp)
      have hconfig : Config.Alike sh.store.own ⟨focus, env, k, sh⟩ ⟨focus, env, k, sh⟩ :=
        ⟨hth.phase, hth.env, hth.stack, h.store, rfl⟩
      exact h.replaced hconfig.step _ _
  | @resumed sh before after captures suspension env k records t answer ht =>
      subst ht
      have hth := h.threads ⟨.suspended suspension, env, k, records⟩ (by simp)
      have hconfig : Config.Alike sh.store.own ⟨.drain .void, env, k, sh⟩
          ⟨.drain .void, env, k, sh⟩ :=
        ⟨.drain .void, hth.env, hth.stack, h.store, rfl⟩
      exact h.replaced (hconfig.resume hth.phase answer) _ _
  | @abandoned sh before after captures phase env k records =>
      have hth := h.threads ⟨phase, env, k, records⟩ (by simp)
      exact ⟨h.store, forall_mem_replace h.threads ⟨hth.env, hth.stack, trivial⟩⟩
  | @hosted sh threads captures other hstore =>
      constructor
      · show other.store.Closed
        rw [hstore]
        exact h.store
      · show ∀ th ∈ threads, th.Like other.store.own
        rw [hstore]
        exact h.threads

/-- Every history of a host that makes evaluations in frames leads to a closed world. -/
theorem closed_of_proceeds {sh : Shared} (hstore : sh.store = .initial)
    (h : Relation.ReflTransGen Proceeds ⟨sh, [], []⟩ w) : w.Closed := by
  induction h with
  | refl =>
      refine ⟨?_, fun th hmem => absurd hmem List.not_mem_nil⟩
      show sh.store.Closed
      rw [hstore]
      exact Store.closed_initial
  | tail _ hstep ih => exact ih.step hstep.1 hstep.2

/-- The host makes an evaluation in the global frame. -/
def submit (d : Datum) (w : World) : World :=
  ⟨(w.shared.onStore (Store.place d)).2,
    ⟨.ready (w.shared.onStore (Store.place d)).1, Store.global, .empty, []⟩ :: w.threads,
    w.captures⟩

theorem proceeds_submit {sh : Shared} (hstore : sh.store = .initial)
    (h : Relation.ReflTransGen Proceeds ⟨sh, [], []⟩ w) (d : Datum) :
    Relation.ReflTransGen Proceeds ⟨sh, [], []⟩ (w.submit d) := by
  obtain ⟨log, hlogged⟩ := (Logged.initial sh hstore).later h
  obtain ⟨hanchored, hkeeps⟩ := hlogged.sound
  have hstep : Step w (w.submit d) := .submitted d Store.global
  refine h.tail ⟨hstep, ?_⟩
  refine List.forall_mem_cons.mpr ⟨?_, ?_⟩
  · intro e _
    exact hstep.isMarker ⟨.globalMarker, hkeeps.global, rfl⟩
  · intro th hth e _
    exact hstep.isMarker (hanchored.threads th hth)

end World

end SchemeMachine
