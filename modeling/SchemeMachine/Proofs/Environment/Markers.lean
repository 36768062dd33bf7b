import SchemeMachine.Proofs.Environment.Chains
import SchemeMachine.Proofs.Moves
import SchemeMachine.Proofs.World.Laws

/-!
# Environments are frames

An environment can be any node of a store, but the machine only ever holds markers: the
current environment of an evaluation is one, and so is the environment of every closure
and of every restoring frame, on a stack or in a continuation.  A marker stays one, so
this is the law `Law.anchored` of a store that grows.

Evaluations are made by the host, which says in which environment.  What is shown here is
for a host that names the marker of a frame, such as the global one.
-/

namespace SchemeMachine

/-! ## Markers stay markers -/

namespace Store

variable {s t : Store} {a d : Addr}

theorem IsMarker.of_nodes (h : s.IsMarker a) (hnodes : t.nodes = s.nodes) : t.IsMarker a := by
  rw [IsMarker, entryAt, hnodes]
  exact h

theorem IsMarker.insertAfter (h : s.IsMarker a) (d : Addr) (entry : Entry) :
    (s.insertAfter d entry).IsMarker a := by
  cases hd : s.nodes[d]? with
  | none => simpa only [Store.insertAfter, hd] using h
  | some node =>
      rw [IsMarker, entryAt_insertAfter hd, if_neg (Nat.ne_of_lt h.lt_size)]
      exact h

theorem IsMarker.assign (h : s.IsMarker a) (d : Addr) (value : Value) :
    (s.assign d value).IsMarker a := by
  obtain ⟨entry, hentry, hmarker⟩ := h
  rw [IsMarker, entryAt_assign, hentry]
  split
  · refine ⟨_, rfl, ?_⟩
    cases entry with
    | binding => cases hmarker
    | _ => exact hmarker
  · exact ⟨_, rfl, hmarker⟩

theorem IsMarker.openFrame (h : s.IsMarker a) (home : Addr) (bindings : List (String × Value)) :
    (s.openFrame home bindings).2.IsMarker a := by
  obtain ⟨node, hnode, hmarker⟩ := h.node
  exact ⟨_, entryAt_of_node (getElem?_openFrame hnode home bindings), hmarker⟩

end Store

namespace Config.Effect

variable {c : Config} {deed : Option Deed} {t : Store} {env a : Addr}

theorem isMarker (heffect : c.Effect deed t env) (h : c.store.IsMarker a) : t.IsMarker a := by
  cases heffect with
  | kept hgrows => exact h.of_nodes hgrows.nodes
  | restored => exact h
  | defined => exact h.insertAfter _ _
  | keyed => exact h.insertAfter _ _
  | assigned => exact h.assign _ _
  | opened => exact h.openFrame _ _

/-- The environment that is current after a step is a marker, if what the machine held
before were markers. -/
theorem isMarker_env (heffect : c.Effect deed t env) (henv : c.store.IsMarker c.env)
    (hrestore : ∀ node rest, c.stack.frames = (.restore, .environment node) :: rest →
      c.store.IsMarker node) : t.IsMarker env := by
  cases heffect with
  | kept hgrows => exact henv.of_nodes hgrows.nodes
  | restored hfocus hframes => exact hrestore _ _ hframes
  | defined => exact henv.insertAfter _ _
  | keyed => exact henv.insertAfter _ _
  | assigned => exact henv.assign _ _
  | opened => exact ⟨.marker, Store.entryAt_openFrame_self _ _ _, rfl⟩

end Config.Effect

/-! ## The law of markers -/

/-- The frame holds a marker if it restores an environment, and defines a symbol if it
defines anything. -/
def Frame.Anchored (s : Store) : Frame → Prop
  | (.define, key) => ∃ name, key = .symbol name
  | (.restore, saved) => ∃ node, saved = .environment node ∧ s.IsMarker node
  | _ => True

/-- The environments of all closures and restoring frames are markers of the store. -/
def Law.anchored (s : Store) : Law where
  requirement :=
    { closure := fun _ _ env => s.IsMarker env
      continuation := fun _ frames => ∀ frame ∈ frames, frame.Anchored s }
  frames frames := ∀ frame ∈ frames, frame.Anchored s
  expression _ _ := True

theorem Frame.Anchored.mono {s t : Store} (hmono : ∀ a, s.IsMarker a → t.IsMarker a)
    {frame : Frame} (h : frame.Anchored s) : frame.Anchored t := by
  obtain ⟨kind, payload⟩ := frame
  cases kind with
  | restore =>
      obtain ⟨node, hnode, hmarker⟩ := h
      exact ⟨node, hnode, hmono node hmarker⟩
  | _ => exact h

theorem Law.anchored_mono {s t : Store} (hmono : ∀ a, s.IsMarker a → t.IsMarker a) :
    Law.anchored s ≤ Law.anchored t := by
  have hframes (frames : List Frame) (h : ∀ frame ∈ frames, frame.Anchored s) :
      ∀ frame ∈ frames, frame.Anchored t :=
    fun frame hmem => (h frame hmem).mono hmono
  exact ⟨⟨fun _ _ env => hmono env, fun _ => hframes⟩, hframes, fun _ _ _ => trivial⟩

namespace Config

variable {s : Store} {c : Config}

theorem anchored_pushRestore {k : Stack} (h : ∀ frame ∈ k.frames, frame.Anchored s) {env : Addr}
    (henv : s.IsMarker env) : ∀ frame ∈ (k.pushRestore env).frames, frame.Anchored s := by
  rw [Stack.frames_pushRestore]
  split
  · exact h
  · exact List.forall_mem_cons.mpr ⟨⟨env, rfl, henv⟩, h⟩

theorem Moves.anchored {env : Addr} {frames : List Frame} (hmoves : c.Moves env frames)
    (h : c.Obeys (.anchored s)) (henv : s.IsMarker c.env) :
    ∀ frame ∈ frames, frame.Anchored s := by
  have hstack : ∀ frame ∈ c.stack.frames, frame.Anchored s := h.frames.law
  have hcallee := h.focus.meets
  -- what is left when frames are taken off
  have hbelow {top : Frame} {rest : List Frame} (hframes : c.stack.frames = top :: rest) :
      ∀ frame ∈ rest, frame.Anchored s := by
    rw [hframes] at hstack
    exact (List.forall_mem_cons.mp hstack).2
  cases hmoves with
  | reduced hfocus => exact hstack
  | @pushed e kind payload hfocus hkind hpayload =>
      refine List.forall_mem_cons.mpr ⟨?_, hstack⟩
      cases kind with
      | define => exact hpayload
      | restore => cases hkind
      | _ => trivial
  | popped hfocus hframes hkind => exact hbelow hframes
  | advanced hfocus hframes hmore => exact List.forall_mem_cons.mpr ⟨trivial, hbelow hframes⟩
  | @operandsBegun v chain others rest hfocus hframes =>
      intro frame hmem
      rcases List.mem_cons.mp hmem with rfl | hmem
      · trivial
      rcases List.mem_append.mp hmem with hoperand | hmem
      · obtain ⟨operand, _, rfl⟩ := List.mem_map.mp hoperand
        trivial
      rcases List.mem_cons.mp hmem with rfl | hmem
      · trivial
      · exact hbelow hframes frame hmem
  | operandCollected hfocus hframes =>
      have hrest := List.forall_mem_cons.mp (hbelow hframes)
      exact List.forall_mem_cons.mpr ⟨trivial, hrest.2⟩
  | operandsCollected hfocus hframes => exact (List.forall_mem_cons.mp (hbelow hframes)).2
  | restored hfocus hframes => exact hbelow hframes
  | called hfocus hcallee => exact hstack
  | captured hfocus hone => exact anchored_pushRestore hstack henv
  | entered hfocus =>
      exact List.forall_mem_cons.mpr ⟨trivial, anchored_pushRestore hstack henv⟩
  | reinstated hfocus =>
      rw [hfocus] at hcallee
      exact hcallee.1.1

/-- A step keeps the law, if the current environment is a marker. -/
theorem step_anchored (h : c.Obeys (.anchored s)) (henv : s.IsMarker c.env) :
    c.step.Obeys (.anchored s) := by
  have hstack : ∀ frame ∈ c.stack.frames, frame.Anchored s := h.frames.law
  have hsaved := anchored_pushRestore hstack henv
  apply step_obeys h
  · intro e parameters body _ _ _
    exact henv
  · exact hsaved
  · intro focus env k hgoes
    exact ⟨hgoes.moves.anchored h henv, fun _ _ => trivial⟩
  · intro fault k hfails
    refine hfails.leaves (p := fun frames => ∀ frame ∈ frames, frame.Anchored s) hstack ?_ ?_
    · intro top rest hframes
      exact (List.forall_mem_cons.mp hframes).2
    · intro stamp parameters body home arguments _
      exact List.forall_mem_cons.mpr ⟨trivial, hsaved⟩

end Config

/-! ## Worlds -/

namespace World

variable {w next : World} {a : Addr}

/-- The evaluations that have yet to be started are to run in frames. -/
def ReadyInFrames (w : World) : Prop :=
  ∀ th ∈ w.threads, ∀ e, th.phase = .ready e → w.shared.store.IsMarker th.env

/-- Every environment that anything in the world holds is a marker. -/
structure Anchored (w : World) : Prop where
  obeys : w.Obeys (.anchored w.shared.store)
  threads : ∀ th ∈ w.threads, w.shared.store.IsMarker th.env

theorem Step.isMarker (hstep : Step w next) (h : w.shared.store.IsMarker a) :
    next.shared.store.IsMarker a := by
  cases hstep with
  | submitted d env => exact h.of_nodes (Store.nodes_place d _)
  | started => exact h
  | stepped hc =>
      subst hc
      exact (Config.step_effect _).isMarker h
  | resumed answer ht =>
      subst ht
      exact h.of_nodes (Config.resume_keeps _ _ answer).1.nodes
  | abandoned => exact h
  | hosted other hstore =>
      rw [hstore]
      exact h

theorem Anchored.step (h : w.Anchored) (hstep : Step w next) (hready : next.ReadyInFrames) :
    next.Anchored := by
  have hgrown : w.Obeys (.anchored next.shared.store) :=
    h.obeys.mono (Law.anchored_mono fun a => hstep.isMarker)
  have hthreads : ∀ th ∈ w.threads, next.shared.store.IsMarker th.env :=
    fun th hth => hstep.isMarker (h.threads th hth)
  constructor
  · by_cases hstarts : ∃ e, Starts w next e
    · obtain ⟨e, hstarts⟩ := hstarts
      exact hgrown.started hstarts fun _ => trivial
    · refine hgrown.step_of (fun _ hmem => absurd hmem List.not_mem_nil) ?_ hstep ?_
      · intro th hth focus hphase
        exact Config.step_anchored (hgrown.config hth hphase) (hthreads th hth)
      · intro e he
        exact hstarts ⟨e, he⟩
  · cases hstep with
    | @submitted sh threads captures d env =>
        refine List.forall_mem_cons.mpr ⟨?_, hthreads⟩
        exact hready ⟨.ready (sh.onStore (Store.place d)).1, env, .empty, []⟩ (by simp) _ rfl
    | @started sh before after captures e env k records =>
        exact forall_mem_replace hthreads (hthreads ⟨.ready e, env, k, records⟩ (by simp))
    | @stepped sh before after captures focus env k records c hc =>
        refine forall_mem_replace hthreads ?_
        rw [(Thread.ofTransition_eq _ _).1]
        subst hc
        have hth := h.threads ⟨.running focus, env, k, records⟩ (by simp)
        refine (Config.step_effect _).isMarker_env hth ?_
        intro node rest hframes
        obtain ⟨hframesObey, _⟩ := h.obeys.threads ⟨.running focus, env, k, records⟩ (by simp)
        obtain ⟨_, ⟨⟩, hmarker⟩ :=
          hframesObey.law (.restore, .environment node) (hframes ▸ List.mem_cons_self)
        exact hmarker
    | @resumed sh before after captures suspension env k records t answer ht =>
        refine forall_mem_replace hthreads ?_
        rw [(Thread.ofTransition_eq _ _).1]
        have henv := hthreads ⟨.suspended suspension, env, k, records⟩ (by simp)
        rw [ht, (Config.resume_keeps _ _ answer).2]
        rwa [ht] at henv
    | @abandoned sh before after captures phase env k records =>
        exact forall_mem_replace hthreads (hthreads ⟨phase, env, k, records⟩ (by simp))
    | hosted other hstore => exact hthreads

end World

end SchemeMachine
