import Mathlib.Logic.Relation
import SchemeMachine.Proofs.Environment.Log
import SchemeMachine.Proofs.Environment.Markers

/-!
# Environments only grow

Histories are told here with a log: `World.Logged` is `World.Reachable` with what the steps
have done to the environments, for a host that makes evaluations in frames.  Every such
history has a log, and the store keeps to it.

So the environments of an interpreter are a log of definitions to which more is only ever
added.  A symbol that can be looked up can be looked up for ever.  A definition or an
assignment changes the lookups of one symbol at most, from the frames whose chains it is
on.  And `(globals)` lists what has been defined in the global frame, in the order in which
that was done.
-/

namespace SchemeMachine

/-! ## One step -/

namespace Config.Effect

variable {c : Config} {t : Store} {env : Addr}

theorem done {deed : Deed} (heffect : c.Effect (some deed) t env)
    (h : c.Obeys (.anchored c.store)) (henv : c.store.IsMarker c.env) : deed.Done c.store t := by
  cases heffect with
  | defined hfocus hframes => exact .defined henv _ _
  | assigned hfocus hframes => exact .assigned _ _
  | opened hfocus hmade =>
      have hcallee := h.focus.meets
      rw [hfocus] at hcallee
      exact .opened hcallee.1.1 _

theorem nodes_eq (heffect : c.Effect none t env) (h : c.Obeys (.anchored c.store)) :
    t.nodes = c.store.nodes := by
  cases heffect with
  | kept hgrows => exact hgrows.nodes
  | restored hfocus hframes => rfl
  | @keyed v key label rest hfocus hframes hkey =>
      -- a defining frame of the machine holds a symbol
      obtain ⟨name, hname⟩ := h.frames.law (.define, key) (hframes ▸ List.mem_cons_self)
      exact absurd hname (hkey name)

end Config.Effect

/-! ## Histories with their logs -/

namespace World

/-- The step from the one world to the other does this to the environments. -/
inductive Does : World → World → Deed → Prop
  | mk {sh : Shared} {before after : List Thread} {captures : List Capture} {focus : Focus}
      {env : Addr} {k : Stack} {records : Records} {c : Config} {deed : Deed}
      (hc : c = ⟨focus, env, k, sh⟩) (hdeed : c.deed? = some deed) :
      Does ⟨sh, before ++ ⟨.running focus, env, k, records⟩ :: after, captures⟩
        ⟨c.step.config.shared,
          before ++ .ofTransition (c.nextRecords captures records) c.step :: after,
          (c.capture? records).toList ++ captures⟩ deed

/-- A step, with a host that makes evaluations in frames only. -/
def Proceeds (w next : World) : Prop :=
  Step w next ∧ next.ReadyInFrames

/-- Some history with this log leads to the world. -/
inductive Logged : Log → World → Prop
  | initial (sh : Shared) (hstore : sh.store = .initial) : Logged [] ⟨sh, [], []⟩
  | did {log : Log} {w next : World} {deed : Deed} (h : Logged log w) (hstep : Proceeds w next)
      (hdoes : Does w next deed) : Logged (deed :: log) next
  | other {log : Log} {w next : World} (h : Logged log w) (hstep : Proceeds w next)
      (hquiet : ∀ deed, ¬Does w next deed) : Logged log next

variable {log : Log} {w next : World} {deed : Deed}

/-- Every history has a log, and a longer history a longer log. -/
theorem Logged.later {later : World} (h : Logged log w)
    (hlater : Relation.ReflTransGen Proceeds w later) :
    ∃ new, Logged (new ++ log) later := by
  induction hlater with
  | refl => exact ⟨[], h⟩
  | @tail mid later hmid hstep ih =>
      obtain ⟨new, ih⟩ := ih
      by_cases hdoes : ∃ deed, Does mid later deed
      · obtain ⟨deed, hdoes⟩ := hdoes
        exact ⟨deed :: new, ih.did hstep hdoes⟩
      · exact ⟨new, ih.other hstep fun deed hdeed => hdoes ⟨deed, hdeed⟩⟩

theorem Does.done (hdoes : Does w next deed) (h : w.Anchored) :
    deed.Done w.shared.store next.shared.store := by
  cases hdoes with
  | @mk sh before after captures focus env k records c _ hc hdeed =>
      have hth : (⟨.running focus, env, k, records⟩ : Thread) ∈
          before ++ ⟨.running focus, env, k, records⟩ :: after := by simp
      have heffect := c.step_effect
      rw [hdeed] at heffect
      subst hc
      exact heffect.done (h.obeys.config hth rfl) (h.threads _ hth)

theorem Anchored.nodes_of_quiet (h : w.Anchored) (hstep : Step w next)
    (hquiet : ∀ deed, ¬Does w next deed) : next.shared.store.nodes = w.shared.store.nodes := by
  cases hstep with
  | submitted d env => exact Store.nodes_place d _
  | started => rfl
  | @stepped sh before after captures focus env k records c hc =>
      have hth : (⟨.running focus, env, k, records⟩ : Thread) ∈
          before ++ ⟨.running focus, env, k, records⟩ :: after := by simp
      have hnone : c.deed? = none := by
        rw [Option.eq_none_iff_forall_ne_some]
        intro deed hdeed
        exact hquiet deed (.mk hc hdeed)
      have heffect := c.step_effect
      rw [hnone] at heffect
      subst hc
      exact heffect.nodes_eq (h.obeys.config hth rfl)
  | resumed answer ht =>
      subst ht
      exact (Config.resume_keeps _ _ answer).1.nodes
  | abandoned => rfl
  | hosted other hstore => rw [hstore]

theorem Logged.sound (h : Logged log w) : w.Anchored ∧ log.Keeps w.shared.store := by
  induction h with
  | initial sh hstore =>
      refine ⟨⟨⟨?_, ?_⟩, ?_⟩, ?_⟩
      · rw [hstore]
        exact Store.initial_meets _
      · exact fun th hmem => absurd hmem List.not_mem_nil
      · exact fun th hmem => absurd hmem List.not_mem_nil
      · rw [hstore]
        exact Log.keeps_initial
  | did h hstep hdoes ih => exact ⟨ih.1.step hstep.1 hstep.2, ih.2.did (hdoes.done ih.1)⟩
  | other h hstep hquiet ih =>
      exact ⟨ih.1.step hstep.1 hstep.2, ih.2.of_nodes (ih.1.nodes_of_quiet hstep.1 hquiet)⟩

/-- A step does a deed, or leaves the nodes alone. -/
theorem Anchored.proceeds (h : w.Anchored) (hstep : Proceeds w next) :
    (∃ deed : Deed, deed.Done w.shared.store next.shared.store) ∨
      next.shared.store.nodes = w.shared.store.nodes := by
  by_cases hdoes : ∃ deed, Does w next deed
  · obtain ⟨deed, hdoes⟩ := hdoes
    exact .inl ⟨deed, hdoes.done h⟩
  · exact .inr (h.nodes_of_quiet hstep.1 fun deed hdeed => hdoes ⟨deed, hdeed⟩)

theorem Logged.binding {later : World} (h : Logged log w)
    (hlater : Relation.ReflTransGen Proceeds w later) {a : Addr} {name : String} {v : Value}
    {succ : Option Addr} (hnode : w.shared.store.nodes[a]? = some ⟨.binding name v, succ⟩) :
    ∃ v', later.shared.store.nodes[a]? = some ⟨.binding name v', succ⟩ := by
  induction hlater with
  | refl => exact ⟨v, hnode⟩
  | tail hmid hstep ih =>
      obtain ⟨new, hlogged⟩ := h.later hmid
      obtain ⟨v', ih⟩ := ih
      rcases hlogged.sound.1.proceeds hstep with ⟨deed, hdone⟩ | hnodes
      · exact hdone.binding ih
      · exact ⟨v', hnodes ▸ ih⟩

theorem Logged.resolvable {later : World} (h : Logged log w)
    (hlater : Relation.ReflTransGen Proceeds w later) {a : Addr} {name : String}
    (hmarker : w.shared.store.IsMarker a) (hsome : (w.shared.store.find? name a).isSome = true) :
    later.shared.store.IsMarker a ∧ (later.shared.store.find? name a).isSome = true := by
  induction hlater with
  | refl => exact ⟨hmarker, hsome⟩
  | tail hmid hstep ih =>
      obtain ⟨new, hlogged⟩ := h.later hmid
      obtain ⟨hanchored, hkeeps⟩ := hlogged.sound
      refine ⟨hstep.1.isMarker ih.1, ?_⟩
      obtain ⟨b, hb⟩ := (Store.isSome_find?_iff _ name a).mp ih.2
      refine (Store.isSome_find?_iff _ name a).mpr ⟨b, ?_⟩
      rcases hanchored.proceeds hstep with ⟨deed, hdone⟩ | hnodes
      · rw [hdone.links_eq (hkeeps.ends a ih.1)]
        exact deed.subset_spread _ hb
      · rwa [Store.links, Store.chain_of_nodes hnodes]

end World

/-! ## Listing the globals -/

namespace Log

variable {log : Log} {s : Store}

/-- The built-in names, and then the symbol of every definition in the global frame in the
order in which they were made. -/
def globalNames (log : Log) : List String :=
  (Store.startBindings.map Prod.fst).reverse ++
    ((log.definedIn Store.global).map Prod.snd).reverse

theorem filterMap_boundBy {way : List (Addr × Entry)} {nodes : List (Addr × String)}
    (h : way.map (Prod.map id Entry.name?) = bindings nodes) :
    (way.filterMap fun (_, entry) => Store.boundBy entry) =
      (nodes.map Prod.snd).map Value.symbol := by
  induction way generalizing nodes with
  | nil =>
      cases nodes with
      | nil => rfl
      | cons node nodes => cases h
  | cons link way ih =>
      cases nodes with
      | nil => cases h
      | cons node nodes =>
          obtain ⟨b, entry⟩ := link
          obtain ⟨hlink, hway⟩ := List.cons.inj h
          have hname : entry.name? = some node.2 := congrArg Prod.snd hlink
          cases entry with
          | binding name v =>
              cases hname
              exact congrArg _ (ih hway)
          | _ => cases hname

theorem map_snd_numbered {β : Type} (start : Addr) (items : List β) :
    (Store.numbered start items).map Prod.snd = items := by
  induction items generalizing start with
  | nil => rfl
  | cons item items ih => rw [Store.numbered, List.map_cons, ih]

/-- The symbols bound in the global environment, the oldest first. -/
theorem Keeps.bound_global (h : log.Keeps s) :
    s.bound Store.global = log.globalNames.map Value.symbol := by
  have hstart := h.start
  rw [Segment, List.append_nil] at hstart
  obtain ⟨⟨b, entry⟩, way, hchain, hhead, hway⟩ := List.map_eq_cons_iff.mp hstart
  obtain ⟨rfl, _⟩ := Prod.mk.inj hhead
  obtain ⟨next, hnode⟩ : ∃ next, s.nodes[Store.global]? = some ⟨entry, next⟩ :=
    Store.mem_chainFrom (hchain ▸ List.mem_cons_self)
  cases (Store.entryAt_of_node hnode).symm.trans h.global
  have hnames : builtins.map Prod.snd = Store.startBindings.map Prod.fst := map_snd_numbered _ _
  rw [Store.bound, hchain, List.filterMap_cons_none rfl, filterMap_boundBy hway, List.map_append,
    hnames, ← List.map_reverse, List.reverse_append]
  rfl

end Log

theorem Store.elements_newList (items : List Value) (s : Store) :
    (s.newList items).1.elements = .ok items := by
  induction items with
  | nil => rfl
  | cons item items ih =>
      simp only [newList, newPair, Value.elements, ih]
      rfl

/-- `(globals)` gives a list of the global names. -/
theorem Log.Keeps.step_globals {log : Log} {sh : Shared} (h : log.Keeps sh.store) (env : Addr)
    (k : Stack) :
    ∃ list after, Config.step ⟨.call (.primitive .globals) .nil, env, k, sh⟩ = .running after ∧
      after.focus = .drain list ∧ list.elements = .ok (log.globalNames.map .symbol) := by
  refine ⟨_, _, rfl, rfl, ?_⟩
  rw [← h.bound_global]
  exact Store.elements_newList _ _

/-! ## The log of an interpreter -/

namespace World

/-- What the environments of a world have to do with the log of its history. -/
structure AppendOnly (log : Log) (w : World) : Prop where
  /-- All the environments that are held are markers of frames. -/
  anchored : w.Anchored
  /-- The chain from a marker comes to an end. -/
  ends : ∀ a, w.shared.store.IsMarker a → w.shared.store.Ends a
  /-- It is the chain that the log tells of the frame. -/
  tells : ∀ a links, log.Tells a links ↔
    w.shared.store.IsMarker a ∧ w.shared.store.links a = links
  /-- There is a single global marker. -/
  single : ∀ a, w.shared.store.entryAt a = some .globalMarker ↔ a = Store.global
  /-- The symbol and the successor of a binding never change. -/
  binding : ∀ later, Relation.ReflTransGen Proceeds w later →
    ∀ (a : Addr) (name : String) (v : Value) (succ : Option Addr),
      w.shared.store.nodes[a]? = some ⟨.binding name v, succ⟩ →
        ∃ v', later.shared.store.nodes[a]? = some ⟨.binding name v', succ⟩
  /-- A symbol that can be looked up from a marker can be looked up from it for ever. -/
  resolvable : ∀ later, Relation.ReflTransGen Proceeds w later → ∀ a name,
    w.shared.store.IsMarker a → (w.shared.store.find? name a).isSome = true →
      later.shared.store.IsMarker a ∧ (later.shared.store.find? name a).isSome = true
  /-- A deed changes the lookups that it concerns at most. -/
  changed : ∀ next deed, Does w next deed → ∀ a name, w.shared.store.IsMarker a →
    next.shared.store.find? name a ≠ w.shared.store.find? name a →
      deed.Concerns w.shared.store a name
  /-- Other steps change no lookup. -/
  unchanged : ∀ next, Proceeds w next → (∀ deed, ¬Does w next deed) → ∀ a name,
    next.shared.store.find? name a = w.shared.store.find? name a
  /-- Listing the globals gives the built-in names, and what was defined in the global
  frame in the order in which that was done. -/
  globals : ∀ env k, ∃ list after,
    Config.step ⟨.call (.primitive .globals) .nil, env, k, w.shared⟩ = .running after ∧
      after.focus = .drain list ∧ list.elements = .ok (log.globalNames.map .symbol)

variable {log : Log} {w : World}

theorem Logged.appendOnly (h : Logged log w) : w.AppendOnly log := by
  obtain ⟨hanchored, hkeeps⟩ := h.sound
  constructor
  case anchored => exact hanchored
  case ends => exact hkeeps.ends
  case tells => exact hkeeps.tells_iff
  case single =>
    intro a
    constructor
    · exact hkeeps.single a
    · rintro rfl
      exact hkeeps.global
  case binding =>
    intro later hlater a name v succ hnode
    exact h.binding hlater hnode
  case resolvable =>
    intro later hlater a name hmarker hsome
    exact h.resolvable hlater hmarker hsome
  case changed =>
    intro next deed hdoes a name hmarker hne
    exact (hdoes.done hanchored).concerns (hkeeps.ends a hmarker) hne
  case unchanged =>
    intro next hstep hquiet a name
    have hnodes := hanchored.nodes_of_quiet hstep.1 hquiet
    rw [Store.find?_eq_findSome?_chain, Store.find?_eq_findSome?_chain,
      Store.chain_of_nodes hnodes]
  case globals =>
    intro env k
    exact hkeeps.step_globals env k

/-! ## One evaluation on its own -/

theorem ReadyInFrames.advance (h : w.ReadyInFrames) : w.advance = w ∨ Proceeds w w.advance := by
  unfold World.advance
  split
  next sh e env k records after captures =>
    refine .inr ⟨@Step.started sh [] after captures e env k records, ?_⟩
    intro th hth
    rcases List.mem_cons.mp hth with rfl | hafter
    · exact fun _ hphase => by cases hphase
    · exact h th (List.mem_cons_of_mem _ hafter)
  next sh focus env k records after captures =>
    have hstep := @Step.stepped sh [] after captures focus env k records _ rfl
    refine .inr ⟨hstep, ?_⟩
    intro th hth e hphase
    rcases List.mem_cons.mp hth with rfl | hafter
    · generalize Config.step _ = t at hphase
      cases t with
      | _ => cases hphase
    · exact hstep.isMarker (h th (List.mem_cons_of_mem _ hafter) e hphase)
  next => exact .inl rfl

theorem proceeds_alone (d : Datum) (steps : Nat) :
    Relation.ReflTransGen Proceeds ⟨.initial, [], []⟩ (alone d steps) ∧
      (alone d steps).ReadyInFrames := by
  induction steps with
  | zero =>
      have hready : (alone d 0).ReadyInFrames := by
        intro th hth e _
        obtain rfl := List.mem_singleton.mp hth
        exact (show Store.initial.IsMarker Store.global from ⟨_, rfl, rfl⟩).of_nodes
          (Store.nodes_place d _)
      exact ⟨.single ⟨.submitted d Store.global, hready⟩, hready⟩
  | succ steps ih =>
      obtain ⟨hlater, hready⟩ := ih
      change Relation.ReflTransGen Proceeds _ (alone d steps).advance ∧
        (alone d steps).advance.ReadyInFrames
      rcases hready.advance with heq | hstep
      · rw [heq]
        exact ⟨hlater, hready⟩
      · exact ⟨hlater.tail hstep, hstep.2⟩

end World

/-- **Environments are append-only.**  In every state of an interpreter whose evaluations
are made in frames, the environments are an append-only log: every history that leads to
the state has a log, and whatever log it is, the environments held are frames, their
chains are those that the log tells, and nothing is ever taken back. -/
theorem environments_are_append_only {sh : Shared} {w : World} (hstore : sh.store = .initial)
    (h : Relation.ReflTransGen World.Proceeds ⟨sh, [], []⟩ w) :
    (∃ log, World.Logged log w) ∧ ∀ log, World.Logged log w → w.AppendOnly log := by
  obtain ⟨log, hlogged⟩ := (World.Logged.initial sh hstore).later h
  exact ⟨⟨_, hlogged⟩, fun _ hlog => hlog.appendOnly⟩

/-- In `((lambda (x) (define y 2) (set! x y)) 1)` the frame of the call is node 26.  Once
`y` has been defined, its chain has `y` before the parameter `x`, and the global frame after
that. -/
theorem environments_are_append_only_of_call :
    ∃ (w : World) (log : Log), World.Logged log w ∧ w.AppendOnly log ∧
      log.Tells 26 ([(26, none), (27, some "y"), (25, some "x")] ++
        w.shared.store.links Store.global) := by
  have hw := World.proceeds_alone
    (.ofList [.ofList [.symbol "lambda", .ofList [.symbol "x"] .nil,
      .ofList [.symbol "define", .symbol "y", .number (.exact 2)] .nil,
      .ofList [.symbol "set!", .symbol "x", .symbol "y"] .nil] .nil,
      .number (.exact 1)] .nil) 12
  obtain ⟨⟨log, hlogged⟩, hlog⟩ := environments_are_append_only rfl hw.1
  have happend := hlog log hlogged
  exact ⟨_, log, hlogged, happend, (happend.tells _ _).mpr ⟨⟨_, rfl, rfl⟩, rfl⟩⟩

end SchemeMachine
