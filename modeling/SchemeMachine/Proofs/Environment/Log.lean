import SchemeMachine.Proofs.Environment.Chains

/-!
# The log of a store

A log is what has been done to the environments, the latest first.  It tells the chain of
every frame (`Log.Tells`) without any store: the definitions made in the frame, the latest
first, and then the parameters of the call and the chain of the frame that the closure was
made in, or the built-in procedures for the global frame.

A store keeps to a log if its frames are those of the log and have the chains that it
tells: `Log.Keeps`.  The initial store keeps to the empty log, and a store that keeps to a
log keeps to the longer one when a deed is done to it (`Keeps.did`).  The argument is made
for one segment of a chain at a time.  A definition is spliced in right after the marker of
its frame, and as that marker stands on many chains this must come out alike on all.
-/

namespace SchemeMachine

/-! ## Deeds done to a store -/

/-- The one store becomes the other by the deed. -/
inductive Deed.Done (s : Store) : Deed → Store → Prop
  | defined {frame : Addr} (hframe : s.IsMarker frame) (name : String) (v : Value) :
      Done s (.defined frame s.nodes.size name) (s.define frame name v)
  | assigned (node : Addr) (v : Value) : Done s (.assigned node) (s.assign node v)
  | opened {home : Addr} (hhome : s.IsMarker home) (made : List (String × Value)) :
      Done s (.opened (s.nodes.size + made.length) home
        (Store.addressed s.nodes.size (made.map Prod.fst))) (s.openFrame home made).2

/-- What a deed does to a chain: a definition is spliced in after the marker of its frame. -/
def Deed.spread : Deed → List (Addr × Option String) → List (Addr × Option String)
  | .defined frame node name => Store.splice frame (node, some name)
  | .assigned _ | .opened .. => id

/-- The lookup of `name` from `a` may be changed by the deed. -/
def Deed.Concerns (s : Store) (a : Addr) (name : String) : Deed → Prop
  | .defined frame _ bound => bound = name ∧ frame ∈ (s.chain a).map Prod.fst
  | .assigned node => ∃ v, (node, Entry.binding name v) ∈ s.chain a
  | .opened .. => False

theorem Deed.spread_append (deed : Deed) (links others : List (Addr × Option String)) :
    deed.spread (links ++ others) = deed.spread links ++ deed.spread others := by
  cases deed with
  | defined frame node name => exact Store.splice_append _ _ links others
  | _ => rfl

theorem Deed.subset_spread (deed : Deed) (links : List (Addr × Option String)) :
    links ⊆ deed.spread links := by
  cases deed with
  | defined frame node name => exact Store.subset_splice _ _ links
  | _ => exact List.Subset.refl links

namespace Deed.Done

variable {deed : Deed} {s t : Store} {a : Addr} {entry : Entry}

theorem size_le (hdone : deed.Done s t) : s.nodes.size ≤ t.nodes.size := by
  cases hdone with
  | defined hframe name v =>
      unfold Store.define Store.insertAfter
      split
      · exact Nat.le_refl _
      · simp [Store.pushNode]
  | assigned node v =>
      unfold Store.assign
      split
      · simp
      · exact Nat.le_refl _
  | opened hhome made =>
      simp only [Store.openFrame, Store.pushNode, Array.size_push, Store.size_extend]
      omega

theorem ends (hdone : deed.Done s t) (h : s.Ends a) : t.Ends a := by
  cases hdone with
  | defined hframe name v =>
      obtain ⟨node, hnode, _⟩ := hframe.node
      exact (Store.Linked.insertAfter h hnode _).ends
  | assigned node v => exact (Store.Linked.assign h node v).ends
  | opened hhome made =>
      exact (Store.Linked.mono h fun _ _ hb => Store.getElem?_openFrame hb _ made).ends

/-- What a deed does to every chain. -/
theorem links_eq (hdone : deed.Done s t) (h : s.Ends a) : t.links a = deed.spread (s.links a) := by
  cases hdone with
  | defined hframe name v =>
      obtain ⟨node, hnode, _⟩ := hframe.node
      rw [Store.links, Store.define, h.insertAfter hnode, Store.map_splice]
      rfl
  | assigned node v =>
      rw [Store.links, h.assign, Store.map_name?_reassign]
      rfl
  | opened hhome made =>
      rw [Store.links, h.openFrame]
      rfl

theorem entryAt_marker (hdone : deed.Done s t) (h : s.entryAt a = some entry)
    (hmarker : entry.isMarker = true) : t.entryAt a = some entry := by
  have hlt := Store.lt_size_of_entryAt h
  obtain ⟨node, hnode, rfl⟩ := Option.map_eq_some_iff.mp h
  cases hdone with
  | defined hframe name v =>
      obtain ⟨_, hd, _⟩ := hframe.node
      rw [Store.define, Store.entryAt_insertAfter hd, if_neg (Nat.ne_of_lt hlt), h]
  | assigned d v =>
      rw [Store.entryAt_assign, h]
      split
      · obtain ⟨entry, next⟩ := node
        cases entry with
        | binding => cases hmarker
        | _ => rfl
      · rfl
  | opened hhome made => exact Store.entryAt_of_node (Store.getElem?_openFrame hnode _ made)

theorem isMarker (hdone : deed.Done s t) (h : s.IsMarker a) : t.IsMarker a := by
  obtain ⟨entry, hentry, hmarker⟩ := h
  exact ⟨entry, hdone.entryAt_marker hentry hmarker, hmarker⟩

/-- The only marker that a deed makes is that of a frame that it opens. -/
theorem of_entryAt_marker (hdone : deed.Done s t) (h : t.entryAt a = some entry)
    (hmarker : entry.isMarker = true) :
    s.entryAt a = some entry ∨
      entry = .marker ∧ ∃ home parameters, deed = .opened a home parameters := by
  cases hdone with
  | defined hframe name v =>
      obtain ⟨_, hd, _⟩ := hframe.node
      rw [Store.define, Store.entryAt_insertAfter hd] at h
      split at h
      · cases h
        cases hmarker
      · exact .inl h
  | assigned d v =>
      rw [Store.entryAt_assign] at h
      split at h
      · obtain ⟨old, hold, rfl⟩ := Option.map_eq_some_iff.mp h
        cases old with
        | binding => cases hmarker
        | _ => exact .inl hold
      · exact .inl h
  | @opened home hhome made =>
      rw [Store.openFrame, Store.entryAt_pushNode, Store.size_extend] at h
      split at h
      next heq =>
        cases h
        subst heq
        exact .inr ⟨rfl, _, _, rfl⟩
      next => exact .inl (Store.entryAt_of_extend h hmarker)

/-- The symbol and the successor of a binding stay as they are. -/
theorem binding (hdone : deed.Done s t) {name : String} {v : Value} {next : Option Addr}
    (h : s.nodes[a]? = some ⟨.binding name v, next⟩) :
    ∃ v', t.nodes[a]? = some ⟨.binding name v', next⟩ := by
  have hlt : a < s.nodes.size := (Array.getElem?_eq_some_iff.mp h).1
  cases hdone with
  | @defined frame hframe bound value =>
      obtain ⟨node, hd, hmarker⟩ := hframe.node
      -- the node before the new one is a marker, so it is not this one
      have hne : a ≠ frame := by
        rintro rfl
        cases h.symm.trans hd
        cases hmarker
      rw [Store.define, Store.nodes_insertAfter hd, if_neg hne, if_neg (Nat.ne_of_lt hlt)]
      exact ⟨v, h⟩
  | assigned d value =>
      rw [Store.nodes_assign, h]
      split
      · exact ⟨value, rfl⟩
      · exact ⟨v, rfl⟩
  | opened hhome made => exact ⟨v, Store.getElem?_openFrame h _ made⟩

/-- A lookup that a deed changes is one that it concerns. -/
theorem concerns (hdone : deed.Done s t) (h : s.Ends a) {name : String}
    (hne : t.find? name a ≠ s.find? name a) : deed.Concerns s a name := by
  rw [Store.find?_eq_findSome?_chain, Store.find?_eq_findSome?_chain] at hne
  cases hdone with
  | @defined frame hframe bound v =>
      obtain ⟨_, hd, _⟩ := hframe.node
      rw [Store.define, h.insertAfter hd] at hne
      constructor
      · by_contra hother
        refine hne (Store.findSome?_splice ?_ frame (s.chain a))
        simp [Store.bindingOf, hother]
      · by_contra habsent
        refine hne (congrArg _ (Store.splice_of_not_mem ?_))
        intro link hlink heq
        exact habsent (heq ▸ List.mem_map_of_mem hlink)
  | assigned node v =>
      rw [h.assign] at hne
      by_contra habsent
      refine hne (Store.findSome?_reassign ?_ v)
      intro old hmem
      exact habsent ⟨old, hmem⟩
  | opened hhome made =>
      rw [h.openFrame] at hne
      exact hne rfl

end Deed.Done

/-! ## What a log tells -/

/-- What has been done, the latest first. -/
abbrev Log := List Deed

namespace Log

/-- The binding that a deed adds to a frame, if it is a definition in it. -/
def definedBy? (frame : Addr) : Deed → Option (Addr × String)
  | .defined other node name => if other = frame then some (node, name) else none
  | .assigned _ | .opened .. => none

/-- The bindings defined in a frame, the latest first. -/
def definedIn (log : Log) (frame : Addr) : List (Addr × String) :=
  log.filterMap (definedBy? frame)

/-- The bindings that the global environment starts with. -/
def builtins : List (Addr × String) :=
  Store.numbered (Store.global + 1) (Store.startBindings.map Prod.fst)

/-- Bindings as a part of a chain. -/
def bindings (nodes : List (Addr × String)) : List (Addr × Option String) :=
  nodes.map (Prod.map id some)

/-- The chain of a frame, as the log tells it. -/
inductive Tells (log : Log) : Addr → List (Addr × Option String) → Prop
  | global : Tells log Store.global
      ((Store.global, none) :: bindings (log.definedIn Store.global ++ builtins))
  | call {frame home : Addr} {parameters : List (Addr × String)}
      {links : List (Addr × Option String)} (hopened : .opened frame home parameters ∈ log)
      (h : Tells log home links) :
      Tells log frame
        ((frame, none) :: (bindings (log.definedIn frame ++ parameters) ++ links))

/-! ## Segments -/

variable {log : Log} {deed : Deed} {s t : Store} {a frame home : Addr}
  {nodes parameters : List (Addr × String)} {rest links : List (Addr × Option String)}

/-- The chain of a frame begins with its marker, what was defined in it, and the bindings
that it had from the start. -/
def Segment (log : Log) (s : Store) (frame : Addr) (nodes : List (Addr × String))
    (rest : List (Addr × Option String)) : Prop :=
  s.links frame = (frame, none) :: (bindings (log.definedIn frame ++ nodes) ++ rest)

/-- A deed changes what comes after a segment, and in the segment what the log tells. -/
theorem Segment.did (h : log.Segment s frame nodes rest) (hdone : deed.Done s t)
    (hends : s.Ends frame) : Segment (deed :: log) t frame nodes (deed.spread rest) := by
  rw [Segment, hdone.links_eq hends, h, ← List.singleton_append, deed.spread_append,
    deed.spread_append]
  cases hdone with
  | @defined d hmarker name v =>
      -- the bindings of the segment are no markers
      have hbound : Store.splice d (s.nodes.size, some name)
          (bindings (log.definedIn frame ++ nodes)) = bindings (log.definedIn frame ++ nodes) := by
        apply Store.splice_of_not_mem
        intro link hlink heq
        obtain ⟨⟨b, bound⟩, _, rfl⟩ := List.mem_map.mp hlink
        subst heq
        refine hmarker.not_bound frame bound ?_
        rw [h]
        exact List.mem_cons_of_mem _ (List.mem_append_left _ hlink)
      simp only [Deed.spread, hbound]
      by_cases heq : frame = d
      · simp [Store.splice, heq, definedIn, definedBy?, bindings]
      · simp [Store.splice, heq, Ne.symm heq, definedIn, definedBy?]
  | assigned node v => rfl
  | opened hhome made => rfl

/-! ## Stores that keep to a log -/

/-- The frames of the store are those of the log, and their chains are as it tells. -/
structure Keeps (log : Log) (s : Store) : Prop where
  ends : ∀ a, s.IsMarker a → s.Ends a
  global : s.entryAt Store.global = some .globalMarker
  single : ∀ a, s.entryAt a = some .globalMarker → a = Store.global
  start : log.Segment s Store.global builtins []
  marker : ∀ a, s.entryAt a = some .marker →
    ∃ home parameters, .opened a home parameters ∈ log
  opened : ∀ frame home parameters, .opened frame home parameters ∈ log →
    home < frame ∧ s.IsMarker home ∧ s.entryAt frame = some .marker ∧
      log.Segment s frame parameters (s.links home)
  defined : ∀ frame node name, .defined frame node name ∈ log → frame < s.nodes.size

theorem keeps_initial : Keeps [] Store.initial := by
  have hlinked := Store.linked_ofBindings Store.startBindings
  have hglobal {a : Addr} {entry : Entry} (h : Store.initial.entryAt a = some entry)
      (hmarker : entry.isMarker = true) : a = Store.global ∧ entry = .globalMarker :=
    Store.global_of_ofBindings h hmarker
  constructor
  case ends =>
    intro a hmarker
    obtain ⟨entry, hentry, hmarker⟩ := hmarker
    obtain ⟨rfl, _⟩ := hglobal hentry hmarker
    exact hlinked.ends
  case global => rfl
  case single =>
    intro a hentry
    exact (hglobal hentry rfl).1
  case start =>
    rw [Segment, Store.links, Store.initial, hlinked.chain_eq, List.map_cons, Store.map_numbered,
      List.map_map, Entry.name?_ofBinding, List.append_nil, bindings, builtins, definedIn,
      List.filterMap_nil, List.nil_append, Store.map_numbered, List.map_map]
    rfl
  case marker =>
    intro a hentry
    cases (hglobal hentry rfl).2
  case opened => exact fun _ _ _ hmem => absurd hmem List.not_mem_nil
  case defined => exact fun _ _ _ hmem => absurd hmem List.not_mem_nil

theorem definedIn_eq_nil (h : log.Keeps s) (hle : s.nodes.size ≤ frame) :
    log.definedIn frame = [] := by
  rw [definedIn, List.filterMap_eq_nil_iff]
  intro deed hmem
  cases deed with
  | defined other node name =>
      have hlt := h.defined other node name hmem
      rw [definedBy?, if_neg (Nat.ne_of_lt (Nat.lt_of_lt_of_le hlt hle))]
  | _ => rfl

/-- A store keeps to its log as long as nothing touches its nodes. -/
theorem Keeps.of_nodes (h : log.Keeps s) (hnodes : t.nodes = s.nodes) : log.Keeps t := by
  have hentry (a : Addr) : t.entryAt a = s.entryAt a := by
    rw [Store.entryAt, hnodes]
    rfl
  have hmarker (a : Addr) : t.IsMarker a ↔ s.IsMarker a := by
    rw [Store.IsMarker, Store.IsMarker, hentry]
  have hlinks (a : Addr) : t.links a = s.links a := by
    rw [Store.links, Store.links, Store.chain_of_nodes hnodes]
  constructor
  case ends =>
    intro a ha
    refine (Store.Linked.mono (h.ends a ((hmarker a).mp ha)) ?_).ends
    intro b node hb
    rwa [hnodes]
  case global => simpa only [hentry] using h.global
  case single => simpa only [hentry] using h.single
  case start => simpa only [Segment, hlinks] using h.start
  case marker => simpa only [hentry] using h.marker
  case opened => simpa only [Segment, hentry, hmarker, hlinks] using h.opened
  case defined => simpa only [hnodes] using h.defined

/-- A new frame has its parameters and the chain of the frame that it is opened in. -/
theorem Keeps.opens (h : log.Keeps s) (hhome : s.IsMarker home) (made : List (String × Value)) :
    Segment (.opened (s.nodes.size + made.length) home
        (Store.addressed s.nodes.size (made.map Prod.fst)) :: log) (s.openFrame home made).2
      (s.nodes.size + made.length) (Store.addressed s.nodes.size (made.map Prod.fst))
      ((s.openFrame home made).2.links home) := by
  have hdone := Deed.Done.opened hhome made
  have hends := h.ends home hhome
  -- nothing has been defined in the new frame
  have hfresh := definedIn_eq_nil h (Nat.le_add_right s.nodes.size made.length)
  have hnone : definedIn (.opened (s.nodes.size + made.length) home
      (Store.addressed s.nodes.size (made.map Prod.fst)) :: log)
      (s.nodes.size + made.length) = [] := hfresh
  rw [Segment, hdone.links_eq hends, Store.links, (Store.Linked.openFrame hends made).chain_eq,
    List.map_cons, List.map_append, Store.map_addressed, List.map_map, Entry.name?_ofBinding,
    hnone, bindings, List.nil_append, Store.map_addressed, List.map_map]
  rfl

/-- A deed that is done is logged. -/
theorem Keeps.did (h : log.Keeps s) (hdone : deed.Done s t) : Keeps (deed :: log) t := by
  constructor
  case ends =>
    rintro a ⟨entry, hentry, hmarker⟩
    rcases hdone.of_entryAt_marker hentry hmarker with hold | ⟨_, home, parameters, rfl⟩
    · exact hdone.ends (h.ends a ⟨entry, hold, hmarker⟩)
    · cases hdone with
      | opened hhome made => exact (Store.Linked.openFrame (h.ends home hhome) made).ends
  case global => exact hdone.entryAt_marker h.global rfl
  case single =>
    intro a hentry
    rcases hdone.of_entryAt_marker hentry rfl with hold | ⟨hcall, _⟩
    · exact h.single a hold
    · cases hcall
  case start =>
    have hstart := h.start.did hdone (h.ends Store.global ⟨_, h.global, rfl⟩)
    have hnil : deed.spread [] = [] := by
      cases deed with
      | _ => rfl
    rwa [hnil] at hstart
  case marker =>
    intro a hentry
    rcases hdone.of_entryAt_marker hentry rfl with hold | ⟨_, home, parameters, rfl⟩
    · obtain ⟨home, parameters, hmem⟩ := h.marker a hold
      exact ⟨home, parameters, List.mem_cons_of_mem _ hmem⟩
    · exact ⟨home, parameters, List.mem_cons_self⟩
  case opened =>
    intro frame home parameters hmem
    rcases List.mem_cons.mp hmem with rfl | hold
    · have hmarker := hdone
      cases hdone with
      | opened hhome made =>
          exact ⟨Nat.lt_add_right _ hhome.lt_size, hmarker.isMarker hhome,
            Store.entryAt_openFrame_self home made s, h.opens hhome made⟩
    · obtain ⟨hlt, hhome, hframe, hsegment⟩ := h.opened frame home parameters hold
      have hnext := hsegment.did hdone (h.ends frame ⟨_, hframe, rfl⟩)
      rw [← hdone.links_eq (h.ends home hhome)] at hnext
      exact ⟨hlt, hdone.isMarker hhome, hdone.entryAt_marker hframe rfl, hnext⟩
  case defined =>
    intro frame node name hmem
    rcases List.mem_cons.mp hmem with rfl | hold
    · have hle := hdone.size_le
      cases hdone with
      | defined hframe name v => exact Nat.lt_of_lt_of_le hframe.lt_size hle
    · exact Nat.lt_of_lt_of_le (h.defined frame node name hold) hdone.size_le

/-! ## The chains of a store are those that its log tells -/

theorem Keeps.tells (h : log.Keeps s) (hmarker : s.IsMarker a) : log.Tells a (s.links a) := by
  induction a using Nat.strongRecOn with
  | ind a ih =>
      rcases (s.isMarker_iff a).mp hmarker with hglobal | hcall
      · obtain rfl := h.single a hglobal
        have hstart := h.start
        rw [Segment, List.append_nil] at hstart
        rw [hstart]
        exact .global
      · obtain ⟨home, parameters, hopened⟩ := h.marker a hcall
        obtain ⟨hlt, hhome, _, hsegment⟩ := h.opened a home parameters hopened
        rw [hsegment]
        exact .call hopened (ih home hlt hhome)

/-- The log tells the chains of the store, and no others. -/
theorem Keeps.tells_iff (h : log.Keeps s) (a : Addr) (links : List (Addr × Option String)) :
    log.Tells a links ↔ s.IsMarker a ∧ s.links a = links := by
  constructor
  · intro htells
    induction htells with
    | global =>
        have hstart := h.start
        rw [Segment, List.append_nil] at hstart
        exact ⟨⟨_, h.global, rfl⟩, hstart⟩
    | call hopened _ ih =>
        obtain ⟨_, _, hframe, hsegment⟩ := h.opened _ _ _ hopened
        rw [Segment, ih.2] at hsegment
        exact ⟨⟨_, hframe, rfl⟩, hsegment⟩
  · rintro ⟨hmarker, rfl⟩
    exact h.tells hmarker

end Log

end SchemeMachine
