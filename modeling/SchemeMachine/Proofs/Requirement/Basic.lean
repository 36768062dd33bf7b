import SchemeMachine.Machine.Run

/-!
# What is required of every procedure in sight

Closures and continuations get everywhere: into lists, into environments, into the
frames of the stack, and into the frames of other continuations.  A `Requirement`
says what is asked of each of them, and `Meets` that it holds of every one that is
held, at any depth, by a value, a store or a configuration.

This module follows a requirement through the store and the primitives, none of
which make a procedure: what is met by the values they are given is met by those
they hand out.
-/

namespace SchemeMachine

/-- What is asked of closures, by their parameters, body and environment, and of
continuations, by their stamp and frames. -/
structure Requirement where
  closure : Value → Value → Addr → Prop
  continuation : Nat → List Frame → Prop

/-- What meets the one requirement meets the other. -/
instance : LE Requirement where
  le r q := (∀ parameters body env, r.closure parameters body env → q.closure parameters body env) ∧
    ∀ stamp frames, r.continuation stamp frames → q.continuation stamp frames

mutual

/-- Every procedure that a value holds meets the requirement. -/
def Value.Meets (r : Requirement) : Value → Prop
  | .pair _ head tail => head.Meets r ∧ tail.Meets r
  | .closure _ parameters body env =>
    r.closure parameters body env ∧ parameters.Meets r ∧ body.Meets r
  | .continuation stamp frames => r.continuation stamp frames ∧ Frame.AllMeet r frames
  | _ => True

/-- Every procedure that some frames hold meets the requirement. -/
def Frame.AllMeet (r : Requirement) : List (FrameKind × Value) → Prop
  | [] => True
  | (_, payload) :: frames => payload.Meets r ∧ Frame.AllMeet r frames

end

variable {r q : Requirement}

mutual

theorem Value.Meets.mono (hle : r ≤ q) : ∀ {v : Value}, v.Meets r → v.Meets q
  | .pair _ _ _, h => ⟨h.1.mono hle, h.2.mono hle⟩
  | .closure _ _ _ _, h => ⟨hle.1 _ _ _ h.1, h.2.1.mono hle, h.2.2.mono hle⟩
  | .continuation _ _, h => ⟨hle.2 _ _ h.1, Frame.AllMeet.mono hle h.2⟩
  | .nil, _ | .bool _, _ | .number _, _ | .string _, _ | .symbol _, _ | .primitive _, _
  | .environment _, _ | .void, _ | .eof, _ | .callWithContinuation, _ | .applyToList, _ => trivial

theorem Frame.AllMeet.mono (hle : r ≤ q) :
    ∀ {frames : List (FrameKind × Value)}, Frame.AllMeet r frames → Frame.AllMeet q frames
  | [], _ => trivial
  | (_, _) :: _, h => ⟨h.1.mono hle, Frame.AllMeet.mono hle h.2⟩

end

theorem Frame.AllMeet.append {frames others : List Frame} (h : Frame.AllMeet r frames)
    (hothers : Frame.AllMeet r others) : Frame.AllMeet r (frames ++ others) := by
  induction frames with
  | nil => exact hothers
  | cons frame frames ih => exact ⟨h.1, ih h.2⟩

theorem Value.Meets.elements {v : Value} {items : List Value} (h : v.Meets r)
    (hitems : v.elements = .ok items) : ∀ item ∈ items, item.Meets r := by
  cases v with
  | nil =>
      cases hitems
      exact fun item hmem => absurd hmem List.not_mem_nil
  | pair stamp head tail =>
      rw [Value.elements] at hitems
      cases htail : tail.elements with
      | error other => simp [htail, Except.map] at hitems
      | ok rest =>
          simp only [htail, Except.map, Except.ok.injEq] at hitems
          subst hitems
          exact List.forall_mem_cons.mpr ⟨h.1, Value.Meets.elements h.2 htail⟩
  | _ => cases hitems

/-! ## Environments -/

/-- Every procedure that a node holds meets the requirement. -/
def Entry.Meets (r : Requirement) : Entry → Prop
  | .binding _ value => value.Meets r
  | .keyed _ key value => key.Meets r ∧ value.Meets r
  | .globalMarker | .marker => True

namespace Store

variable {s : Store}

/-- Every procedure that a store holds meets the requirement. -/
def Meets (r : Requirement) (s : Store) : Prop :=
  ∀ (a : Addr) (node : Node), s.nodes[a]? = some node → node.entry.Meets r

theorem Meets.mono (hle : r ≤ q) (h : s.Meets r) : s.Meets q := by
  intro a node hnode
  have hentry := h a node hnode
  cases hkind : node.entry with
  | binding name value =>
      rw [hkind] at hentry
      exact Value.Meets.mono hle hentry
  | keyed label key value =>
      rw [hkind] at hentry
      exact ⟨hentry.1.mono hle, hentry.2.mono hle⟩
  | globalMarker => trivial
  | marker => trivial

theorem Meets.pushNode (h : s.Meets r) (entry : Entry) (next : Option Addr)
    (hentry : entry.Meets r) : (s.pushNode entry next).2.Meets r := by
  intro a node hnode
  simp only [Store.pushNode, Array.getElem?_push] at hnode
  split at hnode
  · cases hnode
    exact hentry
  · exact h a node hnode

theorem Meets.setNode (h : s.Meets r) (a : Addr) (node : Node) (hnode : node.entry.Meets r) :
    Meets r { s with nodes := s.nodes.setIfInBounds a node } := by
  intro b other hother
  simp only [Array.getElem?_setIfInBounds] at hother
  split at hother
  · split at hother
    · cases hother
      exact hnode
    · cases hother
  · exact h b other hother

theorem Meets.insertAfter (h : s.Meets r) (a : Addr) (entry : Entry) (hentry : entry.Meets r) :
    (s.insertAfter a entry).Meets r := by
  unfold Store.insertAfter
  cases hnode : s.nodes[a]? with
  | none => exact h
  | some node =>
      exact (h.pushNode entry node.next hentry).setNode a ⟨node.entry, _⟩ (h a node hnode)

theorem Meets.assign {value : Value} (h : s.Meets r) (hvalue : value.Meets r) (a : Addr) :
    (s.assign a value).Meets r := by
  unfold Store.assign
  split
  · exact h.setNode a ⟨.binding _ value, _⟩ hvalue
  · exact h

theorem Meets.extend (a : Addr) {bindings : List (String × Value)} (h : s.Meets r)
    (hbindings : ∀ binding ∈ bindings, binding.2.Meets r) : (s.extend a bindings).2.Meets r := by
  induction bindings with
  | nil => exact h
  | cons binding rest ih =>
      obtain ⟨hfirst, hrest⟩ := List.forall_mem_cons.mp hbindings
      exact Meets.pushNode (ih hrest) (.binding _ binding.2) _ hfirst

theorem Meets.openFrame (a : Addr) {bindings : List (String × Value)} (h : s.Meets r)
    (hbindings : ∀ binding ∈ bindings, binding.2.Meets r) :
    (s.openFrame a bindings).2.Meets r :=
  Meets.pushNode (h.extend a hbindings) .marker _ trivial

theorem Meets.chainFrom (h : s.Meets r) (steps : Nat) (a : Option Addr) :
    ∀ link ∈ s.chainFrom steps a, link.2.Meets r := by
  induction steps generalizing a with
  | zero => exact fun link hmem => absurd hmem List.not_mem_nil
  | succ steps ih =>
      cases a with
      | none => exact fun link hmem => absurd hmem List.not_mem_nil
      | some a =>
          rw [Store.chainFrom]
          cases hnode : s.nodes[a]? with
          | none => exact fun link hmem => absurd hmem List.not_mem_nil
          | some node => exact List.forall_mem_cons.mpr ⟨h a node hnode, ih node.next⟩

theorem Meets.find? {name : String} {a node : Addr} {value : Value} (h : s.Meets r)
    (hfind : s.find? name a = some (node, value)) : value.Meets r := by
  rw [find?_eq_findSome?_chain] at hfind
  obtain ⟨⟨found, entry⟩, hmem, hbinding⟩ := List.exists_of_findSome?_eq_some hfind
  have hentry := h.chainFrom s.nodes.size (some a) _ hmem
  cases entry with
  | binding bound other =>
      simp only [bindingOf, Option.ite_none_right_eq_some, Option.some.injEq, Prod.mk.injEq]
        at hbinding
      obtain ⟨_, _, rfl⟩ := hbinding
      exact hentry
  | _ => cases hbinding

theorem Meets.bound (h : s.Meets r) (a : Addr) : ∀ v ∈ s.bound a, v.Meets r := by
  intro v hmem
  simp only [Store.bound, List.mem_reverse, List.mem_filterMap] at hmem
  obtain ⟨⟨found, entry⟩, hchain, hbound⟩ := hmem
  have hentry := h.chainFrom s.nodes.size (some a) _ hchain
  cases entry with
  | binding name value =>
      cases hbound
      trivial
  | keyed label key value =>
      cases hbound
      exact hentry.1
  | globalMarker => cases hbound
  | marker => cases hbound

theorem bindingsFrom_meet {bindings : List (String × Value)}
    (hbindings : ∀ binding ∈ bindings, binding.2.Meets r) (start : Addr) :
    ∀ node ∈ bindingsFrom start bindings, node.entry.Meets r := by
  fun_induction bindingsFrom start bindings with
  | case1 => exact fun node hmem => absurd hmem List.not_mem_nil
  | case2 start name value =>
      simp only [List.forall_mem_cons] at hbindings ⊢
      exact ⟨hbindings.1, fun node hmem => absurd hmem List.not_mem_nil⟩
  | case3 start name value rest _ ih =>
      obtain ⟨hfirst, hrest⟩ := List.forall_mem_cons.mp hbindings
      exact List.forall_mem_cons.mpr ⟨hfirst, ih hrest⟩

/-- The store that every program starts with holds no closure and no continuation. -/
theorem initial_meets (r : Requirement) : Store.initial.Meets r := by
  have hbindings : ∀ binding ∈ startBindings, binding.2.Meets r := by
    simp only [startBindings, List.forall_mem_cons, List.forall_mem_map]
    exact ⟨trivial, trivial, fun p _ => trivial⟩
  intro a node hnode
  simp only [initial, ofBindings, List.getElem?_toArray] at hnode
  rcases List.mem_cons.mp (List.mem_of_getElem? hnode) with rfl | hmem
  · trivial
  · exact bindingsFrom_meet hbindings _ node hmem

/-! ## New objects -/

theorem nodes_newList (items : List Value) (s : Store) : (s.newList items).2.nodes = s.nodes := by
  induction items with
  | nil => rfl
  | cons item rest ih => exact ih

theorem nodes_place (d : Datum) (s : Store) : (s.place d).2.nodes = s.nodes := by
  induction d generalizing s with
  | pair head tail ihHead ihTail => exact (ihTail _).trans (ihHead s)
  | _ => rfl

theorem Meets.of_nodes {t : Store} (h : s.Meets r) (hnodes : t.nodes = s.nodes) : t.Meets r := by
  rwa [Meets, hnodes]

theorem newList_meets {items : List Value} (hitems : ∀ item ∈ items, item.Meets r) (s : Store) :
    (s.newList items).1.Meets r := by
  induction items with
  | nil => trivial
  | cons item rest ih =>
      obtain ⟨hfirst, hrest⟩ := List.forall_mem_cons.mp hitems
      exact ⟨hfirst, ih hrest⟩

/-- What is read holds no procedure. -/
theorem place_meets (d : Datum) (s : Store) : (s.place d).1.Meets r := by
  induction d generalizing s with
  | pair head tail ihHead ihTail => exact ⟨ihHead s, ihTail _⟩
  | _ => trivial

end Store

/-- The values bound by a call are among its arguments. -/
theorem Parameters.bindings_meet [Saving] (s : Store) {parameters arguments : Value}
    {made : List (String × Value)} (harguments : arguments.Meets r)
    (hmade : Parameters.bindings s parameters arguments = .ok made) :
    ∀ binding ∈ made, binding.2.Meets r := by
  fun_induction Parameters.bindings s parameters arguments generalizing made with
  | case1 _ name parameters _ argument arguments ih =>
      cases hrest : Parameters.bindings s parameters arguments with
      | error fault => simp [hrest, Except.map] at hmade
      | ok rest =>
          simp only [hrest, Except.map, Except.ok.injEq] at hmade
          subst hmade
          exact List.forall_mem_cons.mpr ⟨harguments.1, ih harguments.2 hrest⟩
  | case2 _ _ parameters _ _ arguments _ ih => exact ih harguments.2 hmade
  | case3 => cases hmade
  | case4 name arguments =>
      cases hmade
      simpa using harguments
  | case5 =>
      cases hmade
      exact fun binding hmem => absurd hmem List.not_mem_nil
  | case6 => cases hmade

/-! ## Primitives and the host -/

/-- Every procedure that a suspension holds meets the requirement. -/
def Suspension.Meets (r : Requirement) : Suspension → Prop
  | .awaiting _ => True
  | .yielding value => value.Meets r

/-- Every procedure that a reply holds meets the requirement. -/
def Reply.Meets (r : Requirement) : Reply → Prop
  | .value v => v.Meets r
  | .suspend s => s.Meets r

/-- What a primitive gives and the store it leaves meet the requirement. -/
def Reply.ResultMeets (r : Requirement) : Except Fault Reply × Shared → Prop
  | (.error _, sh) => sh.store.Meets r
  | (.ok reply, sh) => reply.Meets r ∧ sh.store.Meets r

namespace Shared

variable {sh : Shared}

theorem takeAnswer_meets (h : sh.store.Meets r)
    (answer : Except Fault InputBuffer.Answer × InputBuffer) :
    Reply.ResultMeets r (sh.takeAnswer answer) := by
  obtain ⟨fault | d | _ | request, buffer⟩ := answer
  · exact h
  · exact ⟨Store.place_meets d _, h.of_nodes (Store.nodes_place d _)⟩
  · exact ⟨trivial, h⟩
  · exact ⟨trivial, h⟩

theorem resume_meets {suspension : Suspension} (hsuspension : suspension.Meets r)
    (h : sh.store.Meets r) (answer : Option String) :
    Reply.ResultMeets r (sh.resume suspension answer) := by
  cases suspension with
  | awaiting request => exact takeAnswer_meets h _
  | yielding value => exact ⟨hsuspension, h⟩

end Shared

namespace Primitive

variable {sh : Shared}

theorem answer_meets (h : sh.store.Meets r) {result : Except Fault Value}
    (hresult : ∀ v, result = .ok v → v.Meets r) : Reply.ResultMeets r (answer sh result) := by
  cases result with
  | error fault => exact h
  | ok v => exact ⟨hresult v rfl, h⟩

theorem answerNew_list_meets (h : sh.store.Meets r) {items : List Value}
    (hitems : ∀ item ∈ items, item.Meets r) :
    Reply.ResultMeets r (answerNew sh (Store.newList items)) :=
  ⟨Store.newList_meets hitems sh.store, h.of_nodes (Store.nodes_newList items sh.store)⟩

theorem part_meets [Saving] (p : Primitive) (s : Store) {select : Value → Value → Value}
    {x v : Value}
    (hselect : ∀ head tail, head.Meets r → tail.Meets r → (select head tail).Meets r)
    (hx : x.Meets r) (hpart : part p s select x = .ok v) : v.Meets r := by
  cases x with
  | pair stamp head tail =>
      cases hpart
      exact hselect head tail hx.1 hx.2
  | _ => cases hpart

theorem arithmetic_meets [Saving] (s : Store) (op : Number.Operation) {x y v : Value}
    (h : x.arithmetic s op y = .ok v) : v.Meets r := by
  unfold Value.arithmetic at h
  split at h
  · cases h
  · split at h
    · cases h
      trivial
    · cases h

theorem map_bool_meets {α : Type} {result : Except Fault α} {test : α → Bool} {v : Value}
    (h : result.map (fun a => Value.bool (test a)) = .ok v) : v.Meets r := by
  cases result with
  | error fault => cases h
  | ok a =>
      cases h
      trivial

theorem perform_meets [Saving] (p : Primitive) (arguments : Value) {args : List Value}
    (hargs : ∀ v ∈ args, v.Meets r) (h : sh.store.Meets r) :
    Reply.ResultMeets r (p.perform arguments args sh) := by
  unfold perform
  split
  -- the parts of a pair
  case h_1 x =>
      have hx : x.Meets r := hargs x List.mem_cons_self
      exact answer_meets h fun v hv => part_meets _ _ (fun _ _ hhead _ => hhead) hx hv
  case h_2 x =>
      have hx : x.Meets r := hargs x List.mem_cons_self
      exact answer_meets h fun v hv => part_meets _ _ (fun _ _ _ htail => htail) hx hv
  -- new pairs and lists
  case h_3 x y =>
      have hpair : x.Meets r ∧ y.Meets r := by simpa using hargs
      exact ⟨hpair, h⟩
  case h_9 items => exact answerNew_list_meets h hargs
  case h_22 => exact answerNew_list_meets h (h.bound _)
  -- reading
  case h_12 => exact Shared.takeAnswer_meets h _
  -- numbers
  case h_15 | h_16 | h_17 => exact answer_meets h fun v hv => arithmetic_meets _ _ hv
  case h_18 | h_19 => exact answer_meets h fun v hv => map_bool_meets hv
  -- the others answer with a value that has no parts, or with a fault
  all_goals first | exact ⟨trivial, h⟩ | exact h

end Primitive

end SchemeMachine
