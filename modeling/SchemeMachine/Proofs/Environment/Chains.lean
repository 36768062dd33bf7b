import Mathlib.Data.List.Perm.Subperm
import SchemeMachine.Proofs.Changes

/-!
# The chains of a store

`Store.chain` follows the nodes for as many steps as there are nodes.  `Linked` follows
them to the end, without counting.  A chain that ends meets no node twice, so the two
agree on it: `Linked.chain_eq`.

The three things that are done to environments are then seen on the chains.  A node that
is inserted is spliced into every chain that passes the node before it.  Assigning to a
binding changes its value in every chain that it is on.  Opening a frame leaves every
chain as it was, and adds that of the new frame.
-/

namespace SchemeMachine

/-- Whether a node is at the head of a frame. -/
def Entry.isMarker : Entry → Bool
  | .globalMarker | .marker => true
  | .binding .. | .keyed .. => false

/-- The symbol that a node binds. -/
def Entry.name? : Entry → Option String
  | .binding name _ => some name
  | .globalMarker | .marker | .keyed .. => none

/-- The entry that binds a symbol to a value. -/
def Entry.ofBinding (binding : String × Value) : Entry :=
  .binding binding.1 binding.2

theorem Entry.name?_ofBinding : Entry.name? ∘ Entry.ofBinding = some ∘ Prod.fst :=
  rfl

/-- The entry once its value has been changed. -/
def Entry.reassign (value : Value) : Entry → Entry
  | .binding name _ => .binding name value
  | other => other

namespace Store

variable {s t : Store} {a d home : Addr} {start : Option Addr} {way : List (Addr × Entry)}

/-! ## Chains that end -/

/-- These are the nodes from `start` to the end of its chain. -/
inductive Linked (s : Store) : Option Addr → List (Addr × Entry) → Prop
  | nil : Linked s none []
  | cons {a : Addr} {entry : Entry} {next : Option Addr} {way : List (Addr × Entry)}
      (hnode : s.nodes[a]? = some ⟨entry, next⟩) (h : Linked s next way) :
      Linked s (some a) ((a, entry) :: way)

namespace Linked

theorem unique (h : s.Linked start way) {others : List (Addr × Entry)}
    (hothers : s.Linked start others) : way = others := by
  induction h generalizing others with
  | nil =>
      cases hothers
      rfl
  | cons hnode _ ih =>
      cases hothers with
      | cons hother h =>
          cases hnode.symm.trans hother
          rw [ih h]

theorem of_mem (h : s.Linked start way) {entry : Entry} (hmem : (a, entry) ∈ way) :
    ∃ before after, way = before ++ (a, entry) :: after ∧
      s.Linked (some a) ((a, entry) :: after) := by
  induction h with
  | nil => cases hmem
  | @cons b other next way hnode h ih =>
      rcases List.mem_cons.mp hmem with heq | hrest
      · cases heq
        exact ⟨[], way, rfl, .cons hnode h⟩
      · obtain ⟨before, after, rfl, hlinked⟩ := ih hrest
        exact ⟨(b, other) :: before, after, rfl, hlinked⟩

/-- A chain that ends does not come back to a node. -/
theorem nodup (h : s.Linked start way) : (way.map Prod.fst).Nodup := by
  induction h with
  | nil => exact List.nodup_nil
  | @cons a entry next way hnode h ih =>
      refine List.nodup_cons.mpr ⟨?_, ih⟩
      intro hmem
      obtain ⟨⟨_, other⟩, hlink, rfl⟩ := List.mem_map.mp hmem
      obtain ⟨before, after, hway, hagain⟩ := h.of_mem hlink
      -- the way to the end from `a` would be as long as a part of itself
      have heq := (Linked.cons hnode h).unique hagain
      have hlength := congrArg List.length heq
      rw [hway] at hlength
      simp at hlength
      omega

theorem lt_size (h : s.Linked start way) : ∀ link ∈ way, link.1 < s.nodes.size := by
  induction h with
  | nil => exact fun _ hmem => absurd hmem List.not_mem_nil
  | cons hnode _ ih =>
      refine List.forall_mem_cons.mpr ⟨?_, ih⟩
      exact (Array.getElem?_eq_some_iff.mp hnode).1

theorem length_le (h : s.Linked start way) : way.length ≤ s.nodes.size := by
  have hsubset : way.map Prod.fst ⊆ List.range s.nodes.size := by
    intro a hmem
    obtain ⟨link, hlink, rfl⟩ := List.mem_map.mp hmem
    exact List.mem_range.mpr (h.lt_size link hlink)
  have hlength := (h.nodup.subperm hsubset).length_le
  rwa [List.length_map, List.length_range] at hlength

theorem chainFrom_eq (h : s.Linked start way) {steps : Nat} (hle : way.length ≤ steps) :
    s.chainFrom steps start = way := by
  induction h generalizing steps with
  | nil =>
      cases steps with
      | zero => rfl
      | succ steps => rfl
  | cons hnode _ ih =>
      cases steps with
      | zero => cases hle
      | succ steps =>
          simp only [chainFrom, hnode]
          rw [ih (Nat.le_of_succ_le_succ hle)]

/-- Counting steps does not cut a chain off. -/
theorem chain_eq (h : s.Linked (some a) way) : s.chain a = way :=
  h.chainFrom_eq h.length_le

/-- A store with more nodes has the chains of the other. -/
theorem mono (h : s.Linked start way)
    (hmore : ∀ (b : Addr) (node : Node), s.nodes[b]? = some node → t.nodes[b]? = some node) :
    t.Linked start way := by
  induction h with
  | nil => exact .nil
  | cons hnode _ ih => exact .cons (hmore _ _ hnode) ih

end Linked

/-- The chain from the node comes to an end. -/
def Ends (s : Store) (a : Addr) : Prop :=
  s.Linked (some a) (s.chain a)

theorem Linked.ends (h : s.Linked (some a) way) : s.Ends a := by
  rw [Ends, h.chain_eq]
  exact h

theorem mem_chainFrom {steps : Nat} {b : Addr} {entry : Entry}
    (h : (b, entry) ∈ s.chainFrom steps start) : ∃ next, s.nodes[b]? = some ⟨entry, next⟩ := by
  fun_induction chainFrom s steps start with
  | case1 => cases h
  | case2 => cases h
  | case3 => cases h
  | case4 steps a node hnode ih =>
      rcases List.mem_cons.mp h with heq | hrest
      · cases heq
        exact ⟨node.next, hnode⟩
      · exact ih hrest

theorem chainFrom_of_nodes (hnodes : t.nodes = s.nodes) (steps : Nat) (start : Option Addr) :
    t.chainFrom steps start = s.chainFrom steps start := by
  fun_induction chainFrom s steps start with
  | case1 => rfl
  | case2 => rfl
  | case3 steps a hnode => simp only [chainFrom, hnodes, hnode]
  | case4 steps a node hnode ih => simp only [chainFrom, hnodes, hnode, ih]

/-- The stamps have nothing to do with the chains. -/
theorem chain_of_nodes (hnodes : t.nodes = s.nodes) (a : Addr) : t.chain a = s.chain a := by
  rw [chain, chain, hnodes, chainFrom_of_nodes hnodes]

/-! ## Markers and names -/

/-- What the node at an address holds. -/
def entryAt (s : Store) (a : Addr) : Option Entry :=
  (s.nodes[a]?).map Node.entry

/-- A frame begins at the node. -/
def IsMarker (s : Store) (a : Addr) : Prop :=
  ∃ entry, s.entryAt a = some entry ∧ entry.isMarker = true

theorem entryAt_of_node {node : Node} (h : s.nodes[a]? = some node) :
    s.entryAt a = some node.entry := by
  rw [entryAt, h]
  rfl

theorem lt_size_of_entryAt {entry : Entry} (h : s.entryAt a = some entry) : a < s.nodes.size := by
  obtain ⟨node, hnode, _⟩ := Option.map_eq_some_iff.mp h
  exact (Array.getElem?_eq_some_iff.mp hnode).1

theorem IsMarker.lt_size (h : s.IsMarker a) : a < s.nodes.size := by
  obtain ⟨entry, hentry, _⟩ := h
  exact lt_size_of_entryAt hentry

theorem IsMarker.node (h : s.IsMarker a) :
    ∃ node, s.nodes[a]? = some node ∧ node.entry.isMarker = true := by
  obtain ⟨entry, hentry, hmarker⟩ := h
  obtain ⟨node, hnode, rfl⟩ := Option.map_eq_some_iff.mp hentry
  exact ⟨node, hnode, hmarker⟩

theorem isMarker_iff (s : Store) (a : Addr) :
    s.IsMarker a ↔ s.entryAt a = some .globalMarker ∨ s.entryAt a = some .marker := by
  constructor
  · rintro ⟨entry, hentry, hmarker⟩
    cases entry with
    | globalMarker => exact .inl hentry
    | marker => exact .inr hentry
    | _ => cases hmarker
  · rintro (hglobal | hcall)
    · exact ⟨_, hglobal, rfl⟩
    · exact ⟨_, hcall, rfl⟩

/-- The nodes of a chain with the symbols that they bind. -/
def links (s : Store) (a : Addr) : List (Addr × Option String) :=
  (s.chain a).map (Prod.map id Entry.name?)

theorem IsMarker.not_bound (h : s.IsMarker d) (a : Addr) (name : String) :
    (d, some name) ∉ s.links a := by
  intro hmem
  obtain ⟨⟨b, entry⟩, hlink, heq⟩ := List.mem_map.mp hmem
  obtain ⟨rfl, hname⟩ := Prod.mk.inj heq
  obtain ⟨next, hnode⟩ := mem_chainFrom hlink
  obtain ⟨found, hfound, hmarker⟩ := h
  cases (entryAt_of_node hnode).symm.trans hfound
  cases entry with
  | binding => cases hmarker
  | _ => cases hname

theorem isSome_bindingOf (name : String) (link : Addr × Entry) :
    (bindingOf name link).isSome = true ↔ link.2.name? = some name := by
  obtain ⟨b, entry⟩ := link
  cases entry with
  | binding bound value =>
      by_cases heq : bound = name
      · simp [bindingOf, Entry.name?, heq]
      · simp [bindingOf, Entry.name?, heq]
  | _ => simp [bindingOf, Entry.name?]

/-- A symbol can be looked up if and only if some node of the chain binds it. -/
theorem isSome_find?_iff (s : Store) (name : String) (a : Addr) :
    (s.find? name a).isSome = true ↔ ∃ b, (b, some name) ∈ s.links a := by
  rw [find?_eq_findSome?_chain, List.findSome?_isSome_iff]
  constructor
  · rintro ⟨⟨b, entry⟩, hmem, hsome⟩
    rw [isSome_bindingOf] at hsome
    exact ⟨b, List.mem_map.mpr ⟨_, hmem, congrArg (Prod.mk b) hsome⟩⟩
  · rintro ⟨b, hmem⟩
    obtain ⟨⟨_, entry⟩, hlink, heq⟩ := List.mem_map.mp hmem
    obtain ⟨rfl, hname⟩ := Prod.mk.inj heq
    exact ⟨_, hlink, (isSome_bindingOf name _).mpr hname⟩

/-! ## Inserting a node -/

/-- Put a link after that of the node at `d`. -/
def splice {β : Type} (d : Addr) (new : Addr × β) : List (Addr × β) → List (Addr × β)
  | [] => []
  | link :: links =>
    if link.1 = d then link :: new :: splice d new links else link :: splice d new links

section Splice

variable {β : Type} {new : Addr × β} {links others : List (Addr × β)}

theorem splice_append (d : Addr) (new : Addr × β) (links others : List (Addr × β)) :
    splice d new (links ++ others) = splice d new links ++ splice d new others := by
  induction links with
  | nil => rfl
  | cons link links ih =>
      simp only [List.cons_append, splice, ih]
      split
      · rfl
      · rfl

theorem splice_of_not_mem (h : ∀ link ∈ links, link.1 ≠ d) : splice d new links = links := by
  induction links with
  | nil => rfl
  | cons link links ih =>
      rw [List.forall_mem_cons] at h
      rw [splice, if_neg h.1, ih h.2]

theorem map_splice {γ : Type} (f : β → γ) (d : Addr) (new : Addr × β)
    (links : List (Addr × β)) :
    (splice d new links).map (Prod.map id f) =
      splice d (Prod.map id f new) (links.map (Prod.map id f)) := by
  induction links with
  | nil => rfl
  | cons link links ih =>
      by_cases h : link.1 = d
      · simp [splice, h, ih]
      · simp [splice, h, ih]

theorem subset_splice (d : Addr) (new : Addr × β) (links : List (Addr × β)) :
    links ⊆ splice d new links := by
  induction links with
  | nil => exact List.nil_subset _
  | cons link links ih =>
      rw [splice]
      split
      · exact List.cons_subset_cons _ (List.subset_cons_of_subset _ ih)
      · exact List.cons_subset_cons _ ih

/-- A search that passes the new link over finds what it found before. -/
theorem findSome?_splice {γ : Type} {f : Addr × β → Option γ} (hnew : f new = none) (d : Addr)
    (links : List (Addr × β)) : (splice d new links).findSome? f = links.findSome? f := by
  induction links with
  | nil => rfl
  | cons link links ih =>
      rw [splice]
      split
      · simp [List.findSome?_cons, hnew, ih]
      · simp [List.findSome?_cons, ih]

end Splice

theorem nodes_insertAfter {node : Node} (hd : s.nodes[d]? = some node) (entry : Entry)
    (b : Addr) :
    (s.insertAfter d entry).nodes[b]? =
      if b = d then some ⟨node.entry, some s.nodes.size⟩
      else if b = s.nodes.size then some ⟨entry, node.next⟩ else s.nodes[b]? := by
  have hlt : d < s.nodes.size := (Array.getElem?_eq_some_iff.mp hd).1
  simp only [insertAfter, hd, pushNode, Array.getElem?_setIfInBounds, Array.getElem?_push,
    Array.size_push]
  by_cases hb : b = d
  · simp [hb, Nat.lt_succ_of_lt hlt]
  · simp [hb, Ne.symm hb]

theorem entryAt_insertAfter {node : Node} (hd : s.nodes[d]? = some node) (entry : Entry)
    (b : Addr) :
    (s.insertAfter d entry).entryAt b = if b = s.nodes.size then some entry else s.entryAt b := by
  have hlt : d < s.nodes.size := (Array.getElem?_eq_some_iff.mp hd).1
  rw [entryAt, nodes_insertAfter hd]
  by_cases hb : b = d
  · cases hb
    rw [if_pos rfl, if_neg (Nat.ne_of_lt hlt), entryAt_of_node hd]
    rfl
  · rw [if_neg hb]
    split
    · rfl
    · rfl

/-- The new node is on every chain that passes the node before it, and every chain is
otherwise as it was. -/
theorem Linked.insertAfter (h : s.Linked start way) {node : Node}
    (hd : s.nodes[d]? = some node) (entry : Entry) :
    (s.insertAfter d entry).Linked start (splice d (s.nodes.size, entry) way) := by
  have hdlt : d < s.nodes.size := (Array.getElem?_eq_some_iff.mp hd).1
  induction h with
  | nil => exact .nil
  | @cons a found next way hnode h ih =>
      have halt : a < s.nodes.size := (Array.getElem?_eq_some_iff.mp hnode).1
      have hold := nodes_insertAfter hd entry a
      rw [splice]
      split
      next heq =>
        cases heq
        cases hnode.symm.trans hd
        rw [if_pos rfl] at hold
        have hnew := nodes_insertAfter hd entry s.nodes.size
        rw [if_neg (Nat.ne_of_gt hdlt), if_pos rfl] at hnew
        exact .cons hold (.cons hnew ih)
      next hne =>
        rw [if_neg hne, if_neg (Nat.ne_of_lt halt)] at hold
        exact .cons (hold.trans hnode) ih

theorem Ends.insertAfter (h : s.Ends a) {node : Node} (hd : s.nodes[d]? = some node)
    (entry : Entry) :
    (s.insertAfter d entry).chain a = splice d (s.nodes.size, entry) (s.chain a) :=
  (Linked.insertAfter h hd entry).chain_eq

/-! ## Changing a value -/

/-- The link of a node once the value at `d` has been changed. -/
def reassign (d : Addr) (value : Value) (link : Addr × Entry) : Addr × Entry :=
  if link.1 = d then (link.1, link.2.reassign value) else link

theorem nodes_assign (s : Store) (d : Addr) (value : Value) (b : Addr) :
    (s.assign d value).nodes[b]? =
      if b = d then (s.nodes[b]?).map fun node => ⟨node.entry.reassign value, node.next⟩
      else s.nodes[b]? := by
  unfold assign
  split
  next name old next hnode =>
    have hlt : d < s.nodes.size := (Array.getElem?_eq_some_iff.mp hnode).1
    rw [Array.getElem?_setIfInBounds]
    by_cases hb : b = d
    · cases hb
      rw [if_pos rfl, if_pos hlt, if_pos rfl, hnode]
      rfl
    · simp [hb, Ne.symm hb]
  next hother =>
    by_cases hb : b = d
    · cases hb
      rw [if_pos rfl]
      cases hnode : s.nodes[d]? with
      | none => rfl
      | some node =>
          obtain ⟨entry, next⟩ := node
          cases entry with
          | binding name old => exact absurd hnode (hother name old next)
          | _ => rfl
    · rw [if_neg hb]

theorem entryAt_assign (s : Store) (d : Addr) (value : Value) (b : Addr) :
    (s.assign d value).entryAt b =
      if b = d then (s.entryAt b).map (Entry.reassign value) else s.entryAt b := by
  rw [entryAt, nodes_assign]
  split
  · rw [entryAt, Option.map_map, Option.map_map]
    rfl
  · rfl

/-- Assigning changes a value on the chains that pass its node, and nothing else. -/
theorem Linked.assign (h : s.Linked start way) (d : Addr) (value : Value) :
    (s.assign d value).Linked start (way.map (reassign d value)) := by
  induction h with
  | nil => exact .nil
  | @cons a entry next way hnode h ih =>
      have hnew := nodes_assign s d value a
      rw [hnode] at hnew
      rw [List.map_cons, reassign]
      split
      next heq =>
        rw [if_pos heq] at hnew
        exact .cons hnew ih
      next hne =>
        rw [if_neg hne] at hnew
        exact .cons hnew ih

theorem Ends.assign (h : s.Ends a) (d : Addr) (value : Value) :
    (s.assign d value).chain a = (s.chain a).map (reassign d value) :=
  (Linked.assign h d value).chain_eq

theorem name?_reassign (value : Value) (entry : Entry) :
    (entry.reassign value).name? = entry.name? := by
  cases entry with
  | _ => rfl

theorem map_name?_reassign (d : Addr) (value : Value) (way : List (Addr × Entry)) :
    (way.map (reassign d value)).map (Prod.map id Entry.name?) =
      way.map (Prod.map id Entry.name?) := by
  rw [List.map_map]
  refine List.map_congr_left fun link _ => ?_
  simp only [Function.comp, reassign]
  split
  · simp [Prod.map, name?_reassign]
  · rfl

/-- Where no binding of the symbol is changed, a search for it finds what it found. -/
theorem findSome?_reassign {name : String} (h : ∀ old, (d, .binding name old) ∉ way)
    (value : Value) :
    (way.map (reassign d value)).findSome? (bindingOf name) = way.findSome? (bindingOf name) := by
  induction way with
  | nil => rfl
  | cons link way ih =>
      have hlink : bindingOf name (reassign d value link) = bindingOf name link := by
        obtain ⟨b, entry⟩ := link
        rw [reassign]
        split
        next heq =>
          cases entry with
          | binding bound old =>
              have hother : bound ≠ name := by
                rintro rfl
                exact h old (heq ▸ List.mem_cons_self)
              simp [Entry.reassign, bindingOf, hother]
          | _ => rfl
        next => rfl
      have hrest := ih fun old hmem => h old (List.mem_cons_of_mem _ hmem)
      rw [List.map_cons, List.findSome?_cons, List.findSome?_cons, hlink, hrest]

/-! ## Opening a frame -/

theorem map_addressed {β γ : Type} (f : β → γ) (size : Nat) (items : List β) :
    (addressed size items).map (Prod.map id f) = addressed size (items.map f) := by
  induction items with
  | nil => rfl
  | cons item items ih => simp [addressed, ih]

theorem entryAt_pushNode (entry : Entry) (next : Option Addr) (s : Store) (b : Addr) :
    (s.pushNode entry next).2.entryAt b =
      if b = s.nodes.size then some entry else s.entryAt b := by
  simp only [entryAt, pushNode, Array.getElem?_push]
  split
  · rfl
  · rfl

theorem getElem?_pushNode {b : Addr} {node : Node} (h : s.nodes[b]? = some node) (entry : Entry)
    (next : Option Addr) : (s.pushNode entry next).2.nodes[b]? = some node := by
  have hlt : b < s.nodes.size := (Array.getElem?_eq_some_iff.mp h).1
  simp only [pushNode, Array.getElem?_push]
  rw [if_neg (Nat.ne_of_lt hlt), h]

theorem getElem?_extend {b : Addr} {node : Node} (h : s.nodes[b]? = some node) (home : Addr)
    (bindings : List (String × Value)) :
    (s.extend home bindings).2.nodes[b]? = some node := by
  induction bindings with
  | nil => exact h
  | cons binding rest ih => exact getElem?_pushNode ih _ _

theorem getElem?_openFrame {b : Addr} {node : Node} (h : s.nodes[b]? = some node) (home : Addr)
    (bindings : List (String × Value)) :
    (s.openFrame home bindings).2.nodes[b]? = some node :=
  getElem?_pushNode (getElem?_extend h home bindings) _ _

/-- Extending an environment makes no marker. -/
theorem entryAt_of_extend {bindings : List (String × Value)} {b : Addr} {entry : Entry}
    (h : (s.extend home bindings).2.entryAt b = some entry) (hmarker : entry.isMarker = true) :
    s.entryAt b = some entry := by
  induction bindings with
  | nil => exact h
  | cons binding rest ih =>
      rw [extend, entryAt_pushNode] at h
      split at h
      · cases h
        cases hmarker
      · exact ih h

theorem Linked.pushNode {next : Option Addr} (h : s.Linked next way) (entry : Entry) :
    (s.pushNode entry next).2.Linked (some s.nodes.size) ((s.nodes.size, entry) :: way) := by
  have hnode : (s.pushNode entry next).2.nodes[s.nodes.size]? = some ⟨entry, next⟩ := by
    simp [Store.pushNode]
  exact .cons hnode (h.mono fun b node hb => getElem?_pushNode hb entry next)

theorem Linked.extend (h : s.Linked (some home) way) (bindings : List (String × Value)) :
    (s.extend home bindings).2.Linked (some (s.extend home bindings).1)
      (addressed s.nodes.size (bindings.map Entry.ofBinding) ++ way) := by
  induction bindings with
  | nil => exact h
  | cons binding rest ih =>
      have hpushed := ih.pushNode (.ofBinding binding)
      rw [size_extend] at hpushed
      simpa [addressed, Store.extend, Store.pushNode, size_extend, Entry.ofBinding] using hpushed

/-- The chain of a new frame is that of the environment in front of which it is opened,
with the bindings in their order before it. -/
theorem Linked.openFrame (h : s.Linked (some home) way) (bindings : List (String × Value)) :
    (s.openFrame home bindings).2.Linked (some (s.nodes.size + bindings.length))
      ((s.nodes.size + bindings.length, .marker) ::
        (addressed s.nodes.size (bindings.map Entry.ofBinding) ++
          way)) := by
  have hpushed := (h.extend bindings).pushNode .marker
  rwa [size_extend] at hpushed

/-- The node of a new frame is its marker. -/
theorem entryAt_openFrame_self (home : Addr) (bindings : List (String × Value)) (s : Store) :
    (s.openFrame home bindings).2.entryAt (s.nodes.size + bindings.length) = some .marker := by
  rw [openFrame, entryAt_pushNode, if_pos (size_extend home bindings s).symm]

/-- Opening a frame leaves the chains as they are. -/
theorem Ends.openFrame (h : s.Ends a) (home : Addr) (bindings : List (String × Value)) :
    (s.openFrame home bindings).2.chain a = s.chain a :=
  (Linked.mono h fun _ _ hb => getElem?_openFrame hb home bindings).chain_eq

/-! ## The initial environment -/

/-- Items at consecutive addresses. -/
def numbered {β : Type} (start : Addr) : List β → List (Addr × β)
  | [] => []
  | item :: items => (start, item) :: numbered (start + 1) items

theorem map_numbered {β γ : Type} (f : β → γ) (start : Addr) (items : List β) :
    (numbered start items).map (Prod.map id f) = numbered start (items.map f) := by
  induction items generalizing start with
  | nil => rfl
  | cons item items ih => simp [numbered, ih]

theorem linked_bindingsFrom {start : Addr} {bindings : List (String × Value)}
    (h : ∀ i node, (bindingsFrom start bindings)[i]? = some node →
      s.nodes[start + i]? = some node) :
    s.Linked (if bindings.isEmpty then none else some start)
      (numbered start (bindings.map Entry.ofBinding)) := by
  fun_induction bindingsFrom start bindings with
  | case1 => exact .nil
  | case2 start name value => exact .cons (h 0 _ rfl) .nil
  | case3 start name value rest hrest ih =>
      have htail := ih fun i node hnode => by
        rw [Nat.add_assoc, Nat.add_comm 1 i]
        exact h (i + 1) node hnode
      have hsome : rest.isEmpty = false := by
        cases rest with
        | nil => exact absurd rfl hrest
        | cons => rfl
      rw [hsome] at htail
      exact .cons (h 0 _ rfl) htail

theorem isBinding_bindingsFrom {start : Addr} {bindings : List (String × Value)} :
    ∀ node ∈ bindingsFrom start bindings, node.entry.isMarker = false := by
  fun_induction bindingsFrom start bindings with
  | case1 => exact fun _ hmem => absurd hmem List.not_mem_nil
  | case2 => exact List.forall_mem_singleton.mpr rfl
  | case3 start name value rest hrest ih => exact List.forall_mem_cons.mpr ⟨rfl, ih⟩

theorem nodes_ofBindings (bindings : List (String × Value)) (i : Nat) :
    (ofBindings bindings).nodes[i + 1]? = (bindingsFrom (global + 1) bindings)[i]? := by
  simp [ofBindings]

theorem linked_ofBindings (bindings : List (String × Value)) :
    (ofBindings bindings).Linked (some global) ((global, .globalMarker) ::
      numbered (global + 1) (bindings.map Entry.ofBinding)) := by
  refine .cons rfl (linked_bindingsFrom fun i node hnode => ?_)
  have hplace : global + 1 + i = i + 1 := Nat.add_comm 1 i
  rw [hplace, nodes_ofBindings]
  exact hnode

/-- The only marker at the start is the global one. -/
theorem global_of_ofBindings {bindings : List (String × Value)} {entry : Entry}
    (h : (ofBindings bindings).entryAt a = some entry) (hmarker : entry.isMarker = true) :
    a = global ∧ entry = .globalMarker := by
  cases a with
  | zero =>
      cases h
      exact ⟨rfl, rfl⟩
  | succ i =>
      obtain ⟨node, hnode, rfl⟩ := Option.map_eq_some_iff.mp h
      rw [nodes_ofBindings] at hnode
      have hmem := List.mem_of_getElem? hnode
      rw [isBinding_bindingsFrom node hmem] at hmarker
      cases hmarker

end Store

end SchemeMachine
