import SchemeMachine.Proofs.Environment.Chains
import SchemeMachine.Proofs.Matching.Values

/-!
# Stores up to a matching

Two stores are alike if nodes that are paired off hold the same and are followed by nodes that
are paired off.  Either store may have more nodes, and about those nothing is said.

Chains from nodes that are paired off then run side by side, so looking up a name gives the
same on both sides, and so does printing a value.  Whatever makes nodes or objects on both
sides leaves stores that are alike for a match that has grown; inserting a binding and
assigning to one leave stores that are alike.
-/

namespace SchemeMachine

variable {μ μ' : Match}

/-! ## Nodes and stores -/

/-- The nodes hold the same, up to what is paired off. -/
inductive Entry.Alike (μ : Match) : Entry → Entry → Prop
  | globalMarker : Entry.Alike μ .globalMarker .globalMarker
  | marker : Entry.Alike μ .marker .marker
  | binding (name : String) {v w : Value} (h : v.Alike μ w) :
      Entry.Alike μ (.binding name v) (.binding name w)
  | keyed (label : String) {key key' v w : Value} (hkey : key.Alike μ key') (h : v.Alike μ w) :
      Entry.Alike μ (.keyed label key v) (.keyed label key' w)

theorem Entry.Alike.mono (hle : μ ≤ μ') {entry entry' : Entry} (h : entry.Alike μ entry') :
    entry.Alike μ' entry' := by
  cases h with
  | globalMarker => exact .globalMarker
  | marker => exact .marker
  | binding name h => exact .binding name (h.mono hle)
  | keyed label hkey h => exact .keyed label (hkey.mono hle) (h.mono hle)

theorem Entry.Alike.reassign {entry entry' : Entry} (h : entry.Alike μ entry') {v w : Value}
    (hv : v.Alike μ w) : (entry.reassign v).Alike μ (entry'.reassign w) := by
  cases h with
  | binding name _ => exact .binding name hv
  | globalMarker => exact .globalMarker
  | marker => exact .marker
  | keyed label hkey h => exact .keyed label hkey h

/-- Both chains end, or both go on at nodes that are paired off. -/
abbrev Match.Next (μ : Match) : Option Addr → Option Addr → Prop :=
  Option.Rel μ.nodes.rel

theorem Match.Next.mono (hle : μ ≤ μ') {next next' : Option Addr} (h : μ.Next next next') :
    μ'.Next next next' := by
  cases h with
  | none => exact .none
  | some h => exact .some (hle.nodes h)

/-- The nodes hold the same and are followed by the same. -/
structure Node.Alike (μ : Match) (node node' : Node) : Prop where
  entry : node.entry.Alike μ node'.entry
  next : μ.Next node.next node'.next

theorem Node.Alike.mono (hle : μ ≤ μ') {node node' : Node} (h : node.Alike μ node') :
    node.Alike μ' node' :=
  ⟨h.entry.mono hle, h.next.mono hle⟩

/-- The match is one of the nodes and objects of the two stores, and what it pairs off is
alike. -/
structure Store.Alike (μ : Match) (s t : Store) : Prop where
  nodesLeft : μ.nodes.left = s.nodes.size
  nodesRight : μ.nodes.right = t.nodes.size
  stampsLeft : μ.stamps.left = s.nextStamp
  stampsRight : μ.stamps.right = t.nextStamp
  node : ∀ {a b : Addr}, μ.nodes.rel a b →
    ∃ x y, s.nodes[a]? = some x ∧ t.nodes[b]? = some y ∧ x.Alike μ y
  ends : ∀ {a b : Addr}, μ.nodes.rel a b → s.Ends a
  global : μ.nodes.rel Store.global Store.global

/-- Two links of chains. -/
def Match.Link (μ : Match) (link link' : Addr × Entry) : Prop :=
  μ.nodes.rel link.1 link'.1 ∧ link.2.Alike μ link'.2

namespace Store.Alike

variable {s t : Store} {a b : Addr}

/-! ## Chains side by side -/

theorem linked (h : s.Alike μ t) {start start' : Option Addr} {way : List (Addr × Entry)}
    (hway : s.Linked start way) (hstart : μ.Next start start') :
    ∃ way', t.Linked start' way' ∧ List.Forall₂ μ.Link way way' := by
  induction hway generalizing start' with
  | nil =>
      cases hstart
      exact ⟨[], .nil, .nil⟩
  | @cons a entry next way hnode _ ih =>
      cases hstart with
      | some hrel =>
          obtain ⟨x, ⟨entry', next'⟩, hx, hy, halike⟩ := h.node hrel
          cases hnode.symm.trans hx
          obtain ⟨way', hway', hlinks⟩ := ih halike.next
          exact ⟨_, .cons hy hway', .cons ⟨hrel, halike.entry⟩ hlinks⟩

theorem chain (h : s.Alike μ t) (hrel : μ.nodes.rel a b) :
    List.Forall₂ μ.Link (s.chain a) (t.chain b) := by
  obtain ⟨way, hway, hlinks⟩ := h.linked (h.ends hrel) (.some hrel)
  rwa [hway.chain_eq]

theorem find? (h : s.Alike μ t) (hrel : μ.nodes.rel a b) (name : String) :
    Option.Rel (fun x y => μ.nodes.rel x.1 y.1 ∧ x.2.Alike μ y.2) (s.find? name a)
      (t.find? name b) := by
  have hchain := h.chain hrel
  rw [find?_eq_findSome?_chain, find?_eq_findSome?_chain]
  generalize s.chain a = way, t.chain b = way' at hchain
  induction hchain with
  | nil => exact .none
  | @cons link link' _ _ hlink _ ih =>
      obtain ⟨a, entry⟩ := link
      obtain ⟨b, entry'⟩ := link'
      obtain ⟨hnode, hentry⟩ := hlink
      cases hentry with
      | binding bound hv =>
          by_cases hname : bound = name
          · simp only [List.findSome?_cons, bindingOf, if_pos hname]
            exact .some ⟨hnode, hv⟩
          · simpa only [List.findSome?_cons, bindingOf, if_neg hname] using ih
      | _ => exact ih

theorem bound (h : s.Alike μ t) (hrel : μ.nodes.rel a b) :
    Value.ListAlike μ (s.bound a) (t.bound b) := by
  have hchain := h.chain hrel
  rw [Store.bound, Store.bound]
  generalize s.chain a = way, t.chain b = way' at hchain
  refine List.rel_reverse ?_
  induction hchain with
  | nil => exact .nil
  | @cons link link' _ _ hlink _ ih =>
      obtain ⟨a, entry⟩ := link
      obtain ⟨b, entry'⟩ := link'
      cases hlink.2 with
      | binding name _ => exact .cons (.symbol name) ih
      | keyed label hkey _ => exact .cons hkey ih
      | _ => exact ih

/-! ## Texts -/

theorem environmentText (h : s.Alike μ t) (hrel : μ.nodes.rel a b) :
    t.environmentText b = s.environmentText a := by
  have hchain := h.chain hrel
  have hnames : Entry.names (t.chain b) = Entry.names (s.chain a) := by
    generalize s.chain a = way, t.chain b = way' at hchain
    induction hchain with
    | nil => rfl
    | @cons link link' _ _ hlink _ ih =>
        obtain ⟨a, entry⟩ := link
        obtain ⟨b, entry'⟩ := link'
        cases hlink.2 with
        | globalMarker => rfl
        | marker => exact congrArg (_ :: ·) ih
        | binding name _ => exact congrArg (_ :: ·) ih
        | keyed label _ _ => exact congrArg (_ :: ·) ih
  rw [Store.environmentText, Store.environmentText, hnames]

end Store.Alike

variable {s t : Store}

mutual

theorem Value.Alike.outline (hs : s.Alike μ t) (style : Text.Style) {v w : Value}
    (h : v.Alike μ w) : w.outline t style = v.outline s style := by
  cases v with
  | pair i head tail =>
      cases h with
      | pair _ hhead htail =>
          rw [Value.outline, Value.outline, hhead.outline hs style, htail.outline hs style]
  | closure i parameters body env =>
      cases h with
      | closure _ hparameters hbody henv =>
          rw [Value.outline, Value.outline, hparameters.outline hs .write,
            hbody.outline hs .write, hs.environmentText henv]
  | continuation i frames =>
      cases h with
      | continuation _ hframes => rw [Value.outline, Value.outline, hframes.texts hs]
  | environment a =>
      cases h with
      | environment hnode => rw [Value.outline, Value.outline, hs.environmentText hnode]
  | _ =>
      cases h
      rfl

theorem Frame.Alike.texts (hs : s.Alike μ t) {frames frames' : List (FrameKind × Value)}
    (h : Frame.Alike μ frames frames') : Frame.texts t frames' = Frame.texts s frames := by
  cases frames with
  | nil =>
      cases h
      rfl
  | cons frame frames =>
      cases h with
      | cons hpayload hframes =>
          rw [Frame.texts, Frame.texts, hpayload.outline hs .write, hframes.texts hs]

end

theorem Value.Alike.text (hs : s.Alike μ t) (style : Text.Style) {v w : Value} (h : v.Alike μ w) :
    w.text t style = v.text s style :=
  congrArg Text.Outline.text (h.outline hs style)

theorem Value.Alike.written (hs : s.Alike μ t) {v w : Value} (h : v.Alike μ w) :
    w.written t = v.written s :=
  h.text hs .write

theorem Value.Alike.displayed (hs : s.Alike μ t) {v w : Value} (h : v.Alike μ w) :
    w.displayed t = v.displayed s :=
  h.text hs .display

theorem Value.Alike.label (hs : s.Alike μ t) {v w : Value} (h : v.Alike μ w) :
    w.label t = v.label s := by
  have hwritten := h.written hs
  cases h with
  | number n =>
      cases n with
      | exact k => exact hwritten
      | inexact x =>
          cases x with
          | nan => rfl
          | infinite negative => rfl
          | _ => exact hwritten
  | bool b => rfl
  | string text => rfl
  | _ => exact hwritten

theorem Frame.Alike.stackText (hs : s.Alike μ t) {frames frames' : List Frame}
    (h : Frame.Alike μ frames frames') : Frame.stackText t frames' = Frame.stackText s frames := by
  simp only [Frame.stackText, Value.written, Value.text, Saving.shown_eliding, Value.outline,
    h.texts hs]

/-! ## Making objects -/

/-- Both sides have done something to their stores, and the stores are alike again.  What came
of it is related as `R` says. -/
def Match.Acts {α : Type} (μ : Match) (R : Match → α → α → Prop) (done done' : α × Store) : Prop :=
  ∃ μ', μ.Grows μ' ∧ R μ' done.1 done'.1 ∧ done.2.Alike μ' done'.2

/-- Both sides bind the same names to values that are alike. -/
abbrev Match.Bindings (μ : Match) : List (String × Value) → List (String × Value) → Prop :=
  List.Forall₂ fun binding binding' => binding.1 = binding'.1 ∧ binding.2.Alike μ binding'.2

theorem Store.size_assign (a : Addr) (v : Value) (s : Store) :
    (s.assign a v).nodes.size = s.nodes.size := by
  unfold assign
  split
  · exact Array.size_setIfInBounds
  · rfl

theorem Store.nextStamp_assign (a : Addr) (v : Value) (s : Store) :
    (s.assign a v).nextStamp = s.nextStamp := by
  unfold assign
  split <;> rfl

namespace Store.Alike

theorem withObject (h : s.Alike μ t) :
    Store.Alike μ.withObject ⟨s.nodes, s.nextStamp + 1⟩ ⟨t.nodes, t.nextStamp + 1⟩ where
  nodesLeft := h.nodesLeft
  nodesRight := h.nodesRight
  stampsLeft := congrArg (· + 1) h.stampsLeft
  stampsRight := congrArg (· + 1) h.stampsRight
  node hrel := by
    obtain ⟨x, y, hx, hy, halike⟩ := h.node hrel
    exact ⟨x, y, hx, hy, halike.mono μ.grows_withObject.le⟩
  ends hrel := by
    have hway : Linked ⟨s.nodes, s.nextStamp + 1⟩ _ _ :=
      Linked.mono (h.ends hrel) fun _ _ hnode => hnode
    exact hway.ends
  global := h.global

theorem newStamp (h : s.Alike μ t) : μ.withObject.stamps.rel s.nextStamp t.nextStamp :=
  Pairing.rel_grow_one.mpr (.inr ⟨h.stampsLeft.symm, h.stampsRight.symm⟩)

variable {v w v' w' : Value}

theorem newPair (h : s.Alike μ t) (hv : v.Alike μ v') (hw : w.Alike μ w') :
    μ.Acts Value.Alike (s.newPair v w) (t.newPair v' w') := by
  have hle := μ.grows_withObject.le
  exact ⟨_, μ.grows_withObject, .pair h.newStamp (hv.mono hle) (hw.mono hle), h.withObject⟩

theorem newClosure (h : s.Alike μ t) (hv : v.Alike μ v') (hw : w.Alike μ w') {env env' : Addr}
    (henv : μ.nodes.rel env env') :
    μ.Acts Value.Alike (s.newClosure v w env) (t.newClosure v' w' env') := by
  have hle := μ.grows_withObject.le
  exact ⟨_, μ.grows_withObject, .closure h.newStamp (hv.mono hle) (hw.mono hle) henv, h.withObject⟩

theorem newContinuation (h : s.Alike μ t) {frames frames' : List Frame}
    (hframes : Frame.Alike μ frames frames') :
    μ.Acts Value.Alike (s.newContinuation frames) (t.newContinuation frames') := by
  have hle := μ.grows_withObject.le
  exact ⟨_, μ.grows_withObject, .continuation h.newStamp (hframes.mono hle), h.withObject⟩

theorem newList (h : s.Alike μ t) {items items' : List Value}
    (hitems : Value.ListAlike μ items items') :
    μ.Acts Value.Alike (s.newList items) (t.newList items') := by
  induction hitems with
  | nil => exact ⟨μ, .refl μ, .nil, h⟩
  | cons hitem _ ih =>
      obtain ⟨μ', hgrows, hrest, hstore⟩ := ih
      obtain ⟨μ'', hgrows', hlist⟩ := hstore.newPair (hitem.mono hgrows.le) hrest
      exact ⟨μ'', hgrows.trans hgrows', hlist⟩

theorem place (h : s.Alike μ t) (d : Datum) : μ.Acts Value.Alike (s.place d) (t.place d) := by
  induction d generalizing μ s t with
  | nil => exact ⟨μ, .refl μ, .nil, h⟩
  | bool b => exact ⟨μ, .refl μ, .bool b, h⟩
  | number n => exact ⟨μ, .refl μ, .number n, h⟩
  | string text => exact ⟨μ, .refl μ, .string text, h⟩
  | symbol name => exact ⟨μ, .refl μ, .symbol name, h⟩
  | pair head tail ihHead ihTail =>
      obtain ⟨μ₁, hgrows₁, hhead, hstore₁⟩ := ihHead h
      obtain ⟨μ₂, hgrows₂, htail, hstore₂⟩ := ihTail hstore₁
      obtain ⟨μ₃, hgrows₃, hpair⟩ := hstore₂.newPair (hhead.mono hgrows₂.le) htail
      exact ⟨μ₃, (hgrows₁.trans hgrows₂).trans hgrows₃, hpair⟩

/-! ## Making nodes -/

theorem pushNode (h : s.Alike μ t) {entry entry' : Entry} (hentry : entry.Alike μ entry')
    {next next' : Option Addr} (hnext : μ.Next next next') :
    μ.withNode.nodes.rel (s.pushNode entry next).1 (t.pushNode entry' next').1 ∧
      (s.pushNode entry next).2.Alike μ.withNode (t.pushNode entry' next').2 := by
  have hle := μ.grows_withNode.le
  have hnew : μ.withNode.nodes.rel s.nodes.size t.nodes.size :=
    Pairing.rel_grow_one.mpr (.inr ⟨h.nodesLeft.symm, h.nodesRight.symm⟩)
  refine ⟨hnew, ?_⟩
  constructor
  case nodesLeft => simp [Match.withNode, Pairing.grow, Store.pushNode, h.nodesLeft]
  case nodesRight => simp [Match.withNode, Pairing.grow, Store.pushNode, h.nodesRight]
  case stampsLeft => exact h.stampsLeft
  case stampsRight => exact h.stampsRight
  case global => exact hle.nodes h.global
  case node =>
    intro a b hrel
    rcases Pairing.rel_grow_one.mp hrel with hold | ⟨rfl, rfl⟩
    · obtain ⟨x, y, hx, hy, halike⟩ := h.node hold
      exact ⟨x, y, getElem?_pushNode hx _ _, getElem?_pushNode hy _ _, halike.mono hle⟩
    · refine ⟨⟨entry, next⟩, ⟨entry', next'⟩, ?_, ?_, hentry.mono hle, hnext.mono hle⟩
      · simp [Store.pushNode, h.nodesLeft]
      · simp [Store.pushNode, h.nodesRight]
  case ends =>
    intro a b hrel
    rcases Pairing.rel_grow_one.mp hrel with hold | ⟨rfl, rfl⟩
    · exact (Linked.mono (h.ends hold) fun _ _ hnode => getElem?_pushNode hnode _ _).ends
    · rw [h.nodesLeft]
      cases hnext with
      | none => exact (Linked.nil.pushNode entry).ends
      | some hrel => exact (Linked.pushNode (h.ends hrel) entry).ends

theorem extend (h : s.Alike μ t) {a b : Addr} (hrel : μ.nodes.rel a b)
    {bindings bindings' : List (String × Value)} (hbindings : μ.Bindings bindings bindings') :
    μ.Acts (·.nodes.rel) (s.extend a bindings) (t.extend b bindings') := by
  induction hbindings with
  | nil => exact ⟨μ, .refl μ, hrel, h⟩
  | @cons binding binding' _ _ hbinding _ ih =>
      obtain ⟨name, v⟩ := binding
      obtain ⟨_, w⟩ := binding'
      obtain ⟨rfl, hvalue⟩ := hbinding
      obtain ⟨μ', hgrows, hinner, hstore⟩ := ih
      have hpushed := hstore.pushNode (.binding name (hvalue.mono hgrows.le)) (.some hinner)
      exact ⟨μ'.withNode, hgrows.trans μ'.grows_withNode, hpushed⟩

theorem openFrame (h : s.Alike μ t) {a b : Addr} (hrel : μ.nodes.rel a b)
    {bindings bindings' : List (String × Value)} (hbindings : μ.Bindings bindings bindings') :
    μ.Acts (·.nodes.rel) (s.openFrame a bindings) (t.openFrame b bindings') := by
  obtain ⟨μ', hgrows, hinner, hstore⟩ := h.extend hrel hbindings
  exact ⟨μ'.withNode, hgrows.trans μ'.grows_withNode, hstore.pushNode .marker (.some hinner)⟩

/-! ## Changing nodes -/

/-- The chain of a node that is put in is what followed the node before it. -/
theorem ends_size_insertAfter {a : Addr} (h : s.Ends a) {x : Node} (hx : s.nodes[a]? = some x)
    (entry : Entry) : (s.insertAfter a entry).Ends s.nodes.size := by
  have hlt : a < s.nodes.size := (Array.getElem?_eq_some_iff.mp hx).1
  have hnode := nodes_insertAfter hx entry s.nodes.size
  rw [if_neg (Nat.ne_of_gt hlt), if_pos rfl] at hnode
  rw [Ends] at h
  generalize s.chain a = way at h
  cases h with
  | cons hfound hnext =>
      cases hx.symm.trans hfound
      exact (Linked.cons hnode (hnext.insertAfter hx entry)).ends

theorem insertAfter (h : s.Alike μ t) {a b : Addr} (hrel : μ.nodes.rel a b) {entry entry' : Entry}
    (hentry : entry.Alike μ entry') :
    (s.insertAfter a entry).Alike μ.withNode (t.insertAfter b entry') := by
  have hle := μ.grows_withNode.le
  obtain ⟨x, y, hx, hy, halike⟩ := h.node hrel
  have hnew : μ.withNode.nodes.rel s.nodes.size t.nodes.size :=
    Pairing.rel_grow_one.mpr (.inr ⟨h.nodesLeft.symm, h.nodesRight.symm⟩)
  have hleft := nodes_insertAfter hx entry
  have hright := nodes_insertAfter hy entry'
  have halt : a < s.nodes.size := (Array.getElem?_eq_some_iff.mp hx).1
  have hblt : b < t.nodes.size := (Array.getElem?_eq_some_iff.mp hy).1
  constructor
  case nodesLeft =>
    simp [Store.insertAfter, hx, Store.pushNode, Match.withNode, Pairing.grow, h.nodesLeft]
  case nodesRight =>
    simp [Store.insertAfter, hy, Store.pushNode, Match.withNode, Pairing.grow, h.nodesRight]
  case stampsLeft =>
    simp [Store.insertAfter, hx, Store.pushNode, Match.withNode, h.stampsLeft]
  case stampsRight =>
    simp [Store.insertAfter, hy, Store.pushNode, Match.withNode, h.stampsRight]
  case global => exact hle.nodes h.global
  case node =>
    intro a' b' hrel'
    rw [hleft, hright]
    rcases Pairing.rel_grow_one.mp hrel' with hold | ⟨rfl, rfl⟩
    · obtain ⟨x', y', hx', hy', halike'⟩ := h.node hold
      have halt' : a' < s.nodes.size := (Array.getElem?_eq_some_iff.mp hx').1
      have hblt' : b' < t.nodes.size := (Array.getElem?_eq_some_iff.mp hy').1
      by_cases heq : a' = a
      · rw [if_pos heq, if_pos ((μ.nodes.oneToOne hold hrel).mp heq)]
        exact ⟨_, _, rfl, rfl, halike.entry.mono hle, .some hnew⟩
      · rw [if_neg heq, if_neg (Nat.ne_of_lt halt'),
          if_neg (fun hb => heq ((μ.nodes.oneToOne hold hrel).mpr hb)),
          if_neg (Nat.ne_of_lt hblt')]
        exact ⟨x', y', hx', hy', halike'.mono hle⟩
    · rw [h.nodesLeft, h.nodesRight, if_neg (Nat.ne_of_gt halt), if_pos rfl,
        if_neg (Nat.ne_of_gt hblt), if_pos rfl]
      exact ⟨_, _, rfl, rfl, hentry.mono hle, halike.next.mono hle⟩
  case ends =>
    intro a' b' hrel'
    rcases Pairing.rel_grow_one.mp hrel' with hold | ⟨rfl, rfl⟩
    · exact (Linked.insertAfter (h.ends hold) hx entry).ends
    · rw [h.nodesLeft]
      exact ends_size_insertAfter (h.ends hrel) hx entry

theorem assign (h : s.Alike μ t) {a b : Addr} (hrel : μ.nodes.rel a b) {v w : Value}
    (hv : v.Alike μ w) : (s.assign a v).Alike μ (t.assign b w) := by
  constructor
  case nodesLeft => rw [size_assign, h.nodesLeft]
  case nodesRight => rw [size_assign, h.nodesRight]
  case stampsLeft => rw [nextStamp_assign, h.stampsLeft]
  case stampsRight => rw [nextStamp_assign, h.stampsRight]
  case global => exact h.global
  case node =>
    intro a' b' hrel'
    obtain ⟨x', y', hx', hy', halike'⟩ := h.node hrel'
    rw [nodes_assign, nodes_assign, hx', hy']
    by_cases heq : a' = a
    · rw [if_pos heq, if_pos ((μ.nodes.oneToOne hrel' hrel).mp heq)]
      exact ⟨_, _, rfl, rfl, halike'.entry.reassign hv, halike'.next⟩
    · rw [if_neg heq, if_neg (fun hb => heq ((μ.nodes.oneToOne hrel' hrel).mpr hb))]
      exact ⟨x', y', rfl, rfl, halike'⟩
  case ends =>
    intro a' b' hrel'
    exact (Linked.assign (h.ends hrel') a v).ends

end Store.Alike

end SchemeMachine
