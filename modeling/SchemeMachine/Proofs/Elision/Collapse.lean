import SchemeMachine.Interpreter
import SchemeMachine.Proofs.Form

/-!
# Superfluous restoring frames

A frame that restores an environment right above another such frame does nothing
that lasts: the environment it restores is replaced before anything runs in it.
`collapse` deletes those frames, from a stack and from the continuations inside
values, and leaves everything else as it is.

The machine never leaves such frames.  With `Saving.always` it does: the environment
is saved at every call, whatever is on top of the stack.  Texts are then made from
collapsed values, so that they do not show the frames that are of no use.

This module defines `collapse` for all that a configuration is made of.
-/

namespace SchemeMachine

/-! ## Values and frames -/

/-- Put a frame on top, without the top frame becoming superfluous. -/
def Frame.merge : Frame → List Frame → List Frame
  | (.restore, _), (.restore, saved) :: frames => (.restore, saved) :: frames
  | frame, frames => frame :: frames

mutual

/-- The value without superfluous frames. -/
def Value.collapse : Value → Value
  | .pair stamp head tail => .pair stamp head.collapse tail.collapse
  | .closure stamp parameters body env => .closure stamp parameters.collapse body.collapse env
  | .continuation stamp frames => .continuation stamp (Frame.collapse frames)
  | v => v

/-- The stack without superfluous frames. -/
def Frame.collapse : List (FrameKind × Value) → List (FrameKind × Value)
  | [] => []
  | (kind, payload) :: frames => Frame.merge (kind, payload.collapse) (Frame.collapse frames)

end

/-- The environment is saved at every call; values are shown collapsed. -/
@[reducible] def Saving.always : Saving where
  save env k := k.push .restore (.environment env)
  shown := Value.collapse

theorem LawfulSaving.always : @LawfulSaving Saving.always :=
  @LawfulSaving.mk Saving.always fun _ _ => .inl rfl

namespace Frame

theorem collapse_cons {kind : FrameKind} (hkind : kind ≠ .restore) (payload : Value)
    (frames : List Frame) :
    collapse ((kind, payload) :: frames) = (kind, payload.collapse) :: collapse frames := by
  rw [collapse]
  cases kind with
  | restore => exact absurd rfl hkind
  | _ => rfl

theorem head?_merge (frame : Frame) (frames : List Frame) :
    (merge frame frames).head?.map (·.1) = some frame.1 := by
  unfold merge
  split
  · rfl
  · rfl

theorem head?_collapse (frames : List Frame) :
    (collapse frames).head?.map (·.1) = frames.head?.map (·.1) := by
  cases frames with
  | nil => rfl
  | cons frame frames => exact head?_merge _ _

theorem collapse_restore_cons_of_restore {frames : List Frame}
    (htop : frames.head?.map (·.1) = some .restore) (payload : Value) :
    collapse ((.restore, payload) :: frames) = collapse frames := by
  rw [← head?_collapse] at htop
  rw [collapse]
  generalize collapse frames = frames at htop
  cases frames with
  | nil => cases htop
  | cons frame frames =>
      obtain ⟨kind, saved⟩ := frame
      cases Option.some.inj htop
      rfl

theorem collapse_restore_cons {frames : List Frame}
    (htop : frames.head?.map (·.1) ≠ some .restore) (payload : Value) :
    collapse ((.restore, payload) :: frames) = (.restore, payload.collapse) :: collapse frames := by
  rw [← head?_collapse] at htop
  rw [collapse]
  generalize collapse frames = frames at htop
  cases frames with
  | nil => rfl
  | cons frame frames =>
      obtain ⟨kind, saved⟩ := frame
      cases kind with
      | restore => exact absurd rfl htop
      | _ => rfl

theorem collapse_eq_nil_iff (frames : List Frame) : collapse frames = [] ↔ frames = [] := by
  have hhead := head?_collapse frames
  constructor
  · intro h
    rw [h] at hhead
    cases frames with
    | nil => rfl
    | cons frame frames => cases hhead
  · rintro rfl
    rfl

theorem collapse_operands (operands : List Value) (frames : List Frame) :
    collapse (operands.map (FrameKind.operand, ·) ++ frames) =
      (operands.map Value.collapse).map (FrameKind.operand, ·) ++ collapse frames := by
  induction operands with
  | nil => rfl
  | cons operand operands ih =>
      simp only [List.map_cons, List.cons_append]
      rw [collapse_cons (by decide), ih]

/-- Saving always and collapsing is saving only where it is of use. -/
theorem collapse_save (env : Addr) (k : Stack) :
    collapse (Saving.always.save env k).frames =
      ((Stack.ofFrames (collapse k.frames)).pushRestore env).frames := by
  rw [Stack.frames_pushRestore]
  have htop : (Stack.ofFrames (collapse k.frames)).top? = k.top? := head?_collapse k.frames
  rw [htop]
  by_cases hrestore : k.top? = some .restore
  · rw [if_pos hrestore]
    exact collapse_restore_cons_of_restore hrestore _
  · rw [if_neg hrestore]
    exact collapse_restore_cons hrestore _

end Frame

/-! ## The store and what evaluations share -/

namespace Store

/-- What a node holds, collapsed. -/
def collapseEntry : Entry → Entry
  | .globalMarker => .globalMarker
  | .marker => .marker
  | .binding name value => .binding name value.collapse
  | .keyed label key value => .keyed label key.collapse value.collapse

/-- A node with what it holds collapsed. -/
def collapseNode (node : Node) : Node :=
  ⟨collapseEntry node.entry, node.next⟩

/-- A link of a chain with what it holds collapsed. -/
def collapseLink (link : Addr × Entry) : Addr × Entry :=
  (link.1, collapseEntry link.2)

/-- The store with all its values collapsed. -/
def collapse (s : Store) : Store :=
  ⟨s.nodes.map collapseNode, s.nextStamp⟩

variable (s : Store)

theorem getElem?_collapse (a : Addr) :
    s.collapse.nodes[a]? = s.nodes[a]?.map collapseNode :=
  Array.getElem?_map

theorem size_collapse : s.collapse.nodes.size = s.nodes.size :=
  Array.size_map

theorem collapse_pushNode (entry : Entry) (next : Option Addr) :
    s.collapse.pushNode (collapseEntry entry) next =
      ((s.pushNode entry next).1, (s.pushNode entry next).2.collapse) := by
  simp [pushNode, collapse, collapseNode]

theorem collapse_newPair (head tail : Value) :
    newPair head.collapse tail.collapse s.collapse =
      ((newPair head tail s).1.collapse, (newPair head tail s).2.collapse) := by
  simp only [newPair, Value.collapse, collapse]

theorem collapse_newList (items : List Value) :
    newList (items.map Value.collapse) s.collapse =
      ((newList items s).1.collapse, (newList items s).2.collapse) := by
  induction items with
  | nil => simp only [newList, List.map_nil, Value.collapse]
  | cons item items ih =>
      simp only [newList, List.map_cons, ih, collapse_newPair]

theorem collapse_place (d : Datum) :
    place d s.collapse = ((place d s).1.collapse, (place d s).2.collapse) := by
  induction d generalizing s with
  | pair head tail ihHead ihTail =>
      simp only [place, ihHead, ihTail, collapse_newPair]
  | _ => simp only [place, Value.collapse]

theorem collapse_insertAfter (a : Addr) (entry : Entry) :
    s.collapse.insertAfter a (collapseEntry entry) = (s.insertAfter a entry).collapse := by
  simp only [insertAfter, getElem?_collapse]
  cases s.nodes[a]? with
  | none => rfl
  | some node =>
      simp only [Option.map_some, collapseNode, collapse_pushNode]
      simp [pushNode, collapse, collapseNode]

theorem collapse_assign (a : Addr) (v : Value) :
    s.collapse.assign a v.collapse = (s.assign a v).collapse := by
  simp only [assign, getElem?_collapse]
  cases s.nodes[a]? with
  | none => rfl
  | some node =>
      obtain ⟨entry, next⟩ := node
      cases entry with
      | binding name value =>
          simp [collapse, collapseNode, collapseEntry]
      | _ => rfl

/-- Bindings with their values collapsed. -/
def collapseBindings (bindings : List (String × Value)) : List (String × Value) :=
  bindings.map fun (name, v) => (name, v.collapse)

theorem collapse_extend (a : Addr) (bindings : List (String × Value)) :
    s.collapse.extend a (collapseBindings bindings) =
      ((s.extend a bindings).1, (s.extend a bindings).2.collapse) := by
  induction bindings with
  | nil => rfl
  | cons binding bindings ih =>
      obtain ⟨name, v⟩ := binding
      simp only [collapseBindings, List.map_cons, extend] at ih ⊢
      rw [ih]
      exact collapse_pushNode _ (.binding name v) _

theorem collapse_openFrame (a : Addr) (bindings : List (String × Value)) :
    s.collapse.openFrame a (collapseBindings bindings) =
      ((s.openFrame a bindings).1, (s.openFrame a bindings).2.collapse) := by
  simp only [openFrame, collapse_extend]
  exact collapse_pushNode _ .marker _

theorem collapse_chainFrom (steps : Nat) (a : Option Addr) :
    s.collapse.chainFrom steps a = (s.chainFrom steps a).map collapseLink := by
  induction steps generalizing a with
  | zero => rfl
  | succ steps ih =>
      cases a with
      | none => rfl
      | some a =>
          simp only [chainFrom, getElem?_collapse]
          cases s.nodes[a]? with
          | none => rfl
          | some node =>
              simp only [Option.map_some, collapseNode, ih, List.map_cons]
              rfl

theorem collapse_chain (a : Addr) :
    s.collapse.chain a = (s.chain a).map collapseLink := by
  rw [chain, chain, size_collapse, collapse_chainFrom]

theorem collapse_find? (name : String) (a : Addr) :
    s.collapse.find? name a = (s.find? name a).map fun (node, v) => (node, v.collapse) := by
  rw [find?_eq_findSome?_chain, find?_eq_findSome?_chain, collapse_chain]
  induction s.chain a with
  | nil => rfl
  | cons link chain ih =>
      obtain ⟨a, entry⟩ := link
      rw [List.map_cons, List.findSome?_cons, List.findSome?_cons, ih]
      cases entry with
      | binding bound value =>
          simp only [collapseLink, collapseEntry, bindingOf]
          by_cases hname : bound = name
          · simp only [if_pos hname, Option.map_some]
          · simp only [if_neg hname]
      | _ => rfl

theorem collapse_bound (a : Addr) :
    s.collapse.bound a = (s.bound a).map Value.collapse := by
  rw [bound, bound, collapse_chain, List.map_reverse]
  congr 1
  induction s.chain a with
  | nil => rfl
  | cons link chain ih =>
      obtain ⟨a, entry⟩ := link
      rw [List.map_cons, List.filterMap_cons, List.filterMap_cons, ih]
      cases entry with
      | binding name value =>
          simp only [collapseLink, collapseEntry, boundBy, List.map_cons, Value.collapse]
      | _ => rfl

theorem environmentText_collapse (a : Addr) :
    s.collapse.environmentText a = s.environmentText a := by
  rw [environmentText, environmentText, collapse_chain]
  congr 3
  induction s.chain a with
  | nil => rfl
  | cons link chain ih =>
      obtain ⟨a, entry⟩ := link
      cases entry with
      | globalMarker => rfl
      | marker => exact congrArg ("|" :: ·) ih
      | binding name value => exact congrArg (name :: ·) ih
      | keyed label key value => exact congrArg (label :: ·) ih

theorem collapse_bindingsFrom (start : Addr) (bindings : List (String × Value)) :
    (bindingsFrom start bindings).map collapseNode =
      bindingsFrom start (collapseBindings bindings) := by
  induction bindings generalizing start with
  | nil => rfl
  | cons binding bindings ih =>
      cases bindings with
      | nil => rfl
      | cons next bindings =>
          rw [bindingsFrom, List.map_cons, ih]
          · rfl
          · exact nofun

theorem collapse_initial : initial.collapse = initial := by
  have hbindings : collapseBindings startBindings = startBindings := by
    simp only [collapseBindings, startBindings, List.map_cons, List.map_map, Value.collapse]
    rfl
  have hnodes := collapse_bindingsFrom (global + 1) startBindings
  rw [hbindings] at hnodes
  simp only [collapse, initial, ofBindings, List.map_toArray, List.map_cons, hnodes]
  rfl

end Store

/-- The shared state with all its values collapsed. -/
def Shared.collapse (sh : Shared) : Shared :=
  { sh with store := sh.store.collapse }

end SchemeMachine
