import SchemeMachine.Value.Basic

/-!
# Environments

An environment is a chain of nodes.  A node is a binding of a symbol to a value
or the marker at the head of a frame: of a call, or of the global environment,
whose marker is the first node of every store.  `define` puts a binding right
after a node, normally the marker of the current frame, so everything that
shares the marker sees it; `assign` changes the value of a binding in place.

Programs bind symbols only.  A frame made by hand may define something else; such
a binding is listed and never found.

The store holds the nodes under their addresses and hands out the stamps of new
objects.
-/

namespace SchemeMachine

/-- What a node of an environment holds. -/
inductive Entry where
  /-- The head of the global environment. -/
  | globalMarker
  /-- The head of the frame of a call. -/
  | marker
  | binding (name : String) (value : Value)
  /-- A binding of a key that is no symbol, and the label it is listed under. -/
  | keyed (label : String) (key value : Value)

/-- A node of an environment, and the address of the node after it. -/
structure Node where
  entry : Entry
  next : Option Addr

/-- The environment nodes, and the stamp of the next object. -/
structure Store where
  nodes : Array Node
  nextStamp : Nat

namespace Store

/-! ## Objects -/

/-- Make a pair. -/
def newPair (head tail : Value) (s : Store) : Value × Store :=
  (.pair s.nextStamp head tail, { s with nextStamp := s.nextStamp + 1 })

/-- Make a closure. -/
def newClosure (parameters body : Value) (env : Addr) (s : Store) : Value × Store :=
  (.closure s.nextStamp parameters body env, { s with nextStamp := s.nextStamp + 1 })

/-- Make a continuation. -/
def newContinuation (frames : List Frame) (s : Store) : Value × Store :=
  (.continuation s.nextStamp frames, { s with nextStamp := s.nextStamp + 1 })

/-- Make a list of new pairs. -/
def newList : List Value → Store → Value × Store
  | [], s => (.nil, s)
  | item :: items, s =>
    let (rest, s) := newList items s
    s.newPair item rest

/-- Make a datum into a value; its pairs become new pairs. -/
def place : Datum → Store → Value × Store
  | .nil, s => (.nil, s)
  | .bool b, s => (.bool b, s)
  | .number n, s => (.number n, s)
  | .string text, s => (.string text, s)
  | .symbol name, s => (.symbol name, s)
  | .pair head tail, s =>
    let (h, s) := place head s
    let (t, s) := place tail s
    s.newPair h t

/-! ## Nodes -/

/-- The address of the marker of the global environment. -/
def global : Addr := 0

/-- Binding nodes at consecutive addresses from `start`, each followed by the
next. -/
def bindingsFrom (start : Addr) : List (String × Value) → List Node
  | [] => []
  | [(name, value)] => [⟨.binding name value, none⟩]
  | (name, value) :: rest =>
    ⟨.binding name value, some (start + 1)⟩ :: bindingsFrom (start + 1) rest

/-- A store that holds a global environment with these bindings only. -/
def ofBindings (bindings : List (String × Value)) : Store :=
  let first : Option Addr := if bindings.isEmpty then none else some (global + 1)
  ⟨(⟨.globalMarker, first⟩ :: bindingsFrom (global + 1) bindings).toArray, 0⟩

/-- Add a node in front of `next`. -/
def pushNode (entry : Entry) (next : Option Addr) (s : Store) : Addr × Store :=
  (s.nodes.size, { s with nodes := s.nodes.push ⟨entry, next⟩ })

/-- The nodes of a chain, for at most so many steps. -/
def chainFrom (s : Store) : Nat → Option Addr → List (Addr × Entry)
  | 0, _ => []
  | _ + 1, none => []
  | steps + 1, some a =>
    match s.nodes[a]? with
    | none => []
    | some node => (a, node.entry) :: s.chainFrom steps node.next

/-- The nodes of the environment at `a`, from that one to the last.  A chain
without a cycle is no longer than the store. -/
def chain (s : Store) (a : Addr) : List (Addr × Entry) :=
  s.chainFrom s.nodes.size (some a)

/-- The node and the value of the first binding of `name` in a chain. -/
def findFrom (s : Store) (name : String) : Nat → Option Addr → Option (Addr × Value)
  | 0, _ => none
  | _ + 1, none => none
  | steps + 1, some a =>
    match s.nodes[a]? with
    | none => none
    | some ⟨.binding bound value, next⟩ =>
      if bound = name then some (a, value) else s.findFrom name steps next
    | some ⟨_, next⟩ => s.findFrom name steps next

/-- The node and the value of the nearest binding of `name` in the environment
at `a`. -/
def find? (s : Store) (name : String) (a : Addr) : Option (Addr × Value) :=
  s.findFrom name s.nodes.size (some a)

/-- Put a node right after the one at `a`. -/
def insertAfter (a : Addr) (entry : Entry) (s : Store) : Store :=
  match s.nodes[a]? with
  | none => s
  | some node =>
    let (fresh, s) := s.pushNode entry node.next
    { s with nodes := s.nodes.setIfInBounds a { node with next := some fresh } }

/-- Bind a symbol right after the node at `a`. -/
def define (a : Addr) (name : String) (value : Value) (s : Store) : Store :=
  s.insertAfter a (.binding name value)

/-- Change the value of the binding at `a`. -/
def assign (a : Addr) (value : Value) (s : Store) : Store :=
  match s.nodes[a]? with
  | some ⟨.binding name _, next⟩ =>
    { s with nodes := s.nodes.setIfInBounds a ⟨.binding name value, next⟩ }
  | _ => s

/-- Put bindings in front of the environment at `a`, the first of them
foremost. -/
def extend (a : Addr) : List (String × Value) → Store → Addr × Store
  | [], s => (a, s)
  | (name, value) :: rest, s =>
    let (inner, s) := extend a rest s
    s.pushNode (.binding name value) (some inner)

/-- Open a frame with these bindings in front of the environment at `a`. -/
def openFrame (a : Addr) (bindings : List (String × Value)) (s : Store) : Addr × Store :=
  let (inner, s) := s.extend a bindings
  s.pushNode .marker (some inner)

/-- What an entry binds. -/
def boundBy : Entry → Option Value
  | .binding name _ => some (.symbol name)
  | .keyed _ key _ => some key
  | .globalMarker | .marker => none

/-- The symbols bound in the environment at `a`, the oldest first. -/
def bound (s : Store) (a : Addr) : List Value :=
  ((s.chain a).filterMap fun (_, entry) => boundBy entry).reverse

/-! ## The start of a program -/

/-- The bindings of the global environment, newest first: the two procedures
that the machine itself performs, then the primitives. -/
def startBindings : List (String × Value) :=
  ("call/cc", .callWithContinuation) :: ("apply", .applyToList) ::
    Primitive.all.map fun p => (p.name, .primitive p)

/-- The store that every program starts with. -/
def initial : Store :=
  ofBindings startBindings

/-! ## Looking up is searching the chain -/

/-- The value at a node of a chain, if it is a binding of `name`. -/
def bindingOf (name : String) : Addr × Entry → Option (Addr × Value)
  | (a, .binding bound value) => if bound = name then some (a, value) else none
  | _ => none

theorem findFrom_eq_findSome? (s : Store) (name : String) (steps : Nat) (a : Option Addr) :
    s.findFrom name steps a = (s.chainFrom steps a).findSome? (bindingOf name) := by
  induction steps generalizing a with
  | zero => rfl
  | succ steps ih =>
    cases a with
    | none => rfl
    | some a =>
      simp only [findFrom, chainFrom]
      cases h : s.nodes[a]? with
      | none => rfl
      | some node =>
        obtain ⟨entry, next⟩ := node
        cases entry with
        | globalMarker => simpa [List.findSome?_cons, bindingOf] using ih next
        | marker => simpa [List.findSome?_cons, bindingOf] using ih next
        | keyed => simpa [List.findSome?_cons, bindingOf] using ih next
        | binding bound value =>
          by_cases hname : bound = name
          · simp [bindingOf, hname]
          · simpa [bindingOf, hname] using ih next

/-- The nearest binding of a symbol is the first one in the chain. -/
theorem find?_eq_findSome?_chain (s : Store) (name : String) (a : Addr) :
    s.find? name a = (s.chain a).findSome? (bindingOf name) :=
  findFrom_eq_findSome? s name _ _

end Store

end SchemeMachine
