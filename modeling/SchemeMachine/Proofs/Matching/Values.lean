import Mathlib.Data.List.Forall2
import SchemeMachine.Machine.Run

/-!
# Values up to a matching of nodes and stamps

Two runs that do the same may still get different addresses for the nodes they make and
different stamps for their objects, if something else makes nodes and objects in between.
A `Match` pairs off the addresses of one store with those of another, and the stamps of the
one with those of the other.  Two values are `Alike` if they differ in such addresses and
stamps only.

A match grows (`Match.Grows`) whenever both sides make a node or an object: what was made last
on the one side is paired off with what was made last on the other.
-/

namespace SchemeMachine

/-! ## Matches -/

/-- A way to pair off some of the numbers below `left` with some of those below `right`. -/
structure Pairing where
  rel : Nat → Nat → Prop
  left : Nat
  right : Nat
  bounded : ∀ {a b : Nat}, rel a b → a < left ∧ b < right
  oneToOne : ∀ {a b a' b' : Nat}, rel a b → rel a' b' → (a = a' ↔ b = b')

namespace Pairing

theorem ext {p q : Pairing} (hrel : ∀ a b, p.rel a b ↔ q.rel a b) (hleft : p.left = q.left)
    (hright : p.right = q.right) : p = q := by
  obtain ⟨rel, left, right, _, _⟩ := p
  obtain ⟨rel', left', right', _, _⟩ := q
  obtain rfl : rel = rel' := funext fun a => funext fun b => propext (hrel a b)
  cases hleft
  cases hright
  rfl

/-- Every number below `n` with itself. -/
def diagonal (n : Nat) : Pairing where
  rel a b := a = b ∧ a < n
  left := n
  right := n
  bounded := by omega
  oneToOne := by omega

/-- The next `n` numbers of both sides are paired off too. -/
def grow (n : Nat) (p : Pairing) : Pairing where
  rel a b := p.rel a b ∨ p.left ≤ a ∧ a < p.left + n ∧ a + p.right = b + p.left
  left := p.left + n
  right := p.right + n
  bounded := by
    intro a b h
    rcases h with h | h
    · have := p.bounded h
      omega
    · omega
  oneToOne := by
    intro a b a' b' h h'
    rcases h with h | h <;> rcases h' with h' | h'
    · exact p.oneToOne h h'
    · have := p.bounded h
      omega
    · have := p.bounded h'
      omega
    · omega

/-- There may be more numbers on the right, and they are not paired off. -/
def widen (right : Nat) (p : Pairing) : Pairing where
  rel := p.rel
  left := p.left
  right := max p.right right
  bounded h := ⟨(p.bounded h).1, Nat.lt_of_lt_of_le (p.bounded h).2 (Nat.le_max_left _ _)⟩
  oneToOne := p.oneToOne

theorem grow_zero (p : Pairing) : p.grow 0 = p := by
  apply ext
  · intro a b
    show p.rel a b ∨ _ ↔ p.rel a b
    constructor
    · rintro (h | h)
      · exact h
      · omega
    · exact .inl
  · rfl
  · rfl

theorem grow_grow (p : Pairing) (m n : Nat) : (p.grow m).grow n = p.grow (m + n) := by
  apply ext
  · intro a b
    show (p.rel a b ∨ _) ∨ _ ↔ p.rel a b ∨ _
    rw [or_assoc]
    apply or_congr_right
    show (p.left ≤ a ∧ a < p.left + m ∧ _) ∨ (p.left + m ≤ a ∧ a < p.left + m + n ∧
      a + (p.right + m) = b + (p.left + m)) ↔ _
    omega
  · exact Nat.add_assoc _ _ _
  · exact Nat.add_assoc _ _ _

theorem grow_diagonal (m n : Nat) : (diagonal m).grow n = diagonal (m + n) := by
  apply ext
  · intro a b
    show (a = b ∧ a < m) ∨ (m ≤ a ∧ a < m + n ∧ a + m = b + m) ↔ a = b ∧ a < m + n
    omega
  · rfl
  · rfl

theorem rel_grow {p : Pairing} {a b : Nat} (h : p.rel a b) (n : Nat) : (p.grow n).rel a b :=
  .inl h

theorem rel_grow_one {p : Pairing} {a b : Nat} :
    (p.grow 1).rel a b ↔ p.rel a b ∨ a = p.left ∧ b = p.right := by
  show (p.rel a b ∨ _) ↔ _
  apply or_congr_right
  omega

end Pairing

/-- How the addresses and the stamps of one store are paired off with those of another. -/
structure Match where
  nodes : Pairing
  stamps : Pairing

namespace Match

/-- What the one match pairs off, so does the other. -/
structure Le (μ μ' : Match) : Prop where
  nodes : ∀ {a b : Addr}, μ.nodes.rel a b → μ'.nodes.rel a b
  stamps : ∀ {i j : Nat}, μ.stamps.rel i j → μ'.stamps.rel i j

instance : LE Match := ⟨Le⟩

/-- The next nodes and objects are paired off too. -/
def grow (nodes stamps : Nat) (μ : Match) : Match :=
  ⟨μ.nodes.grow nodes, μ.stamps.grow stamps⟩

/-- A node has been made on both sides. -/
def withNode (μ : Match) : Match :=
  ⟨μ.nodes.grow 1, μ.stamps⟩

/-- An object has been made on both sides. -/
def withObject (μ : Match) : Match :=
  ⟨μ.nodes, μ.stamps.grow 1⟩

/-- Everything with itself. -/
def diagonal (nodes stamps : Nat) : Match :=
  ⟨.diagonal nodes, .diagonal stamps⟩

/-- The other match pairs off some more nodes and objects, all of them new. -/
def Grows (μ μ' : Match) : Prop :=
  ∃ nodes stamps, μ' = μ.grow nodes stamps

variable {μ μ' μ'' : Match}

theorem le_grow (nodes stamps : Nat) (μ : Match) : μ ≤ μ.grow nodes stamps :=
  ⟨fun h => Pairing.rel_grow h nodes, fun h => Pairing.rel_grow h stamps⟩

theorem Grows.le (h : μ.Grows μ') : μ ≤ μ' := by
  obtain ⟨nodes, stamps, rfl⟩ := h
  exact le_grow nodes stamps μ

@[refl] theorem Grows.refl (μ : Match) : μ.Grows μ :=
  ⟨0, 0, by rw [grow, Pairing.grow_zero, Pairing.grow_zero]⟩

theorem Grows.trans (h : μ.Grows μ') (h' : μ'.Grows μ'') : μ.Grows μ'' := by
  obtain ⟨nodes, stamps, rfl⟩ := h
  obtain ⟨nodes', stamps', rfl⟩ := h'
  refine ⟨nodes + nodes', stamps + stamps', ?_⟩
  simp only [grow, Pairing.grow_grow]

theorem grows_withNode (μ : Match) : μ.Grows μ.withNode :=
  ⟨1, 0, by rw [grow, Pairing.grow_zero, withNode]⟩

theorem grows_withObject (μ : Match) : μ.Grows μ.withObject :=
  ⟨0, 1, by rw [grow, Pairing.grow_zero, withObject]⟩

theorem Grows.diagonal {nodes stamps : Nat} (h : (diagonal nodes stamps).Grows μ) :
    μ = .diagonal μ.nodes.left μ.stamps.left := by
  obtain ⟨more, moreStamps, rfl⟩ := h
  simp only [grow, Match.diagonal, Pairing.grow_diagonal]
  rfl

end Match

/-! ## Values and frames -/

mutual

/-- The values differ in the addresses and stamps that are paired off. -/
inductive Value.Alike (μ : Match) : Value → Value → Prop
  | nil : Value.Alike μ .nil .nil
  | bool (b : Bool) : Value.Alike μ (.bool b) (.bool b)
  | number (n : Number) : Value.Alike μ (.number n) (.number n)
  | string (s : String) : Value.Alike μ (.string s) (.string s)
  | symbol (name : String) : Value.Alike μ (.symbol name) (.symbol name)
  | pair {i j : Nat} {head tail head' tail' : Value} (hstamp : μ.stamps.rel i j)
      (hhead : Value.Alike μ head head') (htail : Value.Alike μ tail tail') :
      Value.Alike μ (.pair i head tail) (.pair j head' tail')
  | closure {i j : Nat} {parameters body parameters' body' : Value} {env env' : Addr}
      (hstamp : μ.stamps.rel i j) (hparameters : Value.Alike μ parameters parameters')
      (hbody : Value.Alike μ body body') (henv : μ.nodes.rel env env') :
      Value.Alike μ (.closure i parameters body env) (.closure j parameters' body' env')
  | primitive (p : Primitive) : Value.Alike μ (.primitive p) (.primitive p)
  | continuation {i j : Nat} {frames frames' : List (FrameKind × Value)}
      (hstamp : μ.stamps.rel i j) (hframes : Frame.Alike μ frames frames') :
      Value.Alike μ (.continuation i frames) (.continuation j frames')
  | environment {a b : Addr} (hnode : μ.nodes.rel a b) :
      Value.Alike μ (.environment a) (.environment b)
  | void : Value.Alike μ .void .void
  | eof : Value.Alike μ .eof .eof
  | callWithContinuation : Value.Alike μ .callWithContinuation .callWithContinuation
  | applyToList : Value.Alike μ .applyToList .applyToList

/-- The stacks have frames of the same kinds with payloads that are alike. -/
inductive Frame.Alike (μ : Match) : List (FrameKind × Value) → List (FrameKind × Value) → Prop
  | nil : Frame.Alike μ [] []
  | cons {kind : FrameKind} {payload payload' : Value} {frames frames' : List (FrameKind × Value)}
      (hpayload : Value.Alike μ payload payload') (hframes : Frame.Alike μ frames frames') :
      Frame.Alike μ ((kind, payload) :: frames) ((kind, payload') :: frames')

end

variable {μ μ' : Match}

mutual

theorem Value.Alike.mono (hle : μ ≤ μ') {v w : Value} (h : v.Alike μ w) : v.Alike μ' w :=
  match h with
  | .pair hstamp hhead htail => .pair (hle.stamps hstamp) (hhead.mono hle) (htail.mono hle)
  | .closure hstamp hparameters hbody henv =>
    .closure (hle.stamps hstamp) (hparameters.mono hle) (hbody.mono hle) (hle.nodes henv)
  | .continuation hstamp hframes => .continuation (hle.stamps hstamp) (hframes.mono hle)
  | .environment hnode => .environment (hle.nodes hnode)
  | .nil => .nil
  | .bool b => .bool b
  | .number n => .number n
  | .string s => .string s
  | .symbol name => .symbol name
  | .primitive p => .primitive p
  | .void => .void
  | .eof => .eof
  | .callWithContinuation => .callWithContinuation
  | .applyToList => .applyToList

theorem Frame.Alike.mono (hle : μ ≤ μ') {frames frames' : List (FrameKind × Value)}
    (h : Frame.Alike μ frames frames') : Frame.Alike μ' frames frames' :=
  match h with
  | .nil => .nil
  | .cons hpayload hframes => .cons (hpayload.mono hle) (hframes.mono hle)

end

/-- The values are alike one by one. -/
abbrev Value.ListAlike (μ : Match) : List Value → List Value → Prop :=
  List.Forall₂ (Value.Alike μ)

theorem Frame.Alike.length_eq {frames frames' : List Frame} (h : Frame.Alike μ frames frames') :
    frames.length = frames'.length :=
  match h with
  | .nil => rfl
  | .cons _ hframes => congrArg (· + 1) hframes.length_eq

/-! ## What is asked of values -/

namespace Value.Alike

theorem elements_ok {v w : Value} (h : v.Alike μ w) {items : List Value}
    (hitems : v.elements = .ok items) :
    ∃ items', w.elements = .ok items' ∧ ListAlike μ items items' := by
  cases v with
  | pair i head tail =>
      cases h with
      | pair _ hhead htail =>
          rw [elements] at hitems ⊢
          cases hrest : tail.elements with
          | error other =>
              rw [hrest] at hitems
              cases hitems
          | ok rest =>
              rw [hrest] at hitems
              cases hitems
              obtain ⟨rest', hrest', halike⟩ := htail.elements_ok hrest
              rw [hrest']
              exact ⟨_, rfl, .cons hhead halike⟩
  | nil =>
      cases h
      cases hitems
      exact ⟨[], rfl, .nil⟩
  | _ => cases hitems

theorem elements_error {v w : Value} (h : v.Alike μ w) {other : Value}
    (hother : v.elements = .error other) :
    ∃ other', w.elements = .error other' ∧ other.Alike μ other' := by
  cases v with
  | pair i head tail =>
      cases h with
      | pair _ hhead htail =>
          rw [elements] at hother ⊢
          cases hrest : tail.elements with
          | error last =>
              rw [hrest] at hother
              cases hother
              obtain ⟨other', hother', halike⟩ := htail.elements_error hrest
              rw [hother']
              exact ⟨other', rfl, halike⟩
          | ok rest =>
              rw [hrest] at hother
              cases hother
  | nil => cases hother
  | _ =>
      cases hother
      have halike := h
      cases h
      exact ⟨_, rfl, halike⟩

variable {v w x y x' y' : Value}

theorem isSome_length? (h : v.Alike μ w) : w.length?.isSome = v.length?.isSome := by
  rw [length?, length?]
  cases hv : v.elements with
  | ok items =>
      obtain ⟨items', hw, _⟩ := h.elements_ok hv
      rw [hw]
      rfl
  | error other =>
      obtain ⟨other', hw, _⟩ := h.elements_error hv
      rw [hw]

theorem isBody (h : v.Alike μ w) : w.isBody = v.isBody := by
  cases h with
  | pair _ _ htail => exact htail.isSome_length?
  | _ => rfl

theorem isTrue (h : v.Alike μ w) : w.isTrue = v.isTrue := by
  cases h with
  | bool b => rfl
  | _ => rfl

theorem keyword (h : v.Alike μ w) : Keyword.of? w = Keyword.of? v := by
  cases h with
  | symbol name => rfl
  | _ => rfl

theorem same (hx : x.Alike μ x') (hy : y.Alike μ y') : x'.same y' = x.same y := by
  cases hx with
  | pair hstamp =>
      cases hy with
      | pair hstamp' => exact decide_eq_decide.mpr (μ.stamps.oneToOne hstamp hstamp').symm
      | _ => rfl
  | closure hstamp =>
      cases hy with
      | closure hstamp' => exact decide_eq_decide.mpr (μ.stamps.oneToOne hstamp hstamp').symm
      | _ => rfl
  | continuation hstamp =>
      cases hy with
      | continuation hstamp' => exact decide_eq_decide.mpr (μ.stamps.oneToOne hstamp hstamp').symm
      | _ => rfl
  | environment hnode =>
      cases hy with
      | environment hnode' => exact decide_eq_decide.mpr (μ.nodes.oneToOne hnode hnode').symm
      | _ => rfl
  | _ => cases hy <;> rfl

theorem equivalent (hx : x.Alike μ x') (hy : y.Alike μ y') :
    x'.equivalent y' = x.equivalent y := by
  unfold Value.equivalent
  rw [hx.same hy]
  cases hx with
  | number m => cases hy <;> rfl
  | _ => rfl

theorem passedValue (h : v.Alike μ w) :
    (Config.passedValue v).Alike μ (Config.passedValue w) := by
  cases h with
  | pair _ hhead _ => exact hhead
  | _ => exact .void

end Value.Alike

end SchemeMachine
