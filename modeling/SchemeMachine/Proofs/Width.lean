import SchemeMachine.Proofs.Code

/-!
# The width of an expression

How many frames an expression can have on the stack at once, before anything it calls
adds its own, can be read off the expression: `Value.width`.  It counts the frames that
wait while a part is evaluated, and nothing for a part that takes the place of the
whole: the arms of an `if` and the last expression of a sequence.

The bodies of procedures are not counted in the width of the expression they stand in.
`Value.inner` is the largest width of a body that occurs in an expression.
-/

namespace SchemeMachine

namespace Width

/-- The largest of some widths. -/
def widest : List Nat → Nat
  | [] => 0
  | w :: ws => max w (widest ws)

/-- The width of a sequence of expressions.  A frame for the others waits while one is
evaluated that is not the last. -/
def sequence : List Nat → Nat
  | [] => 0
  | [w] => w
  | w :: ws => max (1 + w) (sequence ws)

/-- The width of the operands of a call.  While one of them is evaluated there wait the
operator, the operands after it, and the arguments before it. -/
def operands : List Nat → Nat
  | [] => 0
  | w :: ws => max (ws.length + 2 + w) (operands ws)

theorem le_widest {w : Nat} {ws : List Nat} (h : w ∈ ws) : w ≤ widest ws := by
  induction ws with
  | nil => cases h
  | cons w' ws ih =>
      simp only [widest]
      rcases List.mem_cons.mp h with rfl | hmem
      · omega
      · have hle := ih hmem
        omega

end Width

namespace Value

/-- Whether a chain of pairs is a proper list. -/
def isProper (v : Value) : Bool :=
  v.length?.isSome

mutual

/-- The greatest number of frames that an expression has on the stack at once. -/
def width : Value → Nat
  | .pair stamp head tail =>
    match Form.of (.pair stamp head tail) with
    | .constant _ | .symbol _ | .quotation _ | .lambda .. => 0
    | .branch .. =>
      match tail.widths with
      | test :: arms => max (1 + test) (Width.widest arms)
      | [] => 0
    | .sequence _ =>
      if tail.isProper then Width.sequence tail.widths else 1 + Width.widest tail.widths
    | .procedure .. => 1
    | .definition .. | .assignment .. => 1 + Width.widest (tail.widths.drop 1)
    | .application .. =>
      if tail.isProper then max (1 + head.width) (Width.operands tail.widths)
      else 1 + max head.width (Width.widest tail.widths)
    | .malformed => 1 + max head.width (Width.widest tail.widths)
  | _ => 0

/-- The widths of the elements of a chain of pairs. -/
def widths : Value → List Nat
  | .pair _ head tail => head.width :: tail.widths
  | _ => []

end

mutual

/-- The largest width of a body that a procedure in the expression may have. -/
def inner : Value → Nat
  | .pair stamp head tail =>
    match Form.of (.pair stamp head tail) with
    | .quotation _ => 0
    | .lambda .. | .procedure .. =>
      max (Width.sequence (tail.widths.drop 1)) (Width.widest (tail.inners.drop 1))
    | _ => max head.inner (Width.widest tail.inners)
  | _ => 0

/-- The largest widths of bodies in the elements of a chain of pairs. -/
def inners : Value → List Nat
  | .pair _ head tail => head.inner :: tail.inners
  | _ => []

end

/-- The width of a chain of expressions that are evaluated one after another. -/
def sequenceWidth (expressions : Value) : Nat :=
  if expressions.isProper then Width.sequence expressions.widths
  else 1 + Width.widest expressions.widths

/-- The width of a chain of operands.  Of one that is no list none is evaluated. -/
def operandsWidth (operands : Value) : Nat :=
  if operands.isProper then Width.operands operands.widths else 0

/-- The largest width of a body in a chain of expressions. -/
def innerWidth (expressions : Value) : Nat :=
  Width.widest expressions.inners

/-- A bound for the frames of everything that these expressions can lead to. -/
def bound : List Value → Nat
  | [] => 1
  | e :: es => max (max e.width e.inner) (bound es)

/-! ## Chains -/

theorem isProper_pair (stamp : Nat) (head tail : Value) :
    isProper (.pair stamp head tail) = tail.isProper := by
  unfold isProper length?
  rw [elements]
  cases tail.elements <;> rfl

theorem isProper_of_elements {v : Value} {found : List Value} (h : v.elements = .ok found) :
    v.isProper = true := by
  rw [isProper, length?, h]
  rfl

theorem isProper_of_isBody {body : Value} (h : body.isBody = true) : body.isProper = true := by
  cases body with
  | pair stamp head tail =>
      rw [isProper_pair]
      exact h
  | _ => cases h

theorem widths_eq (v : Value) : v.widths = v.items.map width := by
  cases v with
  | pair stamp head tail => rw [widths, items, List.map_cons, widths_eq tail]
  | _ => rfl

theorem inners_eq (v : Value) : v.inners = v.items.map inner := by
  cases v with
  | pair stamp head tail => rw [inners, items, List.map_cons, inners_eq tail]
  | _ => rfl

theorem width_le_widest {v x : Value} (h : x ∈ v.items) : x.width ≤ Width.widest v.widths := by
  rw [widths_eq]
  exact Width.le_widest (List.mem_map_of_mem h)

theorem inner_le_innerWidth {v x : Value} (h : x ∈ v.items) : x.inner ≤ v.innerWidth := by
  rw [innerWidth, inners_eq]
  exact Width.le_widest (List.mem_map_of_mem h)

/-- An expression that others follow is evaluated above a frame for them. -/
theorem sequenceWidth_pair {stamp : Nat} {x rest : Value} :
    x.width ≤ sequenceWidth (.pair stamp x rest) ∧
      (rest ≠ .nil → 1 + x.width ≤ sequenceWidth (.pair stamp x rest) ∧
        rest.sequenceWidth ≤ sequenceWidth (.pair stamp x rest)) := by
  unfold sequenceWidth
  rw [isProper_pair, widths]
  by_cases hproper : rest.isProper = true
  · rw [if_pos hproper, if_pos hproper]
    cases rest with
    | nil => exact ⟨Nat.le_refl _, fun hne => absurd rfl hne⟩
    | pair inner y more =>
        simp only [widths, Width.sequence]
        omega
    | _ => cases hproper
  · rw [if_neg hproper, if_neg hproper]
    simp only [Width.widest]
    omega

theorem innerWidth_pair (stamp : Nat) (x rest : Value) :
    innerWidth (.pair stamp x rest) = max x.inner rest.innerWidth := rfl

/-! ## Forms -/

section Forms

variable {e : Value}

theorem width_branch {test yes : Value} {no : Option Value}
    (h : Form.of e = .branch test yes no) :
    1 + test.width ≤ e.width ∧ Width.widest e.afterSecond.widths ≤ e.width := by
  have hshape := Form.shape_of e
  rw [h] at hshape
  cases no with
  | none =>
      obtain ⟨_, _, _, _, rfl⟩ := hshape
      rw [width, h]
      simp only [widths, afterSecond, Width.widest]
      omega
  | some x =>
      obtain ⟨_, _, _, _, _, rfl⟩ := hshape
      rw [width, h]
      simp only [widths, afterSecond, Width.widest]
      omega

theorem inner_branch {test yes : Value} {no : Option Value}
    (h : Form.of e = .branch test yes no) :
    test.inner ≤ e.inner ∧ e.afterSecond.innerWidth ≤ e.inner := by
  have hshape := Form.shape_of e
  rw [h] at hshape
  cases no with
  | none =>
      obtain ⟨_, _, _, _, rfl⟩ := hshape
      rw [inner, h]
      simp only [innerWidth, inners, afterSecond, Width.widest]
      omega
  | some x =>
      obtain ⟨_, _, _, _, _, rfl⟩ := hshape
      rw [inner, h]
      simp only [innerWidth, inners, afterSecond, Width.widest]
      omega

theorem width_sequence {expressions : Value} (h : Form.of e = .sequence expressions) :
    e.width = expressions.sequenceWidth ∧ expressions.innerWidth ≤ e.inner := by
  have hshape := Form.shape_of e
  rw [h] at hshape
  obtain ⟨_, _, rfl⟩ := hshape
  rw [width, inner, h]
  refine ⟨rfl, ?_⟩
  simp only [innerWidth]
  omega

theorem width_procedure {name parameters body : Value}
    (h : Form.of e = .procedure name parameters body) : e.width = 1 := by
  have hshape := Form.shape_of e
  rw [h] at hshape
  obtain ⟨_, _, _, _, rfl⟩ := hshape
  rw [width, h]

/-- The bodies of the procedures that an expression makes are counted in it. -/
theorem inner_makes {parameters body : Value} (h : (Form.of e).Makes parameters body) :
    Width.sequence body.widths ≤ e.inner ∧ body.innerWidth ≤ e.inner := by
  have hshape := Form.shape_of e
  generalize hform : Form.of e = form at h hshape
  cases h with
  | lambda parameters body =>
      obtain ⟨_, _, _, rfl⟩ := hshape
      rw [inner, hform]
      simp only [widths, inners, List.drop_one, List.tail_cons, innerWidth]
      omega
  | procedure name parameters body =>
      obtain ⟨_, _, _, _, rfl⟩ := hshape
      rw [inner, hform]
      simp only [widths, inners, List.drop_one, List.tail_cons, innerWidth]
      omega

theorem width_value {name x : Value}
    (h : Form.of e = .definition name x ∨ Form.of e = .assignment name x) :
    e.width = 1 + x.width ∧ x.inner ≤ e.inner := by
  have hshape : ∃ stamp head i j, e = .pair stamp head (.pair i name (.pair j x .nil)) := by
    have hshape := Form.shape_of e
    rcases h with h | h
    · rwa [h] at hshape
    · rwa [h] at hshape
  obtain ⟨_, _, _, _, rfl⟩ := hshape
  rcases h with h | h
  · rw [width, inner, h]
    simp only [widths, inners, List.drop_one, List.tail_cons, Width.widest]
    omega
  · rw [width, inner, h]
    simp only [widths, inners, List.drop_one, List.tail_cons, Width.widest]
    omega

theorem width_application {operator operands : Value}
    (h : Form.of e = .application operator operands) :
    1 + operator.width ≤ e.width ∧ operands.operandsWidth ≤ e.width ∧
      operator.inner ≤ e.inner ∧ operands.innerWidth ≤ e.inner := by
  have hshape := Form.shape_of e
  rw [h] at hshape
  obtain ⟨_, rfl⟩ := hshape
  rw [width, inner, h]
  simp only [operandsWidth, innerWidth]
  by_cases hproper : operands.isProper = true
  · simp only [if_pos hproper]
    omega
  · simp only [if_neg hproper]
    omega

end Forms

/-! ## The bound -/

theorem one_le_bound (es : List Value) : 1 ≤ bound es := by
  induction es with
  | nil => exact Nat.le_refl 1
  | cons e es ih =>
      rw [bound]
      omega

end Value

end SchemeMachine
