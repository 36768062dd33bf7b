import Mathlib.Order.WithBotTop
import SchemeMachine.Machine.Primitive
import SchemeMachine.Proofs.Number.Rounding

/-!
# Comparing numbers and telling values apart

A number other than NaN stands for a point of the rational line extended by two infinities, an
integer for itself and a finite double for its exact value (`Number.exactValue?`).  The
procedures `<` and `=` compare these points, so that they inherit the laws of a linear order,
also for integers that lie between two neighbouring doubles.

`eq?` and `eqv?` are defined on all values.  Each of them is the kernel of a function: two
values are the same if they have the same `Value.identity`, and equivalent if they have the
same `Value.worth`.  So both are equivalence relations, and the one implies the other because
the identity of a value determines its worth.
-/

namespace SchemeMachine

namespace Double

/-! ## The parts of a double -/

/-- Whether the sign of a double is a minus. -/
def isNegative : Double → Bool
  | nan => false
  | infinite negative => negative
  | finite negative _ _ _ => negative

/-- Whether a double is one of the two zeros. -/
def isZero : Double → Bool
  | finite _ m _ _ => m = 0
  | _ => false

/-- Two finite doubles of one value differ at most in the sign of a zero. -/
theorem parts_eq_of_toRat_eq {s t : Bool} {m n : Nat} {e f : Int} (h : Canonical m e)
    (h' : Canonical n f) (heq : toRat s m e = toRat t n f) (hsign : m = 0 → s = t) :
    s = t ∧ m = n ∧ e = f := by
  have hst : s = t := by
    by_contra hne
    have hpos := magnitude_pos (fun hm => hne (hsign hm)) e
    have hnonneg := magnitude_nonneg n f
    cases s <;> cases t
    · exact hne rfl
    · simp only [toRat, if_true, Bool.false_eq_true, if_false] at heq
      linarith
    · simp only [toRat, if_true, Bool.false_eq_true, if_false] at heq
      linarith
    · exact hne rfl
  subst hst
  refine ⟨rfl, parts_eq_of_magnitude_eq h h' ?_⟩
  cases s with
  | false => exact heq
  | true => exact neg_injective heq

end Double

/-! ## The order of the extended line -/

namespace Place

/-- A place as a point of the extended rational line. -/
def extended : Place → WithBotTop ℚ
  | below => ⊥
  | real q => q
  | above => ⊤

theorem extended_injective : Function.Injective extended := by
  intro p q h
  cases p <;> cases q <;>
    simp_all [extended, WithBotTop.coe_injective.eq_iff, (WithBotTop.coe_ne_bot _).symm,
      (WithBotTop.coe_ne_top _).symm]

theorem lt_iff (p q : Place) : p.lt q = true ↔ p.extended < q.extended := by
  cases p <;> cases q <;> simp [lt, extended, bot_lt_iff_ne_bot, lt_top_iff_ne_top]

end Place

namespace Number

/-- Whether a number is NaN. -/
def isNaN : Number → Bool
  | inexact .nan => true
  | _ => false

/-- The point of the extended rational line that a number stands for.  NaN stands for none. -/
def exactValue? : Number → Option (WithBotTop ℚ)
  | exact n => some ((n : ℚ) : WithBotTop ℚ)
  | inexact .nan => none
  | inexact (.infinite negative) => some (if negative then ⊥ else ⊤)
  | inexact (.finite negative m e _) =>
    some (((if negative then -1 else 1) * ((m : ℚ) * 2 ^ e) : ℚ) : WithBotTop ℚ)

theorem exactValue?_eq (x : Number) : x.exactValue? = x.place?.map Place.extended := by
  cases x with
  | exact n => rfl
  | inexact x =>
      cases x with
      | nan => rfl
      | infinite negative => cases negative <;> rfl
      | finite negative m e h =>
          cases negative <;> simp [exactValue?, place?, Place.extended, Double.toRat,
            Double.magnitude]

theorem exactValue?_eq_none {x : Number} : x.exactValue? = none ↔ x.isNaN = true := by
  cases x with
  | exact n => simp [exactValue?, isNaN]
  | inexact x => cases x <;> simp [exactValue?, isNaN]

theorem isNaN_iff {x : Number} : x.isNaN = true ↔ x = inexact .nan := by
  cases x with
  | exact n => simp [isNaN]
  | inexact x => cases x <;> simp [isNaN]

theorem lt_iff {x y : Number} :
    x.lt y = true ↔ ∃ p q, x.exactValue? = some p ∧ y.exactValue? = some q ∧ p < q := by
  unfold lt
  rw [exactValue?_eq, exactValue?_eq]
  cases x.place? <;> cases y.place? <;> simp [Place.lt_iff]

theorem equals_iff {x y : Number} :
    x.equals y = true ↔ ∃ p, x.exactValue? = some p ∧ y.exactValue? = some p := by
  unfold equals
  rw [exactValue?_eq, exactValue?_eq]
  cases x.place? <;> cases y.place? <;> simp [Place.extended_injective.eq_iff, eq_comm]

section Order

variable {x y : Number} {p q : WithBotTop ℚ}

theorem lt_iff_of_some (hx : x.exactValue? = some p) (hy : y.exactValue? = some q) :
    x.lt y = true ↔ p < q := by
  simp [lt_iff, hx, hy]

theorem equals_iff_of_some (hx : x.exactValue? = some p) (hy : y.exactValue? = some q) :
    x.equals y = true ↔ p = q := by
  rw [equals_iff, hx, hy]
  constructor
  · rintro ⟨r, hp, hq⟩
    exact (Option.some.inj hp).trans (Option.some.inj hq).symm
  · rintro rfl
    exact ⟨p, rfl, rfl⟩

theorem exists_exactValue? (h : x.isNaN = false) : ∃ p, x.exactValue? = some p := by
  apply Option.ne_none_iff_exists'.mp
  rw [Ne, exactValue?_eq_none, h]
  exact Bool.false_ne_true

/-- A comparison is negative exactly if the first number is the smaller one. -/
theorem compare_neg_iff (x y : Number) : x.compare y < 0 ↔ x.lt y = true := by
  unfold compare
  split
  · next hgreater =>
      obtain ⟨q, p, hy, hx, hlt⟩ := lt_iff.mp hgreater
      simp [lt_iff_of_some hx hy, hlt.le]
  · split <;> simp_all

end Order

/-! ## The identity of a number -/

theorem eq_of_equals {a b : Double} (h : (inexact a).equals (inexact b) = true)
    (hsign : a.isZero = true → a.isNegative = b.isNegative) : a = b := by
  cases a with
  | nan => cases h
  | infinite s =>
      cases b with
      | nan => cases h
      | infinite t =>
          cases s <;> cases t
          · rfl
          · cases h
          · cases h
          · rfl
      | finite t n f h' => cases s <;> cases h
  | finite s m e hm =>
      cases b with
      | nan => cases h
      | infinite t => cases t <;> cases h
      | finite t n f hn =>
          have hvalue : Double.toRat s m e = Double.toRat t n f := by
            simpa [equals, place?] using h
          obtain ⟨rfl, rfl, rfl⟩ := Double.parts_eq_of_toRat_eq hm hn hvalue
            fun hzero => hsign (decide_eq_true hzero)
          rfl

/-- Two numbers are the same if they are the same integer, or if they are both inexact and
either both NaN, or equal with the same sign if they are zero. -/
theorem same_iff (x y : Number) :
    x.same y = true ↔ (∃ n, x = exact n ∧ y = exact n) ∨
      ∃ a b, x = inexact a ∧ y = inexact b ∧
        (x.isNaN = true ∧ y.isNaN = true ∨
          x.equals y = true ∧ (a.isZero = true → a.isNegative = b.isNegative)) := by
  rw [same, decide_eq_true_eq]
  constructor
  · rintro rfl
    cases x with
    | exact n => exact .inl ⟨n, rfl, rfl⟩
    | inexact a =>
        refine .inr ⟨a, a, rfl, rfl, ?_⟩
        cases hvalue : exactValue? (inexact a) with
        | none => exact .inl ⟨exactValue?_eq_none.mp hvalue, exactValue?_eq_none.mp hvalue⟩
        | some p => exact .inr ⟨(equals_iff_of_some hvalue hvalue).mpr rfl, fun _ => rfl⟩
  · rintro (⟨n, rfl, rfl⟩ | ⟨a, b, rfl, rfl, ⟨ha, hb⟩ | ⟨hequals, hsign⟩⟩)
    · rfl
    · cases a <;> cases b <;> simp_all [isNaN]
    · rw [eq_of_equals hequals hsign]

end Number

namespace Value

/-! ## The identity of a value -/

/-- A value without the parts that do not matter for its identity: an object is known by its
stamp. -/
def identity : Value → Value
  | pair stamp _ _ => pair stamp nil nil
  | closure stamp _ _ _ => closure stamp nil nil Store.global
  | continuation stamp _ => continuation stamp []
  | other => other

theorem same_iff (x y : Value) : x.same y = true ↔ x.identity = y.identity := by
  cases x <;> cases y <;> simp [same, identity, Number.same]

theorem same_equivalence : Equivalence fun x y : Value => x.same y = true := by
  simp only [same_iff]
  exact eq_equivalence.comap identity

theorem equivalent_numbers (m n : Number) :
    (number m).equivalent (number n) = true ↔ m.exactValue? = n.exactValue? := by
  rw [equivalent, Bool.or_eq_true]
  constructor
  · rintro (hsame | hequals)
    · rw [of_decide_eq_true hsame]
    · obtain ⟨p, hm, hn⟩ := Number.equals_iff.mp hequals
      rw [hm, hn]
  · intro hvalue
    cases hm : m.exactValue? with
    | none =>
        have hnan := Number.isNaN_iff.mp (Number.exactValue?_eq_none.mp hm)
        have hnan' := Number.isNaN_iff.mp (Number.exactValue?_eq_none.mp (hvalue.symm.trans hm))
        rw [hnan, hnan']
        exact .inl rfl
    | some p => exact .inr (Number.equals_iff.mpr ⟨p, hm, hvalue.symm.trans hm⟩)

/-- What two equivalent values have in common: numbers the point that they stand for, and other
values their identity. -/
def worth : Value → Value ⊕ Option (WithBotTop ℚ)
  | number n => .inr n.exactValue?
  | other => .inl other.identity

theorem equivalent_iff (x y : Value) : x.equivalent y = true ↔ x.worth = y.worth := by
  cases x with
  | number m =>
      cases y with
      | number n => rw [equivalent_numbers, worth, worth, Sum.inr.injEq]
      | _ => simp [equivalent, same, worth]
  | _ => cases y <;> simp [equivalent, same, worth, identity]

theorem equivalent_equivalence : Equivalence fun x y : Value => x.equivalent y = true := by
  simp only [equivalent_iff]
  exact eq_equivalence.comap worth

end Value

namespace Primitive

/-! ## The procedures -/

/-- The procedure answers this about two values, in every state, and leaves the state as it
is. -/
def Answers (p : Primitive) (x y : Value) (answer : Bool) : Prop :=
  ∀ (arguments : Value) (sh : Shared),
    p.perform arguments [x, y] sh = (.ok (.value (.bool answer)), sh)

/-- The procedure answers true about two values. -/
def Holds (p : Primitive) (x y : Value) : Prop :=
  p.Answers x y true

theorem Answers.holds_iff {p : Primitive} {x y : Value} {answer : Bool}
    (h : p.Answers x y answer) : p.Holds x y ↔ answer = true := by
  constructor
  · intro hholds
    have hsame := (h .nil .initial).symm.trans (hholds .nil .initial)
    injection hsame with hreply
    injection hreply with hvalue
    injection hvalue with hbool
    injection hbool
  · rintro rfl
    exact h

theorem answers_less (x y : Number) : less.Answers (.number x) (.number y) (x.lt y) := by
  intro arguments sh
  have hless : decide (x.compare y < 0) = x.lt y :=
    Bool.eq_iff_iff.mpr (by rw [decide_eq_true_eq, Number.compare_neg_iff])
  simp only [perform, Value.compare, Value.bothNumbers, Except.map, hless]
  rfl

theorem answers_equal (x y : Number) : equal.Answers (.number x) (.number y) (x.equals y) :=
  fun _ _ => rfl

theorem answers_eq (x y : Value) : eq.Answers x y (x.same y) :=
  fun _ _ => rfl

theorem answers_eqv (x y : Value) : eqv.Answers x y (x.equivalent y) :=
  fun _ _ => rfl

end Primitive

namespace Number

open Primitive (answers_less answers_equal)

/-- Whether `(< x y)` holds. -/
def IsLess (x y : Number) : Prop :=
  Primitive.less.Holds (.number x) (.number y)

/-- Whether `(= x y)` holds. -/
def IsEqual (x y : Number) : Prop :=
  Primitive.equal.Holds (.number x) (.number y)

variable {x y z : Number}

theorem isLess_iff :
    x.IsLess y ↔ ∃ p q, x.exactValue? = some p ∧ y.exactValue? = some q ∧ p < q := by
  rw [IsLess, (answers_less x y).holds_iff, lt_iff]

theorem isEqual_iff : x.IsEqual y ↔ ∃ p, x.exactValue? = some p ∧ y.exactValue? = some p := by
  rw [IsEqual, (answers_equal x y).holds_iff, equals_iff]

theorem isLess_trichotomy (hx : x.isNaN = false) (hy : y.isNaN = false) :
    x.IsLess y ∧ ¬ x.IsEqual y ∧ ¬ y.IsLess x ∨ ¬ x.IsLess y ∧ x.IsEqual y ∧ ¬ y.IsLess x ∨
      ¬ x.IsLess y ∧ ¬ x.IsEqual y ∧ y.IsLess x := by
  obtain ⟨p, hp⟩ := exists_exactValue? hx
  obtain ⟨q, hq⟩ := exists_exactValue? hy
  simp only [IsLess, IsEqual, (answers_less _ _).holds_iff, (answers_equal _ _).holds_iff,
    lt_iff_of_some hp hq, lt_iff_of_some hq hp, equals_iff_of_some hp hq]
  rcases lt_trichotomy p q with hlt | heq | hgt
  · exact .inl ⟨hlt, hlt.ne, hlt.asymm⟩
  · exact .inr (.inl ⟨heq.not_lt, heq, heq.not_gt⟩)
  · exact .inr (.inr ⟨hgt.asymm, hgt.ne', hgt⟩)

theorem not_compared_of_isNaN (h : x.isNaN = true ∨ y.isNaN = true) :
    ¬ x.IsLess y ∧ ¬ x.IsEqual y ∧ ¬ y.IsLess x := by
  simp only [isLess_iff, isEqual_iff]
  rcases h with h | h <;> simp [exactValue?_eq_none.mpr h]

theorem IsLess.trans (h : x.IsLess y) (h' : y.IsLess z) : x.IsLess z := by
  obtain ⟨p, q, hp, hq, hlt⟩ := isLess_iff.mp h
  obtain ⟨q', r, hq', hr, hlt'⟩ := isLess_iff.mp h'
  obtain rfl : q = q' := Option.some.inj (hq.symm.trans hq')
  exact isLess_iff.mpr ⟨p, r, hp, hr, hlt.trans hlt'⟩

theorem isEqual_equivalence :
    Equivalence fun x y : {x : Number // x.isNaN = false} => x.val.IsEqual y.val where
  refl x := by
    obtain ⟨p, hp⟩ := exists_exactValue? x.property
    exact isEqual_iff.mpr ⟨p, hp, hp⟩
  symm h := by
    obtain ⟨p, hx, hy⟩ := isEqual_iff.mp h
    exact isEqual_iff.mpr ⟨p, hy, hx⟩
  trans h h' := by
    obtain ⟨p, hx, hy⟩ := isEqual_iff.mp h
    obtain ⟨q, hy', hz⟩ := isEqual_iff.mp h'
    obtain rfl : p = q := Option.some.inj (hy.symm.trans hy')
    exact isEqual_iff.mpr ⟨p, hx, hz⟩

theorem IsLess.congr {x' y' : Number} (h : x.IsLess y) (hx : x.IsEqual x') (hy : y.IsEqual y') :
    x'.IsLess y' := by
  obtain ⟨p, hp, hp'⟩ := isEqual_iff.mp hx
  obtain ⟨q, hq, hq'⟩ := isEqual_iff.mp hy
  rw [isLess_iff, hp', hq']
  rwa [isLess_iff, hp, hq] at h

theorem exactValue?_eq_iff :
    x.exactValue? = y.exactValue? ↔ x.IsEqual y ∨ x.isNaN = true ∧ y.isNaN = true := by
  rw [isEqual_iff, ← exactValue?_eq_none, ← exactValue?_eq_none]
  constructor
  · intro h
    cases hx : x.exactValue? with
    | none => exact .inr ⟨rfl, h.symm.trans hx⟩
    | some p => exact .inl ⟨p, rfl, h.symm.trans hx⟩
  · rintro (⟨p, hx, hy⟩ | ⟨hx, hy⟩)
    · exact hx.trans hy.symm
    · exact hx.trans hy.symm

end Number

/-- **Comparison and equivalence are coherent across exactness.**  About two numbers the
procedures `<` and `=` always have an answer, and so have `eq?` and `eqv?` about any two values.

* The numbers are compared by their exact values: of two that are not NaN exactly one of
  `(< x y)`, `(= x y)` and `(< y x)` holds, `<` is transitive, `=` is an equivalence and `<`
  respects it.  If one of the numbers is NaN, none of the three holds.
* `eq?` and `eqv?` are equivalences on all values, and `eq?` implies `eqv?`.
* Two numbers are `eqv?` if they are `=` or both NaN.  They are `eq?` if they are the same
  integer, or both inexact and either both NaN, or equal and of one sign if they are zero. -/
theorem comparison_and_equivalence_cohere :
    (∀ x y : Number, (∃ answer, Primitive.less.Answers (.number x) (.number y) answer) ∧
      ∃ answer, Primitive.equal.Answers (.number x) (.number y) answer) ∧
    (∀ x y : Value, (∃ answer, Primitive.eq.Answers x y answer) ∧
      ∃ answer, Primitive.eqv.Answers x y answer) ∧
    (∀ x y : Number,
      (x.IsLess y ↔ ∃ p q, x.exactValue? = some p ∧ y.exactValue? = some q ∧ p < q) ∧
      (x.IsEqual y ↔ ∃ p, x.exactValue? = some p ∧ y.exactValue? = some p)) ∧
    (∀ x y : Number, x.isNaN = false → y.isNaN = false →
      x.IsLess y ∧ ¬ x.IsEqual y ∧ ¬ y.IsLess x ∨ ¬ x.IsLess y ∧ x.IsEqual y ∧ ¬ y.IsLess x ∨
        ¬ x.IsLess y ∧ ¬ x.IsEqual y ∧ y.IsLess x) ∧
    (∀ x y : Number, x.isNaN = true ∨ y.isNaN = true →
      ¬ x.IsLess y ∧ ¬ x.IsEqual y ∧ ¬ y.IsLess x) ∧
    (∀ x y z : Number, x.IsLess y → y.IsLess z → x.IsLess z) ∧
    (Equivalence fun x y : {x : Number // x.isNaN = false} => x.val.IsEqual y.val) ∧
    (∀ x x' y y' : Number, x.IsEqual x' → y.IsEqual y' → x.IsLess y → x'.IsLess y') ∧
    Equivalence Primitive.eq.Holds ∧ Equivalence Primitive.eqv.Holds ∧
    (∀ x y : Value, Primitive.eq.Holds x y → Primitive.eqv.Holds x y) ∧
    (∀ x y : Number, Primitive.eqv.Holds (.number x) (.number y) ↔
      x.IsEqual y ∨ x.isNaN = true ∧ y.isNaN = true) ∧
    (∀ x y : Number, Primitive.eq.Holds (.number x) (.number y) ↔
      (∃ n, x = .exact n ∧ y = .exact n) ∨
        ∃ a b, x = .inexact a ∧ y = .inexact b ∧
          (x.isNaN = true ∧ y.isNaN = true ∨
            x.IsEqual y ∧ (a.isZero = true → a.isNegative = b.isNegative))) := by
  have heq : Primitive.eq.Holds = fun x y => x.same y = true := by
    funext x y
    exact propext (Primitive.answers_eq x y).holds_iff
  have heqv : Primitive.eqv.Holds = fun x y => x.equivalent y = true := by
    funext x y
    exact propext (Primitive.answers_eqv x y).holds_iff
  rw [heq, heqv]
  refine ⟨fun x y => ⟨⟨_, Primitive.answers_less x y⟩, _, Primitive.answers_equal x y⟩,
    fun x y => ⟨⟨_, Primitive.answers_eq x y⟩, _, Primitive.answers_eqv x y⟩,
    fun x y => ⟨Number.isLess_iff, Number.isEqual_iff⟩,
    fun x y => Number.isLess_trichotomy, fun x y => Number.not_compared_of_isNaN,
    fun x y z => Number.IsLess.trans, Number.isEqual_equivalence,
    fun x x' y y' hx hy h => h.congr hx hy, Value.same_equivalence,
    Value.equivalent_equivalence, ?_, ?_, ?_⟩
  · intro x y hsame
    exact Bool.or_eq_true_iff.mpr (.inl hsame)
  · intro x y
    exact (Value.equivalent_numbers x y).trans Number.exactValue?_eq_iff
  · intro x y
    simp only [Number.IsEqual, (Primitive.answers_equal x y).holds_iff]
    exact x.same_iff y

end SchemeMachine
