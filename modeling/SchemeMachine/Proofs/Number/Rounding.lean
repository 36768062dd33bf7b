import Mathlib.Algebra.Order.Field.Power
import Mathlib.Data.Rat.Cast.Order
import Mathlib.Tactic.FieldSimp
import Mathlib.Tactic.Linarith
import Mathlib.Tactic.Positivity
import Mathlib.Tactic.Ring
import SchemeMachine.Number.Decimal

/-!
# Rounding a number that needs no rounding

A finite double is a whole number of units of a power of two, and which power is
decided by its size alone: `gridExponent` finds the one that a canonical double is
written with.  So rounding the exact value of a double gives the double back
(`round_magnitude`), and a value has only one canonical form (`parts_eq_of_magnitude_eq`).
-/

namespace SchemeMachine

namespace Double

/-! ## The size of a number in powers of two -/

theorem eq_natAbs_div_den {x : Rat} (hx : 0 < x) : x = (x.num.natAbs : Rat) / (x.den : Rat) := by
  have hnum : ((x.num.natAbs : Int) : Rat) = (x.num : Rat) := by
    rw [Int.natAbs_of_nonneg (Rat.num_nonneg.mpr hx.le)]
  rw [← Int.cast_natCast, hnum, Rat.num_div_den]

/-- The powers that numerator and denominator lie above tell the size of a quotient up to a
factor of the base. -/
theorem quotient_bounds {base n d : Rat} (hbase : 0 < base) {p q : Int}
    (hn : base ^ p ≤ n ∧ n < base ^ (p + 1)) (hd : base ^ q ≤ d ∧ d < base ^ (q + 1)) :
    base ^ (p - q - 1) < n / d ∧ n / d < base ^ (p - q + 1) := by
  have hnpos : 0 < n := lt_of_lt_of_le (zpow_pos hbase p) hn.1
  have hdpos : 0 < d := lt_of_lt_of_le (zpow_pos hbase q) hd.1
  constructor
  · rw [show p - q - 1 = p - (q + 1) by ring, zpow_sub₀ hbase.ne']
    exact div_lt_div₀' hn.1 hd.2 hnpos hdpos
  · rw [show p - q + 1 = p + 1 - q by ring, zpow_sub₀ hbase.ne']
    exact div_lt_div₀ hn.2 hd.1 (by positivity) (by positivity)

theorem log2_bounds {n : Nat} (hn : n ≠ 0) :
    (2 : Rat) ^ (n.log2 : Int) ≤ n ∧ (n : Rat) < (2 : Rat) ^ ((n.log2 : Int) + 1) := by
  constructor
  · rw [zpow_natCast]
    exact_mod_cast Nat.log2_self_le hn
  · rw [← Nat.cast_succ, zpow_natCast]
    exact_mod_cast Nat.lt_log2_self

theorem binaryOrder_bounds {x : Rat} (hx : 0 < x) :
    (2 : Rat) ^ binaryOrder x ≤ x ∧ x < (2 : Rat) ^ (binaryOrder x + 1) := by
  have hnum : x.num.natAbs ≠ 0 := Int.natAbs_ne_zero.mpr (Rat.num_pos.mpr hx).ne'
  obtain ⟨hlow, hhigh⟩ := quotient_bounds two_pos (log2_bounds hnum) (log2_bounds x.den_nz)
  rw [← eq_natAbs_div_den hx] at hlow hhigh
  unfold binaryOrder
  dsimp only
  split
  · next hle => exact ⟨hle, hhigh⟩
  · next hgt =>
      rw [sub_add_cancel]
      exact ⟨hlow.le, not_le.mp hgt⟩

/-- The order is the only power of two with the number between it and the next one. -/
theorem binaryOrder_eq {x : Rat} {k : Int} (hlow : (2 : Rat) ^ k ≤ x)
    (hhigh : x < (2 : Rat) ^ (k + 1)) : binaryOrder x = k := by
  have hpos : 0 < x := lt_of_lt_of_le (by positivity) hlow
  obtain ⟨hlow', hhigh'⟩ := binaryOrder_bounds hpos
  have htwo : (1 : Rat) < 2 := by norm_num
  have hle : k < binaryOrder x + 1 :=
    (zpow_lt_zpow_iff_right₀ htwo).mp (lt_of_le_of_lt hlow hhigh')
  have hge : binaryOrder x < k + 1 :=
    (zpow_lt_zpow_iff_right₀ htwo).mp (lt_of_le_of_lt hlow' hhigh)
  omega

/-! ## Exact values -/

theorem cast_mantissaBound : (mantissaBound : Rat) = (2 : Rat) ^ (53 : Int) := by
  norm_num [mantissaBound]

theorem cast_normalMantissa : (normalMantissa : Rat) = (2 : Rat) ^ (52 : Int) := by
  norm_num [normalMantissa]

theorem two_zpow_add (k l : Int) : (2 : Rat) ^ (k + l) = (2 : Rat) ^ k * (2 : Rat) ^ l :=
  zpow_add₀ (by norm_num) k l

theorem two_zpow_le {k l : Int} (h : k ≤ l) : (2 : Rat) ^ k ≤ (2 : Rat) ^ l :=
  zpow_le_zpow_right₀ (by norm_num) h

theorem magnitude_nonneg (m : Nat) (e : Int) : 0 ≤ magnitude m e := by
  unfold magnitude
  positivity

theorem magnitude_pos {m : Nat} (hm : m ≠ 0) (e : Int) : 0 < magnitude m e := by
  have hpos : (0 : Rat) < (m : Rat) := by exact_mod_cast Nat.pos_of_ne_zero hm
  unfold magnitude
  positivity

/-- A canonical double is written with the exponent of the grid it lies on. -/
theorem gridExponent_magnitude {m : Nat} {e : Int} (h : Canonical m e) (hm : m ≠ 0) :
    gridExponent (magnitude m e) = e := by
  obtain ⟨hbound, hmin, _, hform⟩ := h
  have hpower : (0 : Rat) < (2 : Rat) ^ e := by positivity
  unfold gridExponent
  by_cases hnormal : normalMantissa ≤ m
  · have horder : binaryOrder (magnitude m e) = 52 + e := by
      apply binaryOrder_eq
      · rw [two_zpow_add, ← cast_normalMantissa]
        exact mul_le_mul_of_nonneg_right (by exact_mod_cast hnormal) hpower.le
      · rw [show (52 : Int) + e + 1 = 53 + e by ring, two_zpow_add, ← cast_mantissaBound]
        exact mul_lt_mul_of_pos_right (by exact_mod_cast hbound) hpower
    rw [horder]
    omega
  · -- a subnormal number lies below the grid of the least normal ones
    have hsub : e = minExponent := hform.resolve_left hnormal
    have hsmall : magnitude m e < (2 : Rat) ^ (52 + e) := by
      rw [two_zpow_add, ← cast_normalMantissa]
      exact mul_lt_mul_of_pos_right (by exact_mod_cast not_le.mp hnormal) hpower
    have horder : binaryOrder (magnitude m e) < 52 + e := by
      have hlow := (binaryOrder_bounds (magnitude_pos hm e)).1
      exact (zpow_lt_zpow_iff_right₀ (by norm_num)).mp (lt_of_le_of_lt hlow hsmall)
    omega

theorem roundHalfEven_intCast (n : Int) : roundHalfEven (n : Rat) = n := by
  simp [roundHalfEven, Rat.floor_intCast]

/-- The value of a finite double rounds to it. -/
theorem round_magnitude {m : Nat} {e : Int} (h : Canonical m e) (hm : m ≠ 0) (negative : Bool) :
    round negative (magnitude m e) = finite negative m e h := by
  have hscaled : magnitude m e / (2 : Rat) ^ e = ((m : Int) : Rat) := by
    have hpower : (2 : Rat) ^ e ≠ 0 := by positivity
    rw [magnitude, mul_div_assoc, div_self hpower, mul_one, Int.cast_natCast]
  rw [round, if_neg (magnitude_pos hm e).ne', gridExponent_magnitude h hm, hscaled,
    roundHalfEven_intCast, Int.toNat_natCast, ofParts, dif_pos h]

theorem magnitude_eq_zero {m : Nat} {e : Int} : magnitude m e = 0 ↔ m = 0 := by
  constructor
  · intro hzero
    by_contra hm
    exact (magnitude_pos hm e).ne' hzero
  · rintro rfl
    simp [magnitude]

/-- A magnitude has only one canonical form. -/
theorem parts_eq_of_magnitude_eq {m n : Nat} {e f : Int} (h : Canonical m e)
    (h' : Canonical n f) (heq : magnitude m e = magnitude n f) : m = n ∧ e = f := by
  by_cases hm : m = 0
  · have hn : n = 0 := by rwa [hm, magnitude_eq_zero.mpr rfl, eq_comm, magnitude_eq_zero] at heq
    -- zero has no full mantissa, so its exponent is the least one
    have hleast : e = minExponent := h.2.2.2.resolve_left (by rw [hm]; decide)
    have hleast' : f = minExponent := h'.2.2.2.resolve_left (by rw [hn]; decide)
    exact ⟨hm.trans hn.symm, hleast.trans hleast'.symm⟩
  · have hn : n ≠ 0 := by rwa [Ne, ← magnitude_eq_zero, ← heq, magnitude_eq_zero]
    have hround := round_magnitude h hm false
    rw [heq, round_magnitude h' hn] at hround
    injection hround with _ hmantissa hexponent
    exact ⟨hmantissa.symm, hexponent.symm⟩

end Double

end SchemeMachine
