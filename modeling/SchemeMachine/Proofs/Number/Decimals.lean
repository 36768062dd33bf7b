import SchemeMachine.Proofs.Number.Nearest

/-!
# Reading decimals

A decimal is read as the double nearest to its value.  The number of its digits before the
point tells at once when it is too large or too small to be rounded, and this agrees with
rounding it: `toDouble_eq_round_toRat`.  So nothing but the value of a decimal matters.

One whose value is that of a finite double is read as that double.  For every double there is
such a decimal, which is why `shortest` never gives a decimal that reads as another double:
`toDouble_shortest`.
-/

namespace SchemeMachine

namespace Decimal

/-! ## The size of a decimal in powers of ten -/

theorem digitCount_bounds {n : Nat} (hn : n ≠ 0) :
    10 ^ (digitCount n - 1) ≤ n ∧ n < 10 ^ digitCount n := by
  have hpos : 0 < digitCount n := Nat.length_toDigits_pos
  constructor
  · by_cases hone : digitCount n - 1 = 0
    · rw [hone, Nat.pow_zero]
      exact Nat.pos_of_ne_zero hn
    · by_contra hlt
      have hle : digitCount n ≤ digitCount n - 1 :=
        (Nat.length_toDigits_le_iff (by decide) (Nat.pos_of_ne_zero hone)).mpr (not_le.mp hlt)
      omega
  · exact (Nat.length_toDigits_le_iff (by decide) hpos).mp (Nat.le_refl _)

/-- The count of digits is the only power of ten with the number below it and not below
the one before. -/
theorem digitCount_eq {n k : Nat} (hlow : 10 ^ k ≤ n) (hhigh : n < 10 ^ (k + 1)) :
    digitCount n = k + 1 := by
  have hn : n ≠ 0 := fun hzero => by
    rw [hzero] at hlow
    exact absurd hlow (not_le.mpr (Nat.pow_pos (by decide)))
  obtain ⟨hlow', hhigh'⟩ := digitCount_bounds hn
  have hle : k < digitCount n :=
    (Nat.pow_lt_pow_iff_right (by decide)).mp (lt_of_le_of_lt hlow hhigh')
  have hge : digitCount n - 1 < k + 1 :=
    (Nat.pow_lt_pow_iff_right (by decide)).mp (lt_of_le_of_lt hlow' hhigh)
  omega

theorem digitCount_mul_pow {n : Nat} (hn : n ≠ 0) (k : Nat) :
    digitCount (n * 10 ^ k) = digitCount n + k := by
  obtain ⟨hlow, hhigh⟩ := digitCount_bounds hn
  have hpos : 0 < digitCount n := Nat.length_toDigits_pos
  have hcount : digitCount (n * 10 ^ k) = digitCount n - 1 + k + 1 := by
    apply digitCount_eq
    · rw [Nat.pow_add]
      exact Nat.mul_le_mul_right _ hlow
    · rw [show digitCount n - 1 + k + 1 = digitCount n + k by omega, Nat.pow_add]
      exact Nat.mul_lt_mul_of_pos_right hhigh (Nat.pow_pos (by decide))
  omega

/-- The number of places that a decimal has before the point. -/
def places (d : Decimal) : Int :=
  d.exponent + (digitCount d.units : Int)

theorem toRat_bounds {d : Decimal} (hunits : d.units ≠ 0) :
    (10 : Rat) ^ (d.places - 1) ≤ d.toRat ∧ d.toRat < (10 : Rat) ^ d.places := by
  obtain ⟨hlow, hhigh⟩ := digitCount_bounds hunits
  have hpos : 0 < digitCount d.units := Nat.length_toDigits_pos
  have hten : (10 : Rat) ≠ 0 := by norm_num
  have hpower : (0 : Rat) < (10 : Rat) ^ d.exponent := by positivity
  unfold toRat places
  constructor
  · have hcast : (10 : Rat) ^ ((digitCount d.units : Int) - 1) ≤ (d.units : Rat) := by
      rw [show (digitCount d.units : Int) - 1 = ((digitCount d.units - 1 : Nat) : Int) by omega,
        zpow_natCast]
      exact_mod_cast hlow
    rw [show d.exponent + (digitCount d.units : Int) - 1 =
      ((digitCount d.units : Int) - 1) + d.exponent by ring, zpow_add₀ hten]
    exact mul_le_mul_of_nonneg_right hcast hpower.le
  · have hcast : (d.units : Rat) < (10 : Rat) ^ (digitCount d.units : Int) := by
      rw [zpow_natCast]
      exact_mod_cast hhigh
    rw [add_comm, zpow_add₀ hten]
    exact mul_lt_mul_of_pos_right hcast hpower

/-! ## The double that a decimal is read as -/

theorem toRat_nonneg (d : Decimal) : 0 ≤ d.toRat := by
  unfold toRat
  positivity

theorem two_pow_le : 2 ^ 1024 ≤ 10 ^ 309 := by
  decide +kernel

theorem two_pow_le_ten_pow : 2 ^ 1075 ≤ 10 ^ 324 := by
  decide +kernel

/-- The shortcuts for decimals that are very large or very small agree with rounding. -/
theorem toDouble_eq_round_toRat (d : Decimal) (negative : Bool) :
    d.toDouble negative = Double.round negative d.toRat := by
  have hnearest := Double.isNearest_round d.toRat_nonneg negative
  by_cases hunits : d.units = 0
  · rw [toDouble, if_pos hunits, toRat, hunits, Nat.cast_zero, zero_mul, Double.round, if_pos rfl]
  obtain ⟨hlow, hhigh⟩ := toRat_bounds hunits
  by_cases hlarge : 309 < d.places
  · have hlimit : Double.overflowLimit ≤ d.toRat := by
      calc Double.overflowLimit ≤ (2 : Rat) ^ (53 : Int) * (2 : Rat) ^ (971 : Int) := by
            rw [← Double.cast_mantissaBound]
            exact mul_le_mul_of_nonneg_right (by linarith) (by positivity)
        _ = (2 : Rat) ^ (1024 : Int) := (Double.two_zpow_add 53 971).symm
        _ ≤ (10 : Rat) ^ (309 : Int) := by exact_mod_cast two_pow_le
        _ ≤ (10 : Rat) ^ (d.places - 1) := zpow_le_zpow_right₀ (by norm_num) (by omega)
        _ ≤ d.toRat := hlow
    rw [hnearest.eq_infinite hlimit, toDouble, if_neg hunits]
    exact if_pos hlarge
  by_cases hsmall : d.places < -323
  · have hleast : 2 * d.toRat < (2 : Rat) ^ Double.minExponent := by
      calc 2 * d.toRat < 2 * (10 : Rat) ^ d.places := by linarith
        _ ≤ 2 * (10 : Rat) ^ (-324 : Int) := by
            have := zpow_le_zpow_right₀ (by norm_num : (1 : Rat) ≤ 10) (by omega : d.places ≤ -324)
            linarith
        _ ≤ 2 * (2 : Rat) ^ (-1075 : Int) := by
            have : (10 : Rat) ^ (-324 : Int) ≤ (2 : Rat) ^ (-1075 : Int) := by
              rw [zpow_neg, zpow_neg]
              exact inv_anti₀ (by positivity) (by exact_mod_cast two_pow_le_ten_pow)
            linarith
        _ = (2 : Rat) ^ (-1074 : Int) := by rw [← zpow_one_add₀ (by norm_num)]; rfl
    rw [hnearest.eq_zero d.toRat_nonneg hleast, toDouble, if_neg hunits]
    exact (if_neg hlarge).trans (if_pos hsmall)
  · rw [toDouble, if_neg hunits]
    exact (if_neg hlarge).trans (if_neg hsmall)

/-- A decimal is read as the double nearest to its value. -/
theorem isNearest_toDouble (d : Decimal) (negative : Bool) :
    Double.IsNearest negative d.toRat (d.toDouble negative) := by
  rw [toDouble_eq_round_toRat]
  exact Double.isNearest_round d.toRat_nonneg negative

/-- A decimal with the value of a finite double is read as that double. -/
theorem toDouble_of_toRat {d : Decimal} {m : Nat} {e : Int} (h : Double.Canonical m e)
    (hm : m ≠ 0) (hvalue : d.toRat = Double.magnitude m e) (negative : Bool) :
    d.toDouble negative = .finite negative m e h := by
  rw [toDouble_eq_round_toRat, hvalue, Double.round_magnitude h hm]

/-- Zeros at the end of the units, made up for by the exponent, change nothing. -/
theorem toDouble_zeros (n : Nat) (exponent : Int) (k : Nat) (negative : Bool) :
    toDouble negative ⟨n * 10 ^ k, exponent - (k : Int)⟩ = toDouble negative ⟨n, exponent⟩ := by
  have hvalue : toRat ⟨n * 10 ^ k, exponent - (k : Int)⟩ = toRat ⟨n, exponent⟩ := by
    have hpower : (10 : Rat) ^ k ≠ 0 := by positivity
    rw [toRat, toRat, zpow_sub₀ (by norm_num), zpow_natCast]
    push_cast
    field_simp
  rw [toDouble_eq_round_toRat, toDouble_eq_round_toRat, hvalue]

end Decimal

namespace Double

/-! ## The decimal of a double -/

theorem toRat_exactDecimal (m : Nat) (e : Int) : (exactDecimal m e).toRat = magnitude m e := by
  unfold exactDecimal
  split
  · next he =>
      have hpower : (2 : Rat) ^ e = (2 : Rat) ^ e.toNat := by
        rw [← zpow_natCast, Int.toNat_of_nonneg he]
      rw [Decimal.toRat, magnitude, hpower, zpow_zero, mul_one, Nat.pow_eq]
      push_cast
      rfl
  · next he =>
      have hneg : ((-e).toNat : Int) = -e := Int.toNat_of_nonneg (by omega)
      have hpower : (10 : Rat) ^ e = (5 : Rat) ^ e * (2 : Rat) ^ e := by
        rw [← mul_zpow]
        norm_num
      have hfive : (5 : Rat) ^ (-e).toNat * (5 : Rat) ^ e = 1 := by
        rw [← zpow_natCast, hneg, ← zpow_add₀ (by norm_num), neg_add_cancel, zpow_zero]
      rw [Decimal.toRat, magnitude, hpower, Nat.pow_eq]
      push_cast
      calc (m : Rat) * (5 : Rat) ^ (-e).toNat * ((5 : Rat) ^ e * (2 : Rat) ^ e)
          = (m : Rat) * ((5 : Rat) ^ (-e).toNat * (5 : Rat) ^ e) * (2 : Rat) ^ e := by ring
        _ = (m : Rat) * (2 : Rat) ^ e := by rw [hfive, mul_one]

theorem toDouble_of_readsBack {m : Nat} {e : Int} {d : Decimal} (h : readsBack m e d = true) :
    ∃ hcanonical, d.toDouble false = finite false m e hcanonical := by
  unfold readsBack at h
  split at h
  · next m' e' hcanonical heq =>
      simp only [Bool.and_eq_true, decide_eq_true_eq] at h
      obtain ⟨rfl, rfl⟩ := h
      exact ⟨hcanonical, heq⟩
  · cases h

theorem readsBack_of_neighbour? {m : Nat} {e place : Int} {d : Decimal}
    (h : neighbour? m e place = some d) : readsBack m e d = true := by
  unfold neighbour? at h
  dsimp only at h
  split at h
  · cases h
  · next hlower _ =>
      cases h
      exact hlower
  · next _ hupper =>
      cases h
      exact hupper
  · next hlower hupper =>
      split at h
      · cases h
        exact hlower
      · cases h
        exact hupper

theorem toDouble_shortest_false {m : Nat} {e : Int} (h : Canonical m e) (hm : m ≠ 0) :
    (shortest m e).toDouble false = finite false m e h := by
  unfold shortest
  dsimp only
  cases hfound : (List.range 17).findSome? fun (finer : Nat) =>
      neighbour? m e (decimalOrder (magnitude m e) - (finer : Int)) with
  | none => exact Decimal.toDouble_of_toRat h hm (toRat_exactDecimal m e) false
  | some d =>
      obtain ⟨finer, _, hneighbour⟩ := List.exists_of_findSome?_eq_some hfound
      obtain ⟨_, hread⟩ := toDouble_of_readsBack (readsBack_of_neighbour? hneighbour)
      exact hread

theorem ofParts_sign {negative other : Bool} {mantissa m : Nat} {exponent e : Int}
    {h : Canonical m e} (hparts : ofParts negative mantissa exponent = finite negative m e h) :
    ofParts other mantissa exponent = finite other m e h := by
  unfold ofParts at hparts ⊢
  split at hparts
  · next hcanonical =>
      cases hparts
      rw [dif_pos hcanonical]
  · next hcanonical =>
      split at hparts
      · next hcarried =>
          cases hparts
          rw [dif_neg hcanonical, dif_pos hcarried]
      · cases hparts

theorem round_sign {negative other : Bool} {x : Rat} {m : Nat} {e : Int} {h : Canonical m e}
    (hround : round negative x = finite negative m e h) : round other x = finite other m e h := by
  unfold round at hround ⊢
  split at hround
  · next hzero =>
      rw [if_pos hzero]
      cases hround
      rfl
  · next hsome =>
      rw [if_neg hsome]
      exact ofParts_sign hround

/-- A decimal is read with either sign alike. -/
theorem toDouble_sign {negative other : Bool} {d : Decimal} {m : Nat} {e : Int} {h : Canonical m e}
    (hread : d.toDouble negative = finite negative m e h) :
    d.toDouble other = finite other m e h := by
  rw [Decimal.toDouble_eq_round_toRat] at hread ⊢
  exact round_sign hread

/-- The decimal that a double is written with is read as that double. -/
theorem toDouble_shortest {m : Nat} {e : Int} (h : Canonical m e) (hm : m ≠ 0)
    (negative : Bool) : (shortest m e).toDouble negative = finite negative m e h :=
  toDouble_sign (toDouble_shortest_false h hm)

/-- A decimal that is read as a number other than zero is not zero. -/
theorem units_ne_zero_of_toDouble {m : Nat} {e : Int} {h : Canonical m e} (hm : m ≠ 0)
    {d : Decimal} (hread : d.toDouble false = finite false m e h) : d.units ≠ 0 := by
  intro hzero
  rw [Decimal.toDouble, if_pos hzero] at hread
  cases hread
  exact hm rfl

theorem units_shortest_ne_zero {m : Nat} {e : Int} (h : Canonical m e) (hm : m ≠ 0) :
    (shortest m e).units ≠ 0 :=
  units_ne_zero_of_toDouble hm (toDouble_shortest h hm false)

end Double

end SchemeMachine
