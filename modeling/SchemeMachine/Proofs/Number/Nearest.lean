import Mathlib.Data.Rat.Floor
import SchemeMachine.Proofs.Number.Rounding

/-!
# Rounding to the nearest double

`round` rounds on the grid of one power of two, the one that the doubles around the number are
written with.  Finer grids have no double as large as the number (`magnitude_lt_of_lt`), so the
nearest point of that grid is the nearest double: `round_nearest`.

A number that is too large is rounded to an infinity.  The limit is halfway between the greatest
finite double and the next power of two, and belongs to the infinity.
-/

namespace SchemeMachine

namespace Double

/-! ## The nearest integer -/

/-- The three cases of rounding to an integer: down, up, and to the even one. -/
theorem roundHalfEven_cases (y : Rat) :
    roundHalfEven y = ⌊y⌋ ∧ y - ⌊y⌋ < 1 / 2 ∨
      roundHalfEven y = ⌊y⌋ + 1 ∧ 1 / 2 < y - ⌊y⌋ ∨
      y - ⌊y⌋ = 1 / 2 ∧ roundHalfEven y % 2 = 0 ∧
        (roundHalfEven y = ⌊y⌋ ∨ roundHalfEven y = ⌊y⌋ + 1) := by
  have hfloor : y.floor = ⌊y⌋ := rfl
  unfold roundHalfEven
  rw [hfloor]
  dsimp only
  by_cases hdown : 2 * (y - ⌊y⌋) < 1
  · rw [if_pos hdown]
    exact .inl ⟨rfl, by linarith⟩
  rw [if_neg hdown]
  by_cases hup : 1 < 2 * (y - ⌊y⌋)
  · rw [if_pos hup]
    exact .inr (.inl ⟨rfl, by linarith⟩)
  rw [if_neg hup]
  have htie : y - ⌊y⌋ = 1 / 2 := by linarith
  split_ifs with heven
  · exact .inr (.inr ⟨htie, heven, .inl rfl⟩)
  · exact .inr (.inr ⟨htie, by omega, .inr rfl⟩)

theorem floor_le_roundHalfEven (y : Rat) : ⌊y⌋ ≤ roundHalfEven y := by
  rcases roundHalfEven_cases y with ⟨h, _⟩ | ⟨h, _⟩ | ⟨_, _, h | h⟩ <;> omega

theorem roundHalfEven_le_floor (y : Rat) : roundHalfEven y ≤ ⌊y⌋ + 1 := by
  rcases roundHalfEven_cases y with ⟨h, _⟩ | ⟨h, _⟩ | ⟨_, _, h | h⟩ <;> omega

/-- No integer is nearer, and if another one is as near then the even one is taken. -/
theorem roundHalfEven_nearest (y : Rat) (n : Int) :
    |y - roundHalfEven y| ≤ |y - n| ∧
      (|y - roundHalfEven y| = |y - n| → n ≠ roundHalfEven y → roundHalfEven y % 2 = 0) := by
  have hlow : (⌊y⌋ : Rat) ≤ y := Int.floor_le y
  have hhigh : y < (⌊y⌋ : Rat) + 1 := Int.lt_floor_add_one y
  -- the integer lies at or below the floor, or above it
  have hside : (n : Rat) ≤ ⌊y⌋ ∨ (⌊y⌋ : Rat) + 1 ≤ n := by
    rcases le_or_gt n ⌊y⌋ with h | h
    · exact .inl (by exact_mod_cast h)
    · exact .inr (by exact_mod_cast h)
  rcases roundHalfEven_cases y with ⟨hround, hdown⟩ | ⟨hround, hup⟩ | ⟨htie, heven, hround⟩
  · rw [hround, abs_of_nonneg (sub_nonneg.mpr hlow)]
    rcases hside with hside | hside
    · rw [abs_of_nonneg (by linarith)]
      refine ⟨by linarith, fun heq hne => absurd ?_ hne⟩
      exact_mod_cast (by linarith : (n : Rat) = ⌊y⌋)
    · rw [abs_of_nonpos (by linarith)]
      exact ⟨by linarith, fun heq _ => absurd heq (by linarith)⟩
  · rw [hround]
    push_cast
    rw [abs_of_nonpos (by linarith)]
    rcases hside with hside | hside
    · rw [abs_of_nonneg (by linarith)]
      exact ⟨by linarith, fun heq _ => absurd heq (by linarith)⟩
    · rw [abs_of_nonpos (by linarith)]
      refine ⟨by linarith, fun heq hne => absurd ?_ hne⟩
      exact_mod_cast (by linarith : (n : Rat) = ⌊y⌋ + 1)
  · refine ⟨?_, fun _ _ => heven⟩
    have hhalf : |y - roundHalfEven y| = 1 / 2 := by
      rcases hround with hround | hround
      · rw [hround, htie, abs_of_pos (by norm_num)]
      · rw [hround]
        push_cast
        rw [abs_of_nonpos (by linarith)]
        linarith
    rw [hhalf]
    rcases hside with hside | hside
    · rw [abs_of_nonneg (by linarith)]
      linarith
    · rw [abs_of_nonpos (by linarith)]
      linarith

/-- An even integer is reached from half a unit below it. -/
theorem le_roundHalfEven_iff {n : Int} (heven : n % 2 = 0) (y : Rat) :
    n ≤ roundHalfEven y ↔ (n : Rat) - 1 / 2 ≤ y := by
  have hlow : (⌊y⌋ : Rat) ≤ y := Int.floor_le y
  have hhigh : y < (⌊y⌋ : Rat) + 1 := Int.lt_floor_add_one y
  have hcast (k : Int) : n ≤ k ↔ (n : Rat) ≤ k := Int.cast_le.symm
  have hstrict (k : Int) : n ≤ k ↔ (n : Rat) < k + 1 := by
    rw [← Int.lt_add_one_iff]
    exact_mod_cast Iff.rfl
  rcases roundHalfEven_cases y with ⟨hround, hdown⟩ | ⟨hround, hup⟩ | ⟨htie, heven', hround⟩
  · rw [hround]
    constructor
    · intro h
      linarith [(hcast _).mp h]
    · intro h
      exact (hstrict _).mpr (by linarith)
  · rw [hround]
    constructor
    · intro h
      have := (hcast _).mp h
      push_cast at this
      linarith
    · intro h
      refine (hstrict _).mpr ?_
      push_cast
      linarith
  · have htied : (n : Rat) - 1 / 2 ≤ y ↔ n ≤ ⌊y⌋ + 1 := by
      rw [hcast]
      push_cast
      constructor <;> intro h <;> linarith
    rw [htied]
    omega

/-! ## The grid around a number -/

theorem minExponent_le_gridExponent (x : Rat) : minExponent ≤ gridExponent x :=
  le_max_right _ _

/-- A number in units of its grid. -/
def scaled (x : Rat) : Rat :=
  x / (2 : Rat) ^ gridExponent x

theorem scaled_mul (x : Rat) : scaled x * (2 : Rat) ^ gridExponent x = x :=
  div_mul_cancel₀ x (by positivity)

variable {x : Rat}

theorem scaled_lt (hx : 0 < x) : scaled x < mantissaBound := by
  have hgrid : binaryOrder x + 1 ≤ 53 + gridExponent x := by
    have := le_max_left (binaryOrder x - 52) minExponent
    unfold gridExponent
    omega
  rw [scaled, div_lt_iff₀ (by positivity), cast_mantissaBound, ← two_zpow_add]
  exact lt_of_lt_of_le (binaryOrder_bounds hx).2 (two_zpow_le hgrid)

theorem le_scaled (hx : 0 < x) (hnormal : gridExponent x ≠ minExponent) :
    (normalMantissa : Rat) ≤ scaled x := by
  have hgrid : 52 + gridExponent x = binaryOrder x := by
    unfold gridExponent at hnormal ⊢
    omega
  rw [scaled, le_div_iff₀ (by positivity), cast_normalMantissa, ← two_zpow_add, hgrid]
  exact (binaryOrder_bounds hx).1

theorem lt_magnitude (hx : 0 < x) : x < magnitude mantissaBound (gridExponent x) := by
  calc x = scaled x * (2 : Rat) ^ gridExponent x := (scaled_mul x).symm
    _ < magnitude mantissaBound (gridExponent x) :=
      mul_lt_mul_of_pos_right (scaled_lt hx) (by positivity)

theorem magnitude_le_of_normal (hx : 0 < x) (hnormal : gridExponent x ≠ minExponent) :
    magnitude normalMantissa (gridExponent x) ≤ x := by
  calc magnitude normalMantissa (gridExponent x) ≤ scaled x * (2 : Rat) ^ gridExponent x :=
        mul_le_mul_of_nonneg_right (le_scaled hx hnormal) (by positivity)
    _ = x := scaled_mul x

theorem scaled_pos (hx : 0 < x) : 0 < scaled x := by
  unfold scaled
  positivity

/-- The mantissa that a number is rounded to.  It may have been carried to the next power of
two. -/
def mantissaOf (x : Rat) : Nat :=
  (roundHalfEven (scaled x)).toNat

theorem mantissaOf_cast (hx : 0 < x) : (mantissaOf x : Int) = roundHalfEven (scaled x) := by
  have hfloor : 0 ≤ ⌊scaled x⌋ := Int.floor_nonneg.mpr (scaled_pos hx).le
  exact Int.toNat_of_nonneg (le_trans hfloor (floor_le_roundHalfEven _))

theorem mantissaOf_le (hx : 0 < x) : mantissaOf x ≤ mantissaBound := by
  have hfloor : ⌊scaled x⌋ < (mantissaBound : Int) :=
    Int.floor_lt.mpr (by exact_mod_cast scaled_lt hx)
  have hround := roundHalfEven_le_floor (scaled x)
  have hcast := mantissaOf_cast hx
  omega

theorem le_mantissaOf (hx : 0 < x) :
    normalMantissa ≤ mantissaOf x ∨ gridExponent x = minExponent := by
  by_cases hnormal : gridExponent x = minExponent
  · exact .inr hnormal
  · have hfloor : (normalMantissa : Int) ≤ ⌊scaled x⌋ :=
      Int.le_floor.mpr (by exact_mod_cast le_scaled hx hnormal)
    have hround := floor_le_roundHalfEven (scaled x)
    have hcast := mantissaOf_cast hx
    exact .inl (by omega)

theorem round_eq (hx : 0 < x) (negative : Bool) :
    round negative x = ofParts negative (mantissaOf x) (gridExponent x) := by
  rw [round, if_neg hx.ne']
  rfl

/-- A double on a finer grid lies below the number. -/
theorem magnitude_lt_of_lt {n : Nat} {f : Int} (h : Canonical n f) (hf : f < gridExponent x) :
    magnitude n f < normalMantissa * (2 : Rat) ^ gridExponent x := by
  have hn : (n : Rat) < (2 : Rat) ^ (53 : Int) := by
    rw [← cast_mantissaBound]
    exact_mod_cast h.1
  calc magnitude n f < (2 : Rat) ^ (53 : Int) * (2 : Rat) ^ f :=
        mul_lt_mul_of_pos_right hn (by positivity)
    _ = (2 : Rat) ^ (53 + f) := (two_zpow_add 53 f).symm
    _ ≤ (2 : Rat) ^ (52 + gridExponent x) := two_zpow_le (by omega)
    _ = normalMantissa * (2 : Rat) ^ gridExponent x := by
      rw [two_zpow_add, cast_normalMantissa]

/-- A double on this grid or a coarser one is a whole number of its units. -/
theorem magnitude_of_le {n : Nat} {f g : Int} (h : g ≤ f) :
    magnitude n f = magnitude (n * 2 ^ (f - g).toNat) g := by
  have hpower : (2 : Rat) ^ f = (2 : Rat) ^ (f - g).toNat * (2 : Rat) ^ g := by
    rw [← zpow_natCast, Int.toNat_of_nonneg (by omega), ← two_zpow_add, sub_add_cancel]
  rw [magnitude, magnitude, hpower]
  push_cast
  ring

/-- No double is nearer than the rounded mantissa, and if another one is as near then the
mantissa is even. -/
theorem mantissaOf_nearest (hx : 0 < x) {n : Nat} {f : Int} (h : Canonical n f) :
    |x - magnitude (mantissaOf x) (gridExponent x)| ≤ |x - magnitude n f| ∧
      (|x - magnitude (mantissaOf x) (gridExponent x)| = |x - magnitude n f| →
        magnitude n f ≠ magnitude (mantissaOf x) (gridExponent x) → mantissaOf x % 2 = 0) := by
  have hunit : (0 : Rat) < (2 : Rat) ^ gridExponent x := by positivity
  have hcast := mantissaOf_cast hx
  -- distances to points of the grid are those of the integers, in units of the grid
  have hdistance (k : Nat) : |x - magnitude k (gridExponent x)| =
      |scaled x - (k : Int)| * (2 : Rat) ^ gridExponent x := by
    rw [← abs_of_pos hunit, ← abs_mul, sub_mul, scaled_mul, magnitude, Int.cast_natCast]
  by_cases hf : gridExponent x ≤ f
  · rw [magnitude_of_le hf, hdistance, hdistance, hcast]
    obtain ⟨hle, htie⟩ :=
      roundHalfEven_nearest (scaled x) (n * 2 ^ (f - gridExponent x).toNat : Nat)
    refine ⟨mul_le_mul_of_nonneg_right hle hunit.le, fun heq hne => ?_⟩
    have heven := htie (mul_right_cancel₀ hunit.ne' heq) (fun hsame => hne ?_)
    · omega
    · rw [← hcast] at hsame
      rw [Int.ofNat_inj.mp hsame]
  · -- the number is above the least normal mantissa, and that is above the double
    have hnormal : gridExponent x ≠ minExponent := by
      have := h.2.1
      omega
    have hbelow := magnitude_lt_of_lt h (not_le.mp hf)
    have hleast := magnitude_le_of_normal hx hnormal
    have hnear : |x - magnitude (mantissaOf x) (gridExponent x)| ≤
        |x - magnitude normalMantissa (gridExponent x)| := by
      rw [hdistance, hdistance, hcast]
      exact mul_le_mul_of_nonneg_right (roundHalfEven_nearest _ _).1 hunit.le
    have hfar : |x - magnitude normalMantissa (gridExponent x)| < |x - magnitude n f| := by
      have hlt : magnitude n f < magnitude normalMantissa (gridExponent x) := hbelow
      rw [abs_of_nonneg (by linarith), abs_of_nonneg (by linarith)]
      linarith
    exact ⟨(lt_of_le_of_lt hnear hfar).le,
      fun heq _ => absurd heq (lt_of_le_of_lt hnear hfar).ne⟩

/-! ## Too large a number -/

/-- The least magnitude that is rounded to an infinity, halfway between the greatest finite
double and the next power of two. -/
def overflowLimit : Rat :=
  ((mantissaBound : Rat) - 1 / 2) * (2 : Rat) ^ maxExponent

theorem magnitude_le {m n : Nat} {e f : Int} (hm : m ≤ n) (he : e ≤ f) :
    magnitude m e ≤ magnitude n f := by
  have hcast : (m : Rat) ≤ n := by exact_mod_cast hm
  exact mul_le_mul hcast (two_zpow_le he) (by positivity) (by positivity)

theorem magnitude_carry (g : Int) :
    magnitude normalMantissa (g + 1) = magnitude mantissaBound g := by
  rw [magnitude, magnitude, cast_normalMantissa, cast_mantissaBound, ← two_zpow_add,
    ← two_zpow_add]
  congr 1
  ring

theorem magnitude_lt_left {m n : Nat} (h : m < n) (e : Int) : magnitude m e < magnitude n e := by
  have hcast : (m : Rat) < n := by exact_mod_cast h
  exact mul_lt_mul_of_pos_right hcast (by positivity)

/-- What becomes of a rounded mantissa: a finite double of the same value, or an infinity. -/
theorem ofParts_cases {r : Nat} {g : Int} (hr : r ≤ mantissaBound) (hg : minExponent ≤ g)
    (hform : normalMantissa ≤ r ∨ g = minExponent) (negative : Bool) :
    (magnitude r g < magnitude mantissaBound maxExponent ∧
      ∃ m e h, ofParts negative r g = .finite negative m e h ∧ magnitude m e = magnitude r g ∧
        (r % 2 = 0 → m % 2 = 0)) ∨
    magnitude mantissaBound maxExponent ≤ magnitude r g ∧
      ofParts negative r g = .infinite negative := by
  unfold ofParts
  by_cases hcanonical : Canonical r g
  · refine .inl ⟨?_, r, g, hcanonical, dif_pos hcanonical, rfl, id⟩
    exact lt_of_lt_of_le (magnitude_lt_left hcanonical.1 g)
      (magnitude_le le_rfl hcanonical.2.2.1)
  rw [dif_neg hcanonical]
  by_cases hcarry : Canonical normalMantissa (g + 1) ∧ r = mantissaBound
  · obtain ⟨hcarried, rfl⟩ := hcarry
    refine .inl ⟨?_, normalMantissa, g + 1, hcarried, dif_pos ⟨hcarried, rfl⟩, magnitude_carry g,
      fun _ => by decide⟩
    rw [← magnitude_carry g]
    exact lt_of_lt_of_le (magnitude_lt_left (by decide) _) (magnitude_le le_rfl hcarried.2.2.1)
  · refine .inr ⟨?_, dif_neg hcarry⟩
    by_cases hlarge : maxExponent < g
    · -- the mantissa is full, and the exponent is past the last one
      have hfull : normalMantissa ≤ r := hform.resolve_right fun hmin => by
        rw [hmin] at hlarge
        exact absurd hlarge (by decide)
      rw [← magnitude_carry]
      exact magnitude_le hfull (by omega)
    · -- the mantissa was carried, and the exponent is the last one
      have hcarried : r = mantissaBound := by
        by_contra hne
        exact hcanonical ⟨by omega, hg, by omega, hform⟩
      have hlast : maxExponent ≤ g := by
        by_contra hlt
        exact hcarry ⟨⟨by decide, by omega, by omega, .inl le_rfl⟩, hcarried⟩
      exact magnitude_le hcarried.ge hlast

/-- A number is rounded past the doubles from the limit on. -/
theorem overflows_iff (hx : 0 < x) :
    magnitude mantissaBound maxExponent ≤ magnitude (mantissaOf x) (gridExponent x) ↔
      overflowLimit ≤ x := by
  have hunit : (0 : Rat) < (2 : Rat) ^ maxExponent := by positivity
  rcases lt_trichotomy (gridExponent x) maxExponent with hsmall | hlast | hlarge
  · -- both lie below the powers of two of the next grid
    have hround : magnitude (mantissaOf x) (gridExponent x) ≤
        magnitude normalMantissa maxExponent := by
      calc magnitude (mantissaOf x) (gridExponent x)
          ≤ magnitude mantissaBound (gridExponent x) := magnitude_le (mantissaOf_le hx) le_rfl
        _ = magnitude normalMantissa (gridExponent x + 1) := (magnitude_carry _).symm
        _ ≤ magnitude normalMantissa maxExponent := magnitude_le le_rfl hsmall
    have hnumber : x < magnitude normalMantissa maxExponent := by
      calc x < magnitude mantissaBound (gridExponent x) := lt_magnitude hx
        _ = magnitude normalMantissa (gridExponent x + 1) := (magnitude_carry _).symm
        _ ≤ magnitude normalMantissa maxExponent := magnitude_le le_rfl hsmall
    have hlimit : magnitude normalMantissa maxExponent < overflowLimit :=
      mul_lt_mul_of_pos_right (by norm_num [normalMantissa, mantissaBound]) hunit
    have hbound : magnitude normalMantissa maxExponent < magnitude mantissaBound maxExponent :=
      magnitude_lt_left (by decide) _
    constructor
    · intro h
      linarith
    · intro h
      linarith
  · -- rounding decides, half a unit below the power of two
    have hround := le_roundHalfEven_iff (n := (mantissaBound : Int)) (by decide) (scaled x)
    rw [← mantissaOf_cast hx] at hround
    have hvalue : x = scaled x * (2 : Rat) ^ maxExponent := by rw [← hlast, scaled_mul]
    calc magnitude mantissaBound maxExponent ≤ magnitude (mantissaOf x) (gridExponent x)
        ↔ (mantissaBound : Rat) ≤ mantissaOf x := by
          rw [hlast, magnitude, magnitude, mul_le_mul_iff_left₀ hunit]
      _ ↔ (mantissaBound : Int) ≤ (mantissaOf x : Int) := by exact_mod_cast Iff.rfl
      _ ↔ (mantissaBound : Rat) - 1 / 2 ≤ scaled x := by exact_mod_cast hround
      _ ↔ overflowLimit ≤ x := by
        rw [overflowLimit, ← mul_le_mul_iff_left₀ hunit, ← hvalue]
  · -- both are past the last grid
    have hnormal : gridExponent x ≠ minExponent := by
      intro hmin
      rw [hmin] at hlarge
      exact absurd hlarge (by decide)
    have hbound : magnitude mantissaBound maxExponent ≤
        magnitude normalMantissa (gridExponent x) := by
      rw [← magnitude_carry]
      exact magnitude_le le_rfl hlarge
    have hlimit : overflowLimit ≤ magnitude mantissaBound maxExponent :=
      mul_le_mul_of_nonneg_right (by linarith) hunit.le
    refine iff_of_true ?_ ?_
    · exact hbound.trans (magnitude_le ((le_mantissaOf hx).resolve_right hnormal) le_rfl)
    · exact (hlimit.trans hbound).trans (magnitude_le_of_normal hx hnormal)

/-! ## The nearest double -/

/-- This is the double nearest to the magnitude `x`, with the given sign.  Of two that are equally
near it is the one with the even mantissa. -/
inductive IsNearest (negative : Bool) (x : Rat) : Double → Prop
  | finite {m : Nat} {e : Int} (h : Canonical m e) (hlimit : x < overflowLimit)
      (hnear : ∀ n f, Canonical n f → |x - magnitude m e| ≤ |x - magnitude n f|)
      (heven : ∀ n f, Canonical n f → |x - magnitude m e| = |x - magnitude n f| →
        magnitude n f ≠ magnitude m e → m % 2 = 0) :
      IsNearest negative x (.finite negative m e h)
  | infinite (hlimit : overflowLimit ≤ x) : IsNearest negative x (.infinite negative)

theorem overflowLimit_pos : 0 < overflowLimit := by
  have hmantissa : (0 : Rat) < (mantissaBound : Rat) - 1 / 2 := by norm_num [mantissaBound]
  unfold overflowLimit
  positivity

theorem isNearest_round (hx : 0 ≤ x) (negative : Bool) :
    IsNearest negative x (round negative x) := by
  rcases hx.eq_or_lt with rfl | hpos
  · rw [round, if_pos rfl]
    refine .finite _ overflowLimit_pos (fun n f _ => ?_) fun _ _ _ _ _ => rfl
    rw [magnitude, Nat.cast_zero, zero_mul, sub_zero, abs_zero]
    exact abs_nonneg _
  · rw [round_eq hpos]
    rcases ofParts_cases (mantissaOf_le hpos) (minExponent_le_gridExponent x) (le_mantissaOf hpos)
      negative with ⟨hlimit, m, e, h, heq, hvalue, heven⟩ | ⟨hlimit, heq⟩
    · rw [heq]
      refine .finite h (not_le.mp (mt (overflows_iff hpos).mpr (not_le.mpr hlimit))) ?_ ?_
      · intro n f hother
        rw [hvalue]
        exact (mantissaOf_nearest hpos hother).1
      · intro n f hother
        rw [hvalue]
        exact fun htie hne => heven ((mantissaOf_nearest hpos hother).2 htie hne)
    · rw [heq]
      exact .infinite ((overflows_iff hpos).mp hlimit)

theorem IsNearest.eq_infinite {negative : Bool} {y : Double} (h : IsNearest negative x y)
    (hlimit : overflowLimit ≤ x) : y = .infinite negative := by
  cases h with
  | finite _ hbelow => exact absurd hlimit (not_le.mpr hbelow)
  | infinite => rfl

/-- What is nearer to zero than to the least positive double is rounded to zero. -/
theorem IsNearest.eq_zero {negative : Bool} {y : Double} (h : IsNearest negative x y)
    (hx : 0 ≤ x) (hsmall : 2 * x < (2 : Rat) ^ minExponent) : y = zero negative := by
  cases h with
  | infinite hlimit =>
      have hleast : (2 : Rat) ^ minExponent ≤ overflowLimit := by
        calc (2 : Rat) ^ minExponent ≤ 1 * (2 : Rat) ^ maxExponent := by
              rw [one_mul]
              exact two_zpow_le (by decide)
          _ ≤ overflowLimit :=
              mul_le_mul_of_nonneg_right (by norm_num [mantissaBound]) (by positivity)
      linarith
  | @finite m e hcanonical _ hnear _ =>
      have hm : m = 0 := by
        by_contra hm
        have hleast : (2 : Rat) ^ minExponent ≤ magnitude m e := by
          calc (2 : Rat) ^ minExponent ≤ 1 * (2 : Rat) ^ e := by
                rw [one_mul]
                exact two_zpow_le hcanonical.2.1
            _ ≤ magnitude m e :=
                mul_le_mul_of_nonneg_right (by exact_mod_cast Nat.one_le_iff_ne_zero.mpr hm)
                  (by positivity)
        have hzero := hnear 0 minExponent (by decide)
        rw [magnitude, magnitude, Nat.cast_zero, zero_mul, sub_zero, abs_of_nonneg hx,
          abs_of_nonpos (by rw [magnitude] at hleast; linarith)] at hzero
        rw [magnitude] at hleast
        linarith
      subst hm
      have he : e = minExponent := hcanonical.2.2.2.resolve_left (by decide)
      subst he
      rfl

end Double

end SchemeMachine
