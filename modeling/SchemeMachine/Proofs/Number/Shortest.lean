import SchemeMachine.Proofs.Number.ReadBack

/-!
# The shortest decimal of a double

The numbers that are rounded to a double form an interval around its value: what lies between the
value and such a number is one of them too (`round_between`).  So a decimal grid that has a point
in the interval has one next to the value, and looking at the two neighbours of the value is
enough: `neighbour?_nearest`.  A grid of seventeen significant digits is finer than the interval
(`exists_neighbour?`), hence the search always ends on a grid.

The decimal found has as few significant digits as any that reads back, and of those with so few
digits it is nearest to the value: `shortest_spec`.
-/

namespace SchemeMachine

namespace Double

variable {m n : Nat} {e f : Int} {y z : Rat}

/-! ## The numbers that are rounded to a double -/

theorem magnitude_lt_overflowLimit (h : Canonical m e) : magnitude m e < overflowLimit := by
  have hcast : (m : Rat) + 1 ≤ mantissaBound := by exact_mod_cast h.1
  calc magnitude m e ≤ (m : Rat) * (2 : Rat) ^ maxExponent :=
        mul_le_mul_of_nonneg_left (two_zpow_le h.2.2.1) (by positivity)
    _ < overflowLimit := mul_lt_mul_of_pos_right (by linarith) (by positivity)

/-- What lies between the value of a double and a number that is rounded to it is rounded to it
as well. -/
theorem round_between (h : Canonical m e) (hz : 0 ≤ z)
    (hround : round false z = .finite false m e h)
    (hbetween : magnitude m e ≤ y ∧ y ≤ z ∨ z ≤ y ∧ y ≤ magnitude m e) :
    round false y = .finite false m e h := by
  have hvalue := magnitude_nonneg m e
  have hlimit := magnitude_lt_overflowLimit h
  have hy : 0 ≤ y := by rcases hbetween with hbetween | hbetween <;> linarith
  have hnearz := isNearest_round hz false
  rw [hround] at hnearz
  obtain ⟨_, hlimitz, hnearz, _⟩ := hnearz
  have hneary := isNearest_round hy false
  generalize hfound : round false y = found at hneary
  cases hneary with
  | infinite hover => rcases hbetween with hbetween | hbetween <;> linarith
  | @finite m' e' h' _ hnear _ =>
      have hfar := hnearz m' e' h'
      have hnear := hnear m e h
      by_cases hsame : magnitude m' e' = magnitude m e
      · obtain ⟨rfl, rfl⟩ := parts_eq_of_magnitude_eq h' h hsame
        rfl
      · -- both numbers are equally near to the two doubles, so they are the same number
        have hsum : |z - magnitude m e| = |z - y| + |y - magnitude m e| := by
          rcases hbetween with hbetween | hbetween
          · rw [abs_of_nonneg (by linarith), abs_of_nonneg (by linarith),
              abs_of_nonneg (by linarith)]
            ring
          · rw [abs_of_nonpos (by linarith), abs_of_nonpos (by linarith),
              abs_of_nonpos (by linarith)]
            ring
        have htriangle := abs_sub_le z y (magnitude m' e')
        have hmiddle (w : Rat) (heq : |w - magnitude m e| = |w - magnitude m' e'|) :
            2 * w = magnitude m e + magnitude m' e' := by
          rcases abs_eq_abs.mp heq with heq | heq
          · exact absurd (by linarith) hsame
          · linarith
        have hyz : y = z := by
          linarith [hmiddle y (by linarith), hmiddle z (by linarith)]
        rw [← hfound, hyz, hround]

/-- Another double is a unit of the grid away.  Below a power of two it may be half of that. -/
theorem le_abs_sub (h : Canonical m e) (h' : Canonical n f)
    (hne : magnitude n f ≠ magnitude m e) :
    (2 : Rat) ^ e ≤ 2 * |magnitude m e - magnitude n f| ∧
      (m ≠ normalMantissa → (2 : Rat) ^ e ≤ |magnitude m e - magnitude n f|) := by
  have hunit : (0 : Rat) < (2 : Rat) ^ e := by positivity
  by_cases hf : e ≤ f
  · rw [magnitude_of_le hf] at hne ⊢
    generalize n * 2 ^ (f - e).toNat = k at hne ⊢
    have hk : (m : Int) - k ≠ 0 := by
      intro hzero
      exact hne (by rw [show k = m by omega])
    have hone : (1 : Rat) ≤ |(m : Rat) - k| := by exact_mod_cast Int.one_le_abs hk
    have hdistance : |magnitude m e - magnitude k e| = |(m : Rat) - k| * (2 : Rat) ^ e := by
      rw [magnitude, magnitude, ← sub_mul, abs_mul, abs_of_pos hunit]
    have hle : (2 : Rat) ^ e ≤ |magnitude m e - magnitude k e| := by
      rw [hdistance]
      exact le_mul_of_one_le_left hunit.le hone
    exact ⟨by linarith, fun _ => hle⟩
  · -- the double is normal, and the other one lies on a finer grid
    have hnormal : normalMantissa ≤ m := h.2.2.2.resolve_right fun hmin => by
      have := h'.2.1
      omega
    have hn : (n : Rat) + 1 ≤ mantissaBound := by exact_mod_cast h'.1
    have hother : magnitude n f ≤ (normalMantissa - 1 / 2) * (2 : Rat) ^ e := by
      calc magnitude n f ≤ (n : Rat) * (2 : Rat) ^ (e - 1) :=
            mul_le_mul_of_nonneg_left (two_zpow_le (by omega)) (by positivity)
        _ = (n : Rat) / 2 * (2 : Rat) ^ e := by
            rw [zpow_sub_one₀ (by norm_num)]
            ring
        _ ≤ (normalMantissa - 1 / 2) * (2 : Rat) ^ e := by
            refine mul_le_mul_of_nonneg_right ?_ hunit.le
            have hdouble : (mantissaBound : Rat) = 2 * normalMantissa := by
              norm_num [mantissaBound, normalMantissa]
            linarith
    have hm : (normalMantissa : Rat) ≤ m := by exact_mod_cast hnormal
    have hdistance : ((m : Rat) - normalMantissa + 1 / 2) * (2 : Rat) ^ e ≤
        |magnitude m e - magnitude n f| := by
      refine le_trans ?_ (le_abs_self _)
      rw [magnitude]
      linarith
    refine ⟨?_, fun hne => ?_⟩
    · have := mul_nonneg (sub_nonneg.mpr hm) hunit.le
      linarith
    · have hsucc : (normalMantissa : Rat) + 1 ≤ m := by
        exact_mod_cast lt_of_le_of_ne hnormal hne.symm
      have := mul_nonneg (sub_nonneg.mpr hsucc) hunit.le
      linarith

/-- A number that is near enough to the value of a double is rounded to it. -/
theorem round_of_near (h : Canonical m e) (hy : 0 ≤ y)
    (hnear : 2 * |y - magnitude m e| < (2 : Rat) ^ e)
    (hnormal : m = normalMantissa → 4 * |y - magnitude m e| < (2 : Rat) ^ e) :
    round false y = .finite false m e h := by
  have hnearest := isNearest_round hy false
  generalize round false y = found at hnearest
  cases hnearest with
  | infinite hover =>
      have hcast : (m : Rat) + 1 ≤ mantissaBound := by exact_mod_cast h.1
      have hbelow : y < overflowLimit := by
        calc y < magnitude m e + 1 / 2 * (2 : Rat) ^ e := by
              linarith [le_abs_self (y - magnitude m e)]
          _ = ((m : Rat) + 1 / 2) * (2 : Rat) ^ e := by rw [magnitude]; ring
          _ ≤ (mantissaBound - 1 / 2) * (2 : Rat) ^ e :=
              mul_le_mul_of_nonneg_right (by linarith) (by positivity)
          _ ≤ overflowLimit := by
              refine mul_le_mul_of_nonneg_left (two_zpow_le h.2.2.1) ?_
              linarith [(Nat.cast_nonneg m : (0 : Rat) ≤ m)]
      exact absurd hover (not_le.mpr hbelow)
  | @finite m' e' h' _ hnearest _ =>
      by_cases hsame : magnitude m' e' = magnitude m e
      · obtain ⟨rfl, rfl⟩ := parts_eq_of_magnitude_eq h' h hsame
        rfl
      · exfalso
        obtain ⟨hhalf, hwhole⟩ := le_abs_sub h h' hsame
        have htriangle := abs_sub_le (magnitude m e) y (magnitude m' e')
        rw [abs_sub_comm (magnitude m e) y] at htriangle
        have hfound := hnearest m e h
        by_cases hm : m = normalMantissa
        · linarith [hnormal hm]
        · linarith [hwhole hm]

/-! ## The size of a number in powers of ten -/

theorem ten_zpow_add (k l : Int) : (10 : Rat) ^ (k + l) = (10 : Rat) ^ k * (10 : Rat) ^ l :=
  zpow_add₀ (by norm_num) k l

theorem ten_zpow_le {k l : Int} (h : k ≤ l) : (10 : Rat) ^ k ≤ (10 : Rat) ^ l :=
  zpow_le_zpow_right₀ (by norm_num) h

theorem decimalOrder_bounds {x : Rat} (hx : 0 < x) :
    (10 : Rat) ^ decimalOrder x ≤ x ∧ x < (10 : Rat) ^ (decimalOrder x + 1) := by
  have hnum : x.num.natAbs ≠ 0 := Int.natAbs_ne_zero.mpr (Rat.num_pos.mpr hx).ne'
  have hcount {n : Nat} (hn : n ≠ 0) : (10 : Rat) ^ ((Decimal.digitCount n : Int) - 1) ≤ n ∧
      (n : Rat) < (10 : Rat) ^ ((Decimal.digitCount n : Int) - 1 + 1) := by
    have hbounds := Decimal.toRat_bounds (d := ⟨n, 0⟩) hn
    rwa [Decimal.toRat, zpow_zero, mul_one, Decimal.places, zero_add, ← sub_add_cancel
      (Decimal.digitCount n : Int) 1, add_sub_cancel_right] at hbounds
  obtain ⟨hlow, hhigh⟩ := quotient_bounds (by norm_num) (hcount hnum) (hcount x.den_nz)
  rw [← eq_natAbs_div_den hx, sub_sub_sub_cancel_right] at hlow hhigh
  unfold decimalOrder
  dsimp only
  split
  · next hle => exact ⟨hle, hhigh⟩
  · next hgt =>
      rw [sub_add_cancel]
      exact ⟨hlow.le, not_le.mp hgt⟩

/-! ## The neighbours of a value on a decimal grid -/

/-- The units of the grid below a value. -/
def unitsBelow (m : Nat) (e place : Int) : Nat :=
  (magnitude m e / (10 : Rat) ^ place).floor.toNat

/-- The last point of the grid that is not above the value. -/
def below (m : Nat) (e place : Int) : Decimal :=
  ⟨unitsBelow m e place, place⟩

/-- The first point of the grid above the value. -/
def above (m : Nat) (e place : Int) : Decimal :=
  ⟨unitsBelow m e place + 1, place⟩

theorem unitsBelow_cast (m : Nat) (e place : Int) :
    (unitsBelow m e place : Int) = ⌊magnitude m e / (10 : Rat) ^ place⌋ := by
  have hvalue := magnitude_nonneg m e
  have hfloor : 0 ≤ ⌊magnitude m e / (10 : Rat) ^ place⌋ := Int.floor_nonneg.mpr (by positivity)
  exact Int.toNat_of_nonneg hfloor

theorem le_unitsBelow_iff {place : Int} {k : Nat} :
    k ≤ unitsBelow m e place ↔ (k : Rat) * (10 : Rat) ^ place ≤ magnitude m e := by
  have hfloor := unitsBelow_cast m e place
  rw [← le_div_iff₀ (by positivity), ← Int.cast_natCast k, ← Int.le_floor, ← hfloor]
  exact Int.ofNat_le.symm

theorem below_le (m : Nat) (e place : Int) : (below m e place).toRat ≤ magnitude m e :=
  le_unitsBelow_iff.mp le_rfl

theorem lt_above (m : Nat) (e place : Int) : magnitude m e < (above m e place).toRat := by
  rw [← not_le]
  exact fun hle => absurd (le_unitsBelow_iff.mpr hle) (Nat.not_succ_le_self _)

theorem readsBack_iff (h : Canonical m e) (d : Decimal) :
    readsBack m e d = true ↔ round false d.toRat = .finite false m e h := by
  rw [← Decimal.toDouble_eq_round_toRat]
  constructor
  · intro hread
    obtain ⟨_, heq⟩ := toDouble_of_readsBack hread
    exact heq
  · intro heq
    rw [readsBack, heq]
    simp

/-- A decimal between the value and one that reads back reads back. -/
theorem readsBack_between (h : Canonical m e) {c d : Decimal} (hd : readsBack m e d = true)
    (hbetween : magnitude m e ≤ c.toRat ∧ c.toRat ≤ d.toRat ∨
      d.toRat ≤ c.toRat ∧ c.toRat ≤ magnitude m e) : readsBack m e c = true := by
  rw [readsBack_iff h] at hd ⊢
  exact round_between h d.toRat_nonneg hd hbetween

theorem neighbour?_eq (m : Nat) (e place : Int) :
    neighbour? m e place =
      match readsBack m e (below m e place), readsBack m e (above m e place) with
      | false, false => none
      | true, false => some (below m e place)
      | false, true => some (above m e place)
      | true, true =>
        if roundHalfEven (magnitude m e / (10 : Rat) ^ place) =
          ⌊magnitude m e / (10 : Rat) ^ place⌋ then some (below m e place)
        else some (above m e place) :=
  rfl

/-- Of two neighbours that read back, the one is chosen that no point of the grid is nearer
than. -/
theorem neighbour?_of_both {place : Int} (hbelow : readsBack m e (below m e place) = true)
    (habove : readsBack m e (above m e place) = true) :
    ∃ c, neighbour? m e place = some c ∧
      |magnitude m e - c.toRat| ≤ |magnitude m e - (below m e place).toRat| ∧
      |magnitude m e - c.toRat| ≤ |magnitude m e - (above m e place).toRat| := by
  let scaled : Rat := magnitude m e / (10 : Rat) ^ place
  have hunit : (0 : Rat) < (10 : Rat) ^ place := by positivity
  have hfloor : (unitsBelow m e place : Int) = ⌊scaled⌋ := unitsBelow_cast m e place
  have hdistance (k : Nat) : |magnitude m e - (⟨k, place⟩ : Decimal).toRat| =
      |scaled - (k : Int)| * (10 : Rat) ^ place := by
    rw [← abs_of_pos hunit, ← abs_mul, sub_mul, div_mul_cancel₀ _ hunit.ne', Decimal.toRat,
      Int.cast_natCast]
  -- the choice is the nearest integer, in units of the grid
  have hnearest (k : Nat) (hk : (k : Int) = roundHalfEven scaled) (l : Nat) :
      |magnitude m e - (⟨k, place⟩ : Decimal).toRat| ≤
        |magnitude m e - (⟨l, place⟩ : Decimal).toRat| := by
    rw [hdistance, hdistance, hk]
    exact mul_le_mul_of_nonneg_right (roundHalfEven_nearest scaled l).1 hunit.le
  have hchoice : neighbour? m e place =
      if roundHalfEven scaled = ⌊scaled⌋ then some (below m e place)
      else some (above m e place) := by
    rw [neighbour?_eq, hbelow, habove]
  have hlow := floor_le_roundHalfEven scaled
  have hhigh := roundHalfEven_le_floor scaled
  rw [hchoice]
  split_ifs with hround
  · have hk : (unitsBelow m e place : Int) = roundHalfEven scaled := by omega
    exact ⟨_, rfl, hnearest _ hk _, hnearest _ hk _⟩
  · have hk : ((unitsBelow m e place + 1 : Nat) : Int) = roundHalfEven scaled := by omega
    exact ⟨_, rfl, hnearest _ hk _, hnearest _ hk _⟩

/-- If a neighbour reads back then one is chosen, and no neighbour that reads back is nearer. -/
theorem neighbour?_of_readsBack {place : Int} {d : Decimal} (hd : readsBack m e d = true)
    (hneighbour : d = below m e place ∨ d = above m e place) :
    ∃ c, neighbour? m e place = some c ∧
      |magnitude m e - c.toRat| ≤ |magnitude m e - d.toRat| := by
  cases hbelow : readsBack m e (below m e place) with
  | false =>
      have habove : d = above m e place := by
        refine hneighbour.resolve_left ?_
        rintro rfl
        rw [hbelow] at hd
        cases hd
      subst habove
      exact ⟨above m e place, by rw [neighbour?_eq, hbelow, hd], le_rfl⟩
  | true =>
      cases habove : readsBack m e (above m e place) with
      | false =>
          have hlower : d = below m e place := by
            refine hneighbour.resolve_right ?_
            rintro rfl
            rw [habove] at hd
            cases hd
          subst hlower
          exact ⟨below m e place, by rw [neighbour?_eq, hbelow, habove], le_rfl⟩
      | true =>
          obtain ⟨c, hchosen, hlower, hupper⟩ := neighbour?_of_both hbelow habove
          rcases hneighbour with rfl | rfl
          · exact ⟨c, hchosen, hlower⟩
          · exact ⟨c, hchosen, hupper⟩

/-- If a decimal that reads back has no neighbour of the value beyond it, then a neighbour is
chosen, and it is at least as near. -/
theorem neighbour?_nearest (h : Canonical m e) {place : Int} {d : Decimal}
    (hd : readsBack m e d = true)
    (hside : d.toRat ≤ (below m e place).toRat ∨ (above m e place).toRat ≤ d.toRat) :
    ∃ c, neighbour? m e place = some c ∧
      |magnitude m e - c.toRat| ≤ |magnitude m e - d.toRat| := by
  have hbelow := below_le m e place
  have habove := lt_above m e place
  rcases hside with hside | hside
  · have hread := readsBack_between h hd (.inr ⟨hside, hbelow⟩)
    obtain ⟨c, hchosen, hnear⟩ := neighbour?_of_readsBack hread (.inl rfl)
    refine ⟨c, hchosen, hnear.trans ?_⟩
    rw [abs_of_nonneg (by linarith), abs_of_nonneg (by linarith)]
    linarith
  · have hread := readsBack_between h hd (.inl ⟨habove.le, hside⟩)
    obtain ⟨c, hchosen, hnear⟩ := neighbour?_of_readsBack hread (.inr rfl)
    refine ⟨c, hchosen, hnear.trans ?_⟩
    rw [abs_of_nonpos (by linarith), abs_of_nonpos (by linarith)]
    linarith

theorem above_eq (m : Nat) (e place : Int) :
    (above m e place).toRat = (below m e place).toRat + (10 : Rat) ^ place := by
  rw [above, below, Decimal.toRat, Decimal.toRat]
  push_cast
  ring

/-- On a grid of seventeen digits a neighbour of the value reads back. -/
theorem exists_neighbour? (h : Canonical m e) (hm : m ≠ 0) :
    ∃ c, neighbour? m e (decimalOrder (magnitude m e) - 16) = some c := by
  have horder := (decimalOrder_bounds (magnitude_pos hm e)).1
  generalize hplace : decimalOrder (magnitude m e) - 16 = place
  have hunit : (0 : Rat) < (10 : Rat) ^ place := by positivity
  have hgrid : (10 : Rat) ^ (16 : Int) * (10 : Rat) ^ place ≤ magnitude m e := by
    rw [← ten_zpow_add, ← hplace, add_sub_cancel]
    exact horder
  have hpower : (0 : Rat) < (2 : Rat) ^ e := by positivity
  -- a unit of the grid is less than the distance of doubles
  have hfine : (10 : Rat) ^ place < (2 : Rat) ^ e := by
    have hbound : magnitude m e < (10 : Rat) ^ (16 : Int) * (2 : Rat) ^ e := by
      have hcast : (m : Rat) < mantissaBound := by exact_mod_cast h.1
      exact mul_lt_mul_of_pos_right (hcast.trans (by norm_num [mantissaBound])) hpower
    exact lt_of_mul_lt_mul_left (hgrid.trans_lt hbound) (by positivity)
  have hfiner (hnormal : m = normalMantissa) : 2 * (10 : Rat) ^ place < (2 : Rat) ^ e := by
    have hbound : 2 * magnitude m e < (10 : Rat) ^ (16 : Int) * (2 : Rat) ^ e := by
      rw [magnitude, hnormal, ← mul_assoc]
      exact mul_lt_mul_of_pos_right (by norm_num [normalMantissa]) hpower
    exact lt_of_mul_lt_mul_left (a := (10 : Rat) ^ (16 : Int)) (by linarith) (by positivity)
  have hbelow := below_le m e place
  have habove := lt_above m e place
  have hstep := above_eq m e place
  have hread (d : Decimal) (hnear : 2 * |d.toRat - magnitude m e| ≤ (10 : Rat) ^ place) :
      readsBack m e d = true := by
    refine (readsBack_iff h d).mpr (round_of_near h d.toRat_nonneg (by linarith) fun hnormal => ?_)
    linarith [hfiner hnormal]
  -- one of the neighbours is at most half a unit away
  by_cases hhalf : 2 * (magnitude m e - (below m e place).toRat) ≤ (10 : Rat) ^ place
  · have hlower := hread (below m e place) (by rwa [abs_sub_comm, abs_of_nonneg (by linarith)])
    obtain ⟨c, hchosen, _⟩ := neighbour?_of_readsBack hlower (.inl rfl)
    exact ⟨c, hchosen⟩
  · have hupper := hread (above m e place) (by rw [abs_of_nonneg (by linarith)]; linarith)
    obtain ⟨c, hchosen, _⟩ := neighbour?_of_readsBack hupper (.inr rfl)
    exact ⟨c, hchosen⟩

/-- A number of so many decimal digits lies on the grid of as many digits around a value, or
below all the neighbours of the value. -/
theorem beside_neighbours (hm : m ≠ 0) {count k : Nat} {q : Int} (hk : k < 10 ^ (count + 1)) :
    (⟨k, q⟩ : Decimal).toRat ≤
        (below m e (decimalOrder (magnitude m e) - count)).toRat ∨
      (above m e (decimalOrder (magnitude m e) - count)).toRat ≤ (⟨k, q⟩ : Decimal).toRat := by
  have horder := (decimalOrder_bounds (magnitude_pos hm e)).1
  generalize hplace : decimalOrder (magnitude m e) - count = place
  have hunit : (0 : Rat) < (10 : Rat) ^ place := by positivity
  have hvalue (u v : Nat) (h : u ≤ v) :
      (⟨u, place⟩ : Decimal).toRat ≤ (⟨v, place⟩ : Decimal).toRat :=
    mul_le_mul_of_nonneg_right (by exact_mod_cast h) hunit.le
  by_cases hq : place ≤ q
  · have hgrid : (⟨k, q⟩ : Decimal).toRat =
        (⟨k * 10 ^ (q - place).toNat, place⟩ : Decimal).toRat := by
      have hpower : (10 : Rat) ^ q = (10 : Rat) ^ (q - place).toNat * (10 : Rat) ^ place := by
        rw [← zpow_natCast, Int.toNat_of_nonneg (by omega), ← ten_zpow_add, sub_add_cancel]
      rw [Decimal.toRat, Decimal.toRat, hpower]
      push_cast
      ring
    rw [hgrid]
    rcases Nat.lt_or_ge (unitsBelow m e place) (k * 10 ^ (q - place).toNat) with hlt | hge
    · exact .inr (hvalue _ _ hlt)
    · exact .inl (hvalue _ _ hge)
  · -- the power of ten that the value is above lies on the grid, and the number below it
    have hten : ((10 ^ count : Nat) : Rat) * (10 : Rat) ^ place =
        (10 : Rat) ^ decimalOrder (magnitude m e) := by
      push_cast
      rw [← zpow_natCast, ← ten_zpow_add, ← hplace, add_sub_cancel]
    have hpoint : 10 ^ count ≤ unitsBelow m e place := le_unitsBelow_iff.mpr (hten ▸ horder)
    refine .inl (le_trans ?_ (hvalue _ _ hpoint))
    have hcast : (k : Rat) ≤ ((10 ^ (count + 1) : Nat) : Rat) := by exact_mod_cast hk.le
    calc (⟨k, q⟩ : Decimal).toRat ≤ ((10 ^ (count + 1) : Nat) : Rat) * (10 : Rat) ^ q :=
          mul_le_mul_of_nonneg_right hcast (by positivity)
      _ = (10 : Rat) ^ ((count + 1 : Nat) + q : Int) := by
          rw [ten_zpow_add, zpow_natCast]
          push_cast
          rfl
      _ ≤ (10 : Rat) ^ (count + place : Int) := ten_zpow_le (by push_cast; omega)
      _ = (⟨10 ^ count, place⟩ : Decimal).toRat := by
          rw [ten_zpow_add, zpow_natCast, Decimal.toRat]
          push_cast
          rfl

end Double

/-! ## Significant digits -/

namespace Decimal

theorem toDigits_mul_pow {n : Nat} (hn : n ≠ 0) (k : Nat) :
    Nat.toDigits 10 (n * 10 ^ k) = Nat.toDigits 10 n ++ zeros k := by
  induction k with
  | zero => rw [Nat.pow_zero, Nat.mul_one, zeros, List.replicate_zero, List.append_nil]
  | succ k ih =>
      have hpos : 0 < n * 10 ^ k := Nat.mul_pos (Nat.pos_of_ne_zero hn) (Nat.pow_pos (by decide))
      rw [show n * 10 ^ (k + 1) = 10 * (n * 10 ^ k) + 0 by ring,
        ← Nat.toDigits_append_toDigits (by decide) hpos (by decide), ih, List.append_assoc, zeros,
        zeros, List.replicate_succ']
      rfl

theorem length_significant_le (d : Decimal) : d.significant.length ≤ digitCount d.units := by
  obtain ⟨k, hdigits⟩ := toDigits_eq d
  rw [digitCount, hdigits, List.length_append]
  exact Nat.le_add_right _ _

/-- Zeros at the end are not significant. -/
theorem significant_mul_pow {n : Nat} (hn : n ≠ 0) (k : Nat) (exponent : Int) :
    significant ⟨n * 10 ^ k, exponent⟩ = significant ⟨n, exponent⟩ := by
  have hzeros (c : Char) (hc : c ∈ (zeros k).reverse) : decide (c = '0') = true :=
    decide_eq_true (List.eq_of_mem_replicate (List.mem_reverse.mp hc))
  rw [significant, significant, toDigits_mul_pow hn, List.reverse_append,
    List.dropWhile_append_of_pos hzeros]

/-- A number up to a power of ten has at most that many significant digits. -/
theorem length_significant_le_of_le {d : Decimal} {k : Nat} (hunits : d.units ≠ 0)
    (hle : d.units ≤ 10 ^ (k + 1)) : d.significant.length ≤ k + 1 := by
  obtain ⟨units, exponent⟩ := d
  rcases hle.eq_or_lt with rfl | hlt
  · rw [← Nat.one_mul (10 ^ (k + 1)), significant_mul_pow Nat.one_ne_zero]
    have hone : digitCount 1 = 1 := by decide
    exact (length_significant_le _).trans (hone.le.trans (Nat.le_add_left 1 k))
  · refine (length_significant_le _).trans ?_
    exact (Nat.length_toDigits_le_iff (by decide) (Nat.succ_pos k)).mpr hlt

/-- A decimal as its significant digits in units of their last place. -/
theorem exists_significant {d : Decimal} (hunits : d.units ≠ 0) :
    ∃ n q, d.toRat = (⟨n, q⟩ : Decimal).toRat ∧ n < 10 ^ d.significant.length := by
  obtain ⟨k, hvalue, hne, hcount⟩ := units_eq_significant hunits
  refine ⟨Nat.ofDigitChars 10 d.significant 0, d.exponent + k, ?_, ?_⟩
  · rw [toRat, toRat, ← hvalue, Double.ten_zpow_add, zpow_natCast]
    push_cast
    ring
  · have hlength : digitCount (Nat.ofDigitChars 10 d.significant 0) = d.significant.length := by
      rw [← hvalue, digitCount_mul_pow hne] at hcount
      omega
    rw [← hlength]
    exact (digitCount_bounds hne).2

end Decimal

/-! ## The search -/

/-- A search through the numbers below `n` finds the first one. -/
theorem first_of_findSome?_range {α : Type} {f : Nat → Option α} {n : Nat} {a : α}
    (h : (List.range n).findSome? f = some a) : ∃ j < n, f j = some a ∧ ∀ i < j, f i = none := by
  induction n with
  | zero => cases h
  | succ n ih =>
      rw [List.range_succ, List.findSome?_append] at h
      cases hearlier : (List.range n).findSome? f with
      | some found =>
          rw [hearlier] at h
          cases h
          obtain ⟨j, hj, hfound⟩ := ih hearlier
          exact ⟨j, by omega, hfound⟩
      | none =>
          rw [hearlier, Option.none_or, List.findSome?_singleton] at h
          refine ⟨n, by omega, h, fun i hi => ?_⟩
          exact List.findSome?_eq_none_iff.mp hearlier i (List.mem_range.mpr hi)

namespace Double

variable {m : Nat} {e : Int}

/-- The shortest decimal is the neighbour on the first grid that has one which reads back. -/
theorem shortest_eq (h : Canonical m e) (hm : m ≠ 0) :
    ∃ j : Nat, neighbour? m e (decimalOrder (magnitude m e) - j) = some (shortest m e) ∧
      ∀ i : Nat, i < j → neighbour? m e (decimalOrder (magnitude m e) - i) = none := by
  obtain ⟨c, hlast⟩ := exists_neighbour? h hm
  let search (finer : Nat) : Option Decimal :=
    neighbour? m e (decimalOrder (magnitude m e) - (finer : Int))
  have hsome : ((List.range 17).findSome? search).isSome = true :=
    List.findSome?_isSome_iff.mpr ⟨16, by decide, by simp [search, hlast]⟩
  obtain ⟨d, hfound⟩ := Option.isSome_iff_exists.mp hsome
  have hshortest : shortest m e = d := by
    rw [shortest]
    exact (congrArg (Option.getD · (exactDecimal m e)) hfound).trans rfl
  rw [hshortest]
  obtain ⟨j, _, hfirst⟩ := first_of_findSome?_range hfound
  exact ⟨j, hfirst⟩

theorem eq_of_neighbour? {place : Int} {c : Decimal} (h : neighbour? m e place = some c) :
    c = below m e place ∨ c = above m e place := by
  rw [neighbour?_eq] at h
  split at h
  · cases h
  · exact .inl (Option.some.inj h).symm
  · exact .inr (Option.some.inj h).symm
  · split at h
    · exact .inl (Option.some.inj h).symm
    · exact .inr (Option.some.inj h).symm

/-- A neighbour on a grid has no more significant digits than the grid. -/
theorem length_significant_neighbour? (hm : m ≠ 0) {j : Nat} {c : Decimal}
    (h : neighbour? m e (decimalOrder (magnitude m e) - j) = some c) :
    c.significant.length ≤ j + 1 := by
  obtain ⟨hlow, hhigh⟩ := decimalOrder_bounds (magnitude_pos hm e)
  have hpower (k : Nat) : ((10 ^ k : Nat) : Rat) *
      (10 : Rat) ^ (decimalOrder (magnitude m e) - j) =
        (10 : Rat) ^ (decimalOrder (magnitude m e) - j + k) := by
    push_cast
    rw [← zpow_natCast, ← ten_zpow_add, add_comm]
  have hleast : 10 ^ j ≤ unitsBelow m e (decimalOrder (magnitude m e) - j) := by
    rw [le_unitsBelow_iff, hpower, sub_add_cancel]
    exact hlow
  have hmost : unitsBelow m e (decimalOrder (magnitude m e) - j) < 10 ^ (j + 1) := by
    rw [← not_le, le_unitsBelow_iff, hpower, Nat.cast_succ, ← add_assoc, sub_add_cancel]
    exact not_le.mpr hhigh
  have hpos : 0 < 10 ^ j := Nat.pow_pos (by decide)
  rcases eq_of_neighbour? h with rfl | rfl
  · exact Decimal.length_significant_le_of_le (by rw [below]; dsimp only; omega) hmost.le
  · exact Decimal.length_significant_le_of_le (Nat.succ_ne_zero _) hmost

/-- The grid of as many digits as a decimal that reads back has a neighbour which reads back and
is at least as near. -/
theorem neighbour?_of_significant (h : Canonical m e) (hm : m ≠ 0) {d : Decimal}
    (hd : readsBack m e d = true) :
    ∃ j : Nat, j + 1 = d.significant.length ∧
      ∃ c, neighbour? m e (decimalOrder (magnitude m e) - j) = some c ∧
        |magnitude m e - c.toRat| ≤ |magnitude m e - d.toRat| := by
  obtain ⟨_, htoDouble⟩ := toDouble_of_readsBack hd
  have hunits := units_ne_zero_of_toDouble hm htoDouble
  obtain ⟨n, q, hvalue, hn⟩ := Decimal.exists_significant hunits
  obtain ⟨j, hj⟩ := Nat.exists_eq_succ_of_ne_zero
    (List.length_pos_iff.mpr (Decimal.significant_ne_nil hunits)).ne'
  rw [hj] at hn
  refine ⟨j, hj.symm, neighbour?_nearest h hd ?_⟩
  rw [hvalue]
  exact beside_neighbours hm hn

/-- No decimal that reads back has fewer significant digits than the shortest one, and none with
as few is nearer to the value. -/
theorem shortest_spec (h : Canonical m e) (hm : m ≠ 0) {d : Decimal}
    (hd : d.toDouble false = .finite false m e h) :
    (shortest m e).significant.length ≤ d.significant.length ∧
      (d.significant.length ≤ (shortest m e).significant.length →
        |magnitude m e - (shortest m e).toRat| ≤ |magnitude m e - d.toRat|) := by
  have hread : readsBack m e d = true := by
    rw [readsBack_iff h, ← Decimal.toDouble_eq_round_toRat, hd]
  obtain ⟨j, hfound, hfirst⟩ := shortest_eq h hm
  obtain ⟨i, hi, c, hchosen, hnear⟩ := neighbour?_of_significant h hm hread
  have hlength := length_significant_neighbour? hm hfound
  -- the search has stopped no later than on the grid of the digits of the other decimal
  have hle : j ≤ i := by
    by_contra hlt
    rw [hfirst i (by omega)] at hchosen
    cases hchosen
  refine ⟨by omega, fun hfew => ?_⟩
  have hsame : i = j := by omega
  rw [hsame, hfound] at hchosen
  rwa [Option.some.inj hchosen]

end Double

/-! ## The texts of numbers -/

namespace Decimal

theorem order_eq {d : Decimal} (hunits : d.units ≠ 0) {k : Int} (hlow : (10 : Rat) ^ k ≤ d.toRat)
    (hhigh : d.toRat < (10 : Rat) ^ (k + 1)) : d.order = k := by
  obtain ⟨hlow', hhigh'⟩ := toRat_bounds hunits
  have hten : (1 : Rat) < 10 := by norm_num
  have hle : k < d.places := (zpow_lt_zpow_iff_right₀ hten).mp (hlow.trans_lt hhigh')
  have hge : d.places - 1 < k + 1 := (zpow_lt_zpow_iff_right₀ hten).mp (hlow'.trans_lt hhigh)
  unfold order
  unfold places at hle hge
  omega

/-- The text has an exponent unless the first digit stands between `10 ^ -4` and `10 ^ 15`. -/
theorem mem_text_iff (d : Decimal) : 'e' ∈ d.text ↔ ¬(-4 ≤ d.order ∧ d.order < 16) := by
  have hnone {cs : List Char} (hdigits : Text.IsDigits cs) : 'e' ∉ cs := by
    intro he
    exact absurd (hdigits 'e' he) (by decide)
  rw [text]
  by_cases hplain : -4 ≤ d.order ∧ d.order < 16
  · rw [if_pos (by simpa using hplain)]
    obtain ⟨whole, fraction, heq, _, hdigits, _⟩ := plain_eq d.significant d.order
    obtain ⟨hwhole, hfraction⟩ := hdigits (isDigits_significant d)
    rw [heq]
    simp [hplain, hnone hwhole, hnone hfraction]
  · rw [if_neg (by simpa using hplain)]
    simp [scientific, hplain]

end Decimal

namespace Number

open Double (Canonical IsNearest magnitude)

theorem text_injective : Function.Injective text := by
  intro x y heq
  have hx := read?_text x
  rw [heq, read?_text y] at hx
  exact (Option.some.inj hx).symm

/-- **Numbers survive their texts.**  Every number is read back from its text as the same number, of
the same exactness, and two numbers have one text exactly if they are the same.

The text of a decimal is read as the double nearest to its value, and as the one with the even
mantissa if two are equally near.  A finite double is written with a decimal that is read as it,
with the fewest significant digits that such a decimal can have.  Of those with so few digits none
is nearer.  The text has an exponent if the first digit does not stand between `10 ^ -4` and
`10 ^ 15`. -/
theorem number_texts_round_trip :
    (∀ x : Number, ∃ y, read? x.text.toList = some y ∧ y.same x = true ∧
      ((∃ n, y = .exact n) ↔ ∃ n, x = .exact n)) ∧
    (∀ x y : Number, x.text = y.text ↔ x.same y = true) ∧
    (∀ (d : Decimal) negative, IsNearest negative d.toRat (d.toDouble negative) ∧
      (d.units ≠ 0 → read? (withSign negative d.text) = some (.inexact (d.toDouble negative)))) ∧
    ∀ negative m e (h : Canonical m e), m ≠ 0 →
      ∃ d : Decimal, (Double.finite negative m e h).text.toList = withSign negative d.text ∧
        d.toDouble negative = .finite negative m e h ∧
        (∀ other : Decimal, other.toDouble negative = .finite negative m e h →
          d.significant.length ≤ other.significant.length ∧
          (other.significant.length = d.significant.length →
            |magnitude m e - d.toRat| ≤ |magnitude m e - other.toRat|)) ∧
        ∀ k : Int, (10 : Rat) ^ k ≤ d.toRat → d.toRat < (10 : Rat) ^ (k + 1) →
          ('e' ∈ d.text ↔ ¬(-4 ≤ k ∧ k < 16)) := by
  refine ⟨fun x => ⟨x, read?_text x, decide_eq_true rfl, Iff.rfl⟩, fun x y => ?_,
    fun d negative => ⟨d.isNearest_toDouble negative, fun hunits => d.read?_text hunits negative⟩,
    fun negative m e h hm => ?_⟩
  · rw [same, decide_eq_true_iff]
    exact text_injective.eq_iff
  · refine ⟨Double.shortest m e, ?_, Double.toDouble_shortest h hm negative, ?_, ?_⟩
    · rw [Double.toList_text_finite, Double.magnitudeText, if_neg hm]
    · intro other hother
      obtain ⟨hshort, hnear⟩ := Double.shortest_spec h hm (Double.toDouble_sign hother)
      exact ⟨hshort, fun hlength => hnear hlength.le⟩
    · intro k hlow hhigh
      rw [Decimal.mem_text_iff, Decimal.order_eq (Double.units_shortest_ne_zero h hm) hlow hhigh]

end Number

end SchemeMachine
