import SchemeMachine.Number.Literal
import SchemeMachine.Number.Text
import SchemeMachine.Proofs.Number.Decimals

/-!
# The text of a number reads back

Every number is read back from its text as itself: `Number.read?_text`.  For an exact
number this is reading a row of digits.  For a finite double the text shows the digits
of `shortest`, without the zeros at their end and in one of two notations.  Both
notations read as the same decimal, `ofSignificant`, and that one differs from the
decimal written by zeros at the end only.
-/

namespace SchemeMachine

namespace Text

/-! ## Rows of digits -/

/-- A row of the digits that numbers are written with. -/
def IsDigits (cs : List Char) : Prop :=
  ∀ c ∈ cs, c.isDigit = true

theorem IsDigits.append {cs ds : List Char} (hcs : IsDigits cs) (hds : IsDigits ds) :
    IsDigits (cs ++ ds) := by
  intro c hc
  rcases List.mem_append.mp hc with hc | hc
  · exact hcs c hc
  · exact hds c hc

theorem isDigits_toDigits (n : Nat) : IsDigits (Nat.toDigits 10 n) :=
  fun _ hc => Nat.isDigit_of_mem_toDigits (by decide) (by decide) hc

theorem isDigits_zeros (n : Nat) : IsDigits (Decimal.zeros n) := by
  intro c hc
  rw [List.eq_of_mem_replicate hc]
  decide

theorem digit?_of_isDigit {c : Char} (h : c.isDigit = true) :
    digit? c = some (c.toNat - '0'.toNat) := by
  have hbounds : 0x30 ≤ c.toNat ∧ c.toNat < 0x30 + 10 := by
    simp only [Char.isDigit, ge_iff_le, Bool.and_eq_true, decide_eq_true_eq] at h
    have hlow : '0'.val.toNat ≤ c.val.toNat := h.1
    have hhigh : c.val.toNat ≤ '9'.val.toNat := h.2
    exact ⟨hlow, Nat.lt_succ_of_le hhigh⟩
  have htest : (decide (0x30 ≤ c.toNat) && decide (c.toNat < 0x30 + 10)) = true := by
    simp only [hbounds, decide_true, Bool.and_self]
  have hzeros : digitZeros = 0x30 :: digitZeros.tail := rfl
  rw [digit?, hzeros, List.find?_cons]
  simp only [htest]
  rfl

theorem isDigit_of_isDigit {c : Char} (h : c.isDigit = true) : isDigit c = true := by
  rw [isDigit, digit?_of_isDigit h]
  rfl

/-- What may follow a row of digits so that the row ends there. -/
def NoDigit (rest : List Char) : Prop :=
  ∀ c ∈ rest.head?, isDigit c = false

theorem noDigit_nil : NoDigit [] := nofun

theorem noDigit_cons {c : Char} (h : isDigit c = false) (rest : List Char) :
    NoDigit (c :: rest) := by
  intro c' hc'
  cases hc'
  exact h

theorem afterDigits_append {digits rest : List Char} (hdigits : IsDigits digits)
    (hrest : NoDigit rest) : afterDigits (digits ++ rest) = rest := by
  rw [afterDigits, List.dropWhile_append_of_pos fun c hc => isDigit_of_isDigit (hdigits c hc)]
  cases rest with
  | nil => rfl
  | cons c rest => rw [List.dropWhile_cons_of_neg (by simp [hrest c rfl])]

theorem leadingDigits_append {digits rest : List Char} (hdigits : IsDigits digits)
    (hrest : NoDigit rest) :
    leadingDigits (digits ++ rest) = digits.map fun c => c.toNat - '0'.toNat := by
  have htaken : rest.takeWhile isDigit = [] := by
    cases rest with
    | nil => rfl
    | cons c rest => rw [List.takeWhile_cons_of_neg (by simp [hrest c rfl])]
  rw [leadingDigits,
    List.takeWhile_append_of_pos fun c hc => isDigit_of_isDigit (hdigits c hc), htaken,
    List.append_nil, ← List.filterMap_eq_map]
  exact List.filterMap_congr fun c hc => digit?_of_isDigit (hdigits c hc)

theorem ofDigits_map (digits : List Char) :
    ofDigits (digits.map fun c => c.toNat - '0'.toNat) = Nat.ofDigitChars 10 digits 0 := by
  rw [ofDigits, List.foldl_map]
  rfl

end Text

namespace Number

open Text (IsDigits NoDigit isDigits_toDigits isDigits_zeros noDigit_nil noDigit_cons
  afterDigits_append leadingDigits_append ofDigits_map)

/-! ## Reading digits -/

/-- A text with a minus in front of it, or none. -/
def withSign (negative : Bool) (cs : List Char) : List Char :=
  if negative then '-' :: cs else cs

theorem takeSign_withSign (negative : Bool) {digits : List Char} (hdigits : IsDigits digits)
    (hne : digits ≠ []) (rest : List Char) :
    takeSign (withSign negative (digits ++ rest)) = (negative, digits ++ rest) := by
  cases negative with
  | true => rfl
  | false =>
      obtain ⟨c, digits, rfl⟩ := List.exists_cons_of_ne_nil hne
      have hc := hdigits c List.mem_cons_self
      rw [withSign, if_neg Bool.false_ne_true, List.cons_append, takeSign]
      · intro cs hplus
        rw [(List.cons.inj hplus).1] at hc
        exact absurd hc (by decide)
      · intro cs hminus
        rw [(List.cons.inj hminus).1] at hc
        exact absurd hc (by decide)

theorem readInteger?_withSign (negative : Bool) {digits : List Char} (hdigits : IsDigits digits)
    (hne : digits ≠ []) :
    readInteger? (withSign negative digits) =
      some (signed negative (Nat.ofDigitChars 10 digits 0)) := by
  have hsign := takeSign_withSign negative hdigits hne []
  have hafter := afterDigits_append hdigits noDigit_nil
  have hleading := leadingDigits_append hdigits noDigit_nil
  rw [List.append_nil] at hsign hafter hleading
  simp only [readInteger?, hsign, hafter, hleading, ofDigits_map]
  simp [hne]

/-- A row of digits that goes on with something else is no exact number. -/
theorem readInteger?_continued (negative : Bool) {digits : List Char} (hdigits : IsDigits digits)
    (hne : digits ≠ []) {c : Char} (hc : Text.isDigit c = false) (rest : List Char) :
    readInteger? (withSign negative (digits ++ c :: rest)) = none := by
  simp only [readInteger?, takeSign_withSign negative hdigits hne,
    afterDigits_append hdigits (noDigit_cons hc rest)]
  simp

theorem readDecimal?_point (negative : Bool) {whole fraction rest : List Char} {exponent : Int}
    (hwhole : IsDigits whole) (hne : whole ≠ []) (hfraction : IsDigits fraction)
    (hrest : NoDigit rest) (hexponent : readExponent? rest = some exponent) :
    readDecimal? (withSign negative (whole ++ '.' :: (fraction ++ rest))) =
      some (Decimal.toDouble negative
        ⟨Nat.ofDigitChars 10 (whole ++ fraction) 0, exponent - (fraction.length : Int)⟩) := by
  have hpoint : NoDigit ('.' :: (fraction ++ rest)) := noDigit_cons (by decide) _
  simp only [readDecimal?, takeSign_withSign negative hwhole hne,
    leadingDigits_append hwhole hpoint, afterDigits_append hwhole hpoint, takeFraction,
    leadingDigits_append hfraction hrest, afterDigits_append hfraction hrest, hexponent,
    ← List.map_append, ofDigits_map, List.length_map]
  simp [hne]

theorem readDecimal?_exponent (negative : Bool) {whole rest : List Char} {exponent : Int}
    (hwhole : IsDigits whole) (hne : whole ≠ [])
    (hexponent : readExponent? ('e' :: rest) = some exponent) :
    readDecimal? (withSign negative (whole ++ 'e' :: rest)) =
      some (Decimal.toDouble negative ⟨Nat.ofDigitChars 10 whole 0, exponent⟩) := by
  have hmark : NoDigit ('e' :: rest) := noDigit_cons (by decide) _
  have hfraction : takeFraction ('e' :: rest) = ([], 'e' :: rest) := rfl
  simp only [readDecimal?, takeSign_withSign negative hwhole hne,
    leadingDigits_append hwhole hmark, afterDigits_append hwhole hmark, hfraction, hexponent,
    List.append_nil, ofDigits_map]
  simp [hne]

theorem readExponent?_exponentDigits (order : Int) :
    readExponent? ('e' :: (if order < 0 then '-' else '+') ::
      Decimal.exponentDigits order.natAbs) = some order := by
  have hdigits : IsDigits (Decimal.exponentDigits order.natAbs) :=
    (isDigits_zeros _).append (isDigits_toDigits _)
  have hne : Decimal.exponentDigits order.natAbs ≠ [] := by
    simp [Decimal.exponentDigits, Nat.toDigits_ne_nil]
  have hvalue : Nat.ofDigitChars 10 (Decimal.exponentDigits order.natAbs) 0 = order.natAbs := by
    rw [Decimal.exponentDigits, Decimal.zeros, Nat.ofDigitChars_append,
      Nat.ofDigitChars_replicate_zero, Nat.mul_zero, Nat.ofDigitChars_ten_toDigits]
  have hread := readInteger?_withSign (order < 0) hdigits hne
  rw [hvalue] at hread
  by_cases hneg : order < 0
  · simp only [hneg, decide_true, withSign, signed, if_true] at hread ⊢
    rw [readExponent?, if_pos (by decide), hread]
    congr 1
    omega
  · -- the plus that stands before an exponent which is not negative is skipped
    have hplus : readInteger? ('+' :: Decimal.exponentDigits order.natAbs) =
        readInteger? (Decimal.exponentDigits order.natAbs) := by
      have hsign := takeSign_withSign false hdigits hne []
      rw [List.append_nil] at hsign
      have hsign' : takeSign (Decimal.exponentDigits order.natAbs) =
          (false, Decimal.exponentDigits order.natAbs) := hsign
      simp only [readInteger?, hsign']
      rfl
    simp only [hneg, decide_false, withSign, signed, Bool.false_eq_true, if_false] at hread ⊢
    rw [readExponent?, if_pos (by decide), hplus, hread]
    congr 1
    omega

end Number

namespace Decimal

open Text (IsDigits NoDigit isDigits_toDigits isDigits_zeros noDigit_nil noDigit_cons)
open Number (withSign readDecimal? readDecimal?_point readDecimal?_exponent readExponent?
  readExponent?_exponentDigits readInteger?_continued)

/-! ## The two notations -/

/-- The decimal of a row of digits, the first of which stands at `10 ^ order`. -/
def ofSignificant (digits : List Char) (order : Int) : Decimal :=
  ⟨Nat.ofDigitChars 10 digits 0, order + 1 - (digits.length : Int)⟩

theorem ofDigitChars_append_zeros (digits : List Char) (k : Nat) :
    Nat.ofDigitChars 10 (digits ++ zeros k) 0 = Nat.ofDigitChars 10 digits 0 * 10 ^ k := by
  rw [Nat.ofDigitChars_append, zeros, Nat.ofDigitChars_replicate_zero, Nat.mul_comm]

theorem ofDigitChars_zeros_append (digits : List Char) (k : Nat) :
    Nat.ofDigitChars 10 (zeros k ++ digits) 0 = Nat.ofDigitChars 10 digits 0 := by
  rw [Nat.ofDigitChars_append, zeros, Nat.ofDigitChars_replicate_zero, Nat.mul_zero]

variable {digits : List Char} {order : Int}

theorem plain_eq (digits : List Char) (order : Int) :
    ∃ whole fraction : List Char, plain digits order = whole ++ '.' :: fraction ∧ whole ≠ [] ∧
      (IsDigits digits → IsDigits whole ∧ IsDigits fraction) ∧
      ∃ k : Nat, Nat.ofDigitChars 10 (whole ++ fraction) 0 = Nat.ofDigitChars 10 digits 0 * 10 ^ k ∧
        -(fraction.length : Int) = order + 1 - (digits.length : Int) - (k : Int) := by
  unfold plain
  split
  · next hneg =>
      refine ⟨zeros 1, zeros (-order - 1).toNat ++ digits, rfl, nofun,
        fun h => ⟨isDigits_zeros 1, (isDigits_zeros _).append h⟩, 0, ?_, ?_⟩
      · rw [ofDigitChars_zeros_append, ofDigitChars_zeros_append, Nat.pow_zero, Nat.mul_one]
      · simp only [List.length_append, zeros, List.length_replicate]
        omega
  · next hnonneg =>
      dsimp only
      split
      · next hshort =>
          refine ⟨digits ++ zeros (order.toNat + 1 - digits.length), zeros 1, rfl, ?_,
            fun h => ⟨h.append (isDigits_zeros _), isDigits_zeros 1⟩,
            order.toNat + 1 - digits.length + 1, ?_, ?_⟩
          · intro hnil
            have hlength := congrArg List.length hnil
            simp only [List.length_append, zeros, List.length_replicate, List.length_nil] at hlength
            omega
          · rw [ofDigitChars_append_zeros, ofDigitChars_append_zeros, Nat.pow_succ, Nat.pow_succ,
              Nat.pow_zero, Nat.one_mul, Nat.mul_assoc]
          · simp only [zeros, List.length_replicate]
            omega
      · next hlong =>
          refine ⟨digits.take (order.toNat + 1), digits.drop (order.toNat + 1), rfl, ?_,
            fun h => ⟨fun c hc => h c (List.mem_of_mem_take hc),
              fun c hc => h c (List.mem_of_mem_drop hc)⟩, 0, ?_, ?_⟩
          · intro hnil
            have hlength := congrArg List.length hnil
            simp only [List.length_take, List.length_nil] at hlength
            omega
          · rw [List.take_append_drop, Nat.pow_zero, Nat.mul_one]
          · rw [List.length_drop]
            omega

theorem readDecimal?_plain (hdigits : IsDigits digits) (negative : Bool) :
    readDecimal? (withSign negative (plain digits order)) =
      some ((ofSignificant digits order).toDouble negative) := by
  obtain ⟨whole, fraction, heq, hne, hboth, k, hnumber, hplace⟩ := plain_eq digits order
  obtain ⟨hwhole, hfraction⟩ := hboth hdigits
  have hread := readDecimal?_point negative hwhole hne hfraction noDigit_nil
    (rfl : readExponent? [] = some 0)
  rw [List.append_nil, hnumber, Int.zero_sub, hplace, toDouble_zeros] at hread
  rw [heq, hread]
  rfl

theorem readInteger?_plain (hdigits : IsDigits digits) (negative : Bool) :
    Number.readInteger? (withSign negative (plain digits order)) = none := by
  obtain ⟨whole, fraction, heq, hne, hboth, _⟩ := plain_eq digits order
  rw [heq]
  exact readInteger?_continued negative (hboth hdigits).1 hne (by decide) fraction

theorem readDecimal?_scientific (hdigits : IsDigits digits) (hne : digits ≠ []) (negative : Bool) :
    readDecimal? (withSign negative (scientific digits order)) =
      some ((ofSignificant digits order).toDouble negative) := by
  have hexponent := readExponent?_exponentDigits order
  have hlength : digits.length ≠ 0 := fun h => hne (List.length_eq_zero_iff.mp h)
  unfold scientific
  dsimp only
  split
  · next hshort =>
      rw [readDecimal?_exponent negative hdigits hne hexponent, ofSignificant,
        show order + 1 - (digits.length : Int) = order by omega]
  · next hlong =>
      have htake : IsDigits (digits.take 1) := fun c hc => hdigits c (List.mem_of_mem_take hc)
      have hdrop : IsDigits (digits.drop 1) := fun c hc => hdigits c (List.mem_of_mem_drop hc)
      have hfirst : digits.take 1 ≠ [] := by
        intro hnil
        have htaken := congrArg List.length hnil
        simp only [List.length_take, List.length_nil] at htaken
        omega
      rw [List.append_assoc, List.cons_append,
        readDecimal?_point negative htake hfirst hdrop (noDigit_cons (by decide) _) hexponent,
        List.take_append_drop, ofSignificant, List.length_drop,
        show order - ((digits.length - 1 : Nat) : Int) = order + 1 - (digits.length : Int) by omega]

theorem readInteger?_scientific (hdigits : IsDigits digits) (hne : digits ≠ []) (negative : Bool) :
    Number.readInteger? (withSign negative (scientific digits order)) = none := by
  unfold scientific
  dsimp only
  split
  · exact readInteger?_continued negative hdigits hne (by decide) _
  · next hlong =>
      have htake : IsDigits (digits.take 1) := fun c hc => hdigits c (List.mem_of_mem_take hc)
      have hfirst : digits.take 1 ≠ [] := by
        intro hnil
        have htaken := congrArg List.length hnil
        simp only [List.length_take, List.length_nil] at htaken
        omega
      rw [List.append_assoc, List.cons_append]
      exact readInteger?_continued negative htake hfirst (by decide) _

/-! ## The text of a decimal -/

/-- The digits of a decimal are the significant ones and zeros. -/
theorem toDigits_eq (d : Decimal) :
    ∃ k : Nat, Nat.toDigits 10 d.units = d.significant ++ zeros k := by
  let reversed := (Nat.toDigits 10 d.units).reverse
  refine ⟨(reversed.takeWhile (· = '0')).length, ?_⟩
  have hzeros : reversed.takeWhile (· = '0') = zeros (reversed.takeWhile (· = '0')).length := by
    refine List.eq_replicate_of_mem fun c hc => ?_
    exact of_decide_eq_true (List.all_eq_true.mp List.all_takeWhile c hc)
  have hsplit : reversed.takeWhile (· = '0') ++ reversed.dropWhile (· = '0') = reversed :=
    List.takeWhile_append_dropWhile
  calc Nat.toDigits 10 d.units = reversed.reverse := (List.reverse_reverse _).symm
    _ = (reversed.dropWhile (· = '0')).reverse ++ (reversed.takeWhile (· = '0')).reverse := by
        rw [← List.reverse_append, hsplit]
    _ = d.significant ++ zeros (reversed.takeWhile (· = '0')).length := by
        rw [hzeros, zeros, List.reverse_replicate, List.length_replicate]
        rfl

/-- The units are those of the significant digits, with the zeros that were left out. -/
theorem units_eq_significant {d : Decimal} (hunits : d.units ≠ 0) :
    ∃ k : Nat, Nat.ofDigitChars 10 d.significant 0 * 10 ^ k = d.units ∧
      Nat.ofDigitChars 10 d.significant 0 ≠ 0 ∧
      digitCount d.units = d.significant.length + k := by
  obtain ⟨k, hdigits⟩ := toDigits_eq d
  have hvalue : Nat.ofDigitChars 10 d.significant 0 * 10 ^ k = d.units := by
    rw [← ofDigitChars_append_zeros, ← hdigits, Nat.ofDigitChars_ten_toDigits]
  refine ⟨k, hvalue, ?_, ?_⟩
  · intro hzero
    rw [hzero, Nat.zero_mul] at hvalue
    exact hunits hvalue.symm
  · rw [digitCount, hdigits, List.length_append, zeros, List.length_replicate]

/-- Leaving out the zeros at the end of a decimal does not change how it is read. -/
theorem toDouble_significant {d : Decimal} (hunits : d.units ≠ 0) (negative : Bool) :
    (ofSignificant d.significant d.order).toDouble negative = d.toDouble negative := by
  obtain ⟨k, hvalue, _, hcount⟩ := units_eq_significant hunits
  have hexponent : d.order + 1 - (d.significant.length : Int) - (k : Int) = d.exponent := by
    rw [Decimal.order, hcount]
    omega
  rw [ofSignificant, ← toDouble_zeros _ _ k, hvalue, hexponent]

theorem isDigits_significant (d : Decimal) : IsDigits d.significant := by
  obtain ⟨k, hdigits⟩ := toDigits_eq d
  intro c hc
  exact isDigits_toDigits d.units c (hdigits ▸ List.mem_append_left _ hc)

theorem significant_ne_nil {d : Decimal} (hunits : d.units ≠ 0) : d.significant ≠ [] := by
  intro hnil
  obtain ⟨_, _, hne, _⟩ := units_eq_significant hunits
  rw [hnil] at hne
  exact hne rfl

theorem readDecimal?_text {d : Decimal} (hunits : d.units ≠ 0) (negative : Bool) :
    readDecimal? (withSign negative d.text) = some (d.toDouble negative) := by
  rw [← toDouble_significant hunits]
  unfold text
  split
  · exact readDecimal?_plain (isDigits_significant d) negative
  · exact readDecimal?_scientific (isDigits_significant d) (significant_ne_nil hunits) negative

theorem readInteger?_text {d : Decimal} (hunits : d.units ≠ 0) (negative : Bool) :
    Number.readInteger? (withSign negative d.text) = none := by
  unfold text
  split
  · exact readInteger?_plain (isDigits_significant d) negative
  · exact readInteger?_scientific (isDigits_significant d) (significant_ne_nil hunits) negative

/-- The text of a decimal, with a sign, is read as an inexact number. -/
theorem read?_text {d : Decimal} (hunits : d.units ≠ 0) (negative : Bool) :
    Number.read? (withSign negative d.text) = some (.inexact (d.toDouble negative)) := by
  rw [Number.read?, readInteger?_text hunits]
  dsimp only
  rw [readDecimal?_text hunits]

end Decimal

namespace Double

theorem toList_text_finite (negative : Bool) (m : Nat) (e : Int) (h : Canonical m e) :
    (text (finite negative m e h)).toList = Number.withSign negative (magnitudeText m e) :=
  String.toList_ofList

theorem read?_text (x : Double) : Number.read? x.text.toList = some (.inexact x) := by
  cases x with
  | nan => decide +kernel
  | infinite negative => cases negative <;> decide +kernel
  | finite negative m e h =>
      rw [toList_text_finite, magnitudeText]
      by_cases hm : m = 0
      · subst hm
        -- zero is canonical with the least exponent only
        obtain ⟨_, _, _, hform⟩ := h
        have he : e = minExponent := hform.resolve_left (by decide)
        subst he
        rw [if_pos rfl]
        cases negative <;> rfl
      · rw [if_neg hm, Decimal.read?_text (units_shortest_ne_zero h hm), toDouble_shortest h hm]

end Double

namespace Number

theorem toList_integerText (n : Int) :
    (integerText n).toList = withSign (n < 0) (Nat.toDigits 10 n.natAbs) := by
  rw [integerText, String.toList_ofList, withSign]
  simp only [decide_eq_true_eq]

theorem read?_integerText (n : Int) : read? (integerText n).toList = some (exact n) := by
  rw [read?, toList_integerText,
    readInteger?_withSign _ (Text.isDigits_toDigits _) Nat.toDigits_ne_nil,
    Nat.ofDigitChars_ten_toDigits]
  dsimp only
  congr 2
  by_cases hneg : n < 0
  · simp only [hneg, decide_true, signed, if_true]
    omega
  · simp only [hneg, decide_false, signed, Bool.false_eq_true, if_false]
    omega

/-- Every number is read back from its text, the sign of a zero included. -/
theorem read?_text (n : Number) : read? n.text.toList = some n := by
  cases n with
  | exact n => exact read?_integerText n
  | inexact x => exact Double.read?_text x

/-- The text of a number is none of the texts that denote no number. -/
theorem text_ne {s : String} (hs : read? s.toList = none) (n : Number) : n.text ≠ s := by
  rintro rfl
  rw [read?_text] at hs
  cases hs

/-! ## The characters of a number -/

/-- Whether the text of some number has the character in it. -/
def isInText (c : Char) : Bool :=
  c.isDigit || c ∈ "+-.einfa".toList

theorem isInText_of_isDigit {c : Char} (h : c.isDigit = true) : isInText c = true := by
  rw [isInText, h, Bool.true_or]

theorem isInText_withSign (negative : Bool) {cs : List Char} (h : ∀ c ∈ cs, isInText c = true) :
    ∀ c ∈ withSign negative cs, isInText c = true := by
  cases negative with
  | false => exact h
  | true => exact List.forall_mem_cons.mpr ⟨by decide, h⟩

theorem isInText_decimal (d : Decimal) : ∀ c ∈ d.text, isInText c = true := by
  have hdigits := d.isDigits_significant
  have hzeros (n : Nat) : ∀ c ∈ Decimal.exponentDigits n, isInText c = true := fun c hc =>
    isInText_of_isDigit (((Text.isDigits_zeros _).append (Text.isDigits_toDigits _)) c hc)
  unfold Decimal.text
  split
  · obtain ⟨whole, fraction, heq, _, hboth, _⟩ := Decimal.plain_eq d.significant d.order
    obtain ⟨hwhole, hfraction⟩ := hboth hdigits
    rw [heq]
    refine List.forall_mem_append.mpr ⟨fun c hc => isInText_of_isDigit (hwhole c hc), ?_⟩
    exact List.forall_mem_cons.mpr ⟨by decide, fun c hc => isInText_of_isDigit (hfraction c hc)⟩
  · refine List.forall_mem_append.mpr ⟨?_, List.forall_mem_cons.mpr ⟨by decide,
      List.forall_mem_cons.mpr ⟨?_, hzeros _⟩⟩⟩
    · split
      · exact fun c hc => isInText_of_isDigit (hdigits c hc)
      · refine List.forall_mem_append.mpr
          ⟨fun c hc => isInText_of_isDigit (hdigits c (List.mem_of_mem_take hc)),
            List.forall_mem_cons.mpr ⟨by decide,
              fun c hc => isInText_of_isDigit (hdigits c (List.mem_of_mem_drop hc))⟩⟩
    · split <;> decide

theorem isInText_text (n : Number) : ∀ c ∈ n.text.toList, isInText c = true := by
  cases n with
  | exact n =>
      rw [Number.text, toList_integerText]
      exact isInText_withSign _ fun c hc => isInText_of_isDigit (Text.isDigits_toDigits _ c hc)
  | inexact x =>
      cases x with
      | nan => exact List.all_eq_true.mp (by decide +kernel)
      | infinite negative =>
          refine List.all_eq_true.mp ?_
          cases negative <;> decide +kernel
      | finite negative m e h =>
          rw [Number.text, Double.toList_text_finite]
          refine isInText_withSign negative ?_
          unfold Double.magnitudeText
          split
          · exact List.all_eq_true.mp (by decide +kernel)
          · exact isInText_decimal _

end Number

end SchemeMachine
