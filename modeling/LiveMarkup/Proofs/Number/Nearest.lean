import LiveMarkup.Proofs.Number.Decimals
import Mathlib.Algebra.Order.Group.Abs

/-!
Correct rounding. A finite number is what a rational is rounded to if no finite number is nearer to
the rational, if its last bit is zero should another one be just as near, and if the rational lies
below the middle between the largest number and `2 ^ 1024` (`Number.IsRounding`). A decimal is read
as the number that its value is rounded to, with the sign that is written in front of it, and from
that middle up as no finite number at all (`Decimal.toNumber_eq_iff`).
-/

set_option autoImplicit false
set_option relaxedAutoImplicit false

namespace LiveMarkup

/-- A rational with a sign in front. -/
def signed (negative : Bool) (q : ℚ) : ℚ := if negative then -q else q

theorem abs_signed {q : ℚ} (h : 0 ≤ q) (negative : Bool) : |signed negative q| = q := by
  unfold signed
  split
  · rw [abs_neg, abs_of_nonneg h]
  · exact abs_of_nonneg h

theorem abs_signed_sub (negative : Bool) (p q : ℚ) :
    |signed negative p - signed negative q| = |p - q| := by
  unfold signed
  split
  · rw [neg_sub_neg, abs_sub_comm]
  · rfl

theorem abs_signed_sub_of_ne {sign negative : Bool} (hsign : sign ≠ negative) {p q : ℚ}
    (hp : 0 ≤ p) (hq : 0 ≤ q) : |signed sign p - signed negative q| = p + q := by
  have hsum : |p + q| = p + q := abs_of_nonneg (add_nonneg hp hq)
  cases sign <;> cases negative
  · exact absurd rfl hsign
  · show |p - -q| = p + q
    rw [sub_neg_eq_add, hsum]
  · show |-p - q| = p + q
    rw [← neg_add', abs_neg, hsum]
  · exact absurd rfl hsign

/-- Signs bring nothing nearer together. -/
theorem abs_sub_le_abs_signed_sub (sign negative : Bool) {p q : ℚ} (hp : 0 ≤ p) (hq : 0 ≤ q) :
    |p - q| ≤ |signed sign p - signed negative q| := by
  by_cases hsign : sign = negative
  · rw [hsign, abs_signed_sub]
  · rw [abs_signed_sub_of_ne hsign hp hq, abs_le]
    constructor <;> linarith

namespace Number

/-! ### Values of finite numbers -/

/-- The value of the magnitude with a code. -/
def magnitude (code : Nat) : ℚ := unitsOf code / unitsPerOne

/-- The value of a finite number; `0` for the others. -/
def value (x : Number) : ℚ := x.units / unitsPerOne

/-- Whether the last bit of a finite number is zero. -/
def isEven : Number → Bool
  | .finite _ code => code.val % 2 == 0
  | _ => false

/-- The middle between the largest number and `2 ^ 1024`, which would come next. -/
def roundingLimit : ℚ := twoTo 1024 - twoTo 970

/-- A finite number is what a rational is rounded to, to the nearest and to even. -/
structure IsRounding (q : ℚ) (x : Number) : Prop where
  finite : x.isFinite = true
  bounded : |q| < roundingLimit
  nearest : ∀ y : Number, y.isFinite = true → |x.value - q| ≤ |y.value - q|
  even : ∀ y : Number, y.isFinite = true → |y.value - q| = |x.value - q| → y.value ≠ x.value →
    x.isEven = true

theorem value_finite (negative : Bool) (code : Fin codes) :
    (finite negative code).value = signed negative (magnitude code) := by
  cases negative with
  | true =>
    show ((-(unitsOf code : Int) : Int) : ℚ) / unitsPerOne = -(unitsOf code / unitsPerOne)
    rw [Int.cast_neg, Int.cast_natCast, neg_div]
  | false => rfl

theorem exists_eq_finite {x : Number} (h : x.isFinite = true) :
    ∃ negative code, x = finite negative code := by
  cases x with
  | nan => cases h
  | infinite negative => cases h
  | finite negative code => exact ⟨negative, code, rfl⟩

theorem unitsPerOne_pos : (0 : ℚ) < unitsPerOne := by
  have hpos : 0 < unitsPerOne := twoTo_pos 1074
  exact_mod_cast hpos

theorem magnitude_strictMono : StrictMono magnitude := by
  intro code other h
  have hunits : (unitsOf code : ℚ) < unitsOf other := by exact_mod_cast unitsOf_strictMono h
  exact div_lt_div_of_pos_right hunits unitsPerOne_pos

/-- Numbers with the same sign differ in their values. -/
theorem code_eq_of_value_eq {negative : Bool} {code other : Fin codes}
    (h : (finite negative code).value = (finite negative other).value) : code = other := by
  have hmagnitude : magnitude code = magnitude other := by
    have hdistance := abs_signed_sub negative (magnitude code) (magnitude other)
    rw [value_finite, value_finite] at h
    rw [h, sub_self, abs_zero] at hdistance
    exact sub_eq_zero.mp (abs_eq_zero.mp hdistance.symm)
  exact Fin.ext (magnitude_strictMono.injective hmagnitude)

theorem magnitude_nonneg (code : Nat) : 0 ≤ magnitude code :=
  div_nonneg (Nat.cast_nonneg _) unitsPerOne_pos.le

theorem magnitude_zero : magnitude 0 = 0 := by
  have hunits : unitsOf 0 = 0 := by decide +kernel
  rw [magnitude, hunits, Nat.cast_zero, zero_div]

/-- The limit is the midpoint after the largest number. -/
theorem magnitude_add_codes : magnitude (codes - 1) + magnitude codes = 2 * roundingLimit := by
  have hunits : unitsOf (codes - 1) + unitsOf codes + 2 * (twoTo 970 * unitsPerOne) =
      2 * (twoTo 1024 * unitsPerOne) := by decide +kernel
  have hcast : (unitsOf (codes - 1) : ℚ) + unitsOf codes + 2 * (twoTo 970 * unitsPerOne) =
      2 * (twoTo 1024 * unitsPerOne) := by exact_mod_cast hunits
  rw [magnitude, magnitude, ← add_div, div_eq_iff unitsPerOne_pos.ne', roundingLimit]
  linarith

end Number

namespace Decimal

open Number

/-! ### Where the midpoints lie -/

theorem value_nonneg (d : Decimal) : 0 ≤ d.value :=
  mul_nonneg (Nat.cast_nonneg _) (zpow_nonneg (by norm_num) _)

/-- A decimal is read beyond a code if its value lies beyond the midpoint of the magnitude and the
next one, or at the midpoint of an odd code. -/
theorem lt_code_iff (d : Decimal) (code : Nat) :
    code < d.code ↔ magnitude code + magnitude (code + 1) < 2 * d.value ∨
      magnitude code + magnitude (code + 1) = 2 * d.value ∧ code % 2 = 1 := by
  have hden := tenTo_pos (-d.exponent).toNat
  have hscale : (0 : ℚ) < unitsPerOne * (tenTo (-d.exponent).toNat : Nat) :=
    mul_pos unitsPerOne_pos (by exact_mod_cast hden)
  have hunits := d.units_eq
  unfold Decimal.code
  rw [lt_nearestCode_iff hden]
  -- both sides are compared in units, over the denominator
  generalize d.significand * unitsPerOne * tenTo d.exponent.toNat = num at hunits ⊢
  generalize tenTo (-d.exponent).toNat = den at hunits hscale ⊢
  have hmiddle : ((unitsOf code + unitsOf (code + 1)) * den : Nat) =
      (magnitude code + magnitude (code + 1)) * (unitsPerOne * den) := by
    rw [magnitude, magnitude, ← add_div, ← mul_assoc, div_mul_cancel₀ _ unitsPerOne_pos.ne']
    push_cast
    ring
  have hnum : ((2 * num : Nat) : ℚ) = 2 * d.value * (unitsPerOne * den) := by
    rw [Nat.cast_mul, hunits]
    push_cast
    ring
  have hlt : (unitsOf code + unitsOf (code + 1)) * den < 2 * num ↔
      magnitude code + magnitude (code + 1) < 2 * d.value := by
    rw [← Nat.cast_lt (α := ℚ), hmiddle, hnum, mul_lt_mul_iff_left₀ hscale]
  have heq : (unitsOf code + unitsOf (code + 1)) * den = 2 * num ↔
      magnitude code + magnitude (code + 1) = 2 * d.value := by
    rw [← Nat.cast_inj (R := ℚ), hmiddle, hnum, mul_left_inj' hscale.ne']
  rw [hlt, heq]

/-- A decimal is read as a finite number if its value lies below the limit. -/
theorem code_lt_codes_iff (d : Decimal) : d.code < codes ↔ d.value < roundingLimit := by
  have hlast : codes - 1 + 1 = codes := by decide +kernel
  have hodd : (codes - 1) % 2 = 1 := by decide +kernel
  have hbeyond := d.lt_code_iff (codes - 1)
  rw [hlast, magnitude_add_codes] at hbeyond
  have hcodes : d.code < codes ↔ ¬codes - 1 < d.code := by omega
  rw [hcodes, hbeyond, not_or, not_lt]
  constructor
  · rintro ⟨hle, hne⟩
    have hlt : 2 * d.value < 2 * roundingLimit :=
      lt_of_le_of_ne hle fun heq ↦ hne ⟨heq.symm, hodd⟩
    linarith
  · intro hlt
    constructor
    · linarith
    · rintro ⟨heq, -⟩
      linarith

/-- The value of a decimal lies on this side of the midpoint with a smaller magnitude than the one
that it is read as, and at the midpoint only if that magnitude is even. -/
theorem middle_le (d : Decimal) {code : Nat} (h : code < d.code) :
    magnitude code + magnitude d.code ≤ 2 * d.value ∧
      (magnitude code + magnitude d.code = 2 * d.value → code + 1 = d.code ∧ code % 2 = 1) := by
  have hprevious : d.code - 1 + 1 = d.code := by omega
  have hbelow := (d.lt_code_iff (d.code - 1)).mp (by omega)
  rw [hprevious] at hbelow
  have hmono : magnitude code ≤ magnitude (d.code - 1) :=
    magnitude_strictMono.monotone (by omega)
  constructor
  · rcases hbelow with hlt | ⟨heq, -⟩ <;> linarith
  · intro htie
    have hsame : magnitude (d.code - 1) ≤ magnitude code := by
      rcases hbelow with hlt | ⟨heq, -⟩ <;> linarith
    obtain rfl : code = d.code - 1 :=
      magnitude_strictMono.injective (le_antisymm hmono hsame)
    refine ⟨hprevious, ?_⟩
    rcases hbelow with hlt | ⟨-, hodd⟩
    · linarith
    · exact hodd

/-- The same for a larger magnitude. -/
theorem le_middle (d : Decimal) {code : Nat} (h : d.code < code) :
    2 * d.value ≤ magnitude code + magnitude d.code ∧
      (magnitude code + magnitude d.code = 2 * d.value → d.code + 1 = code ∧ d.code % 2 = 0) := by
  have habove := mt (d.lt_code_iff d.code).mpr (lt_irrefl d.code)
  rw [not_or, not_lt] at habove
  have hmono : magnitude (d.code + 1) ≤ magnitude code := magnitude_strictMono.monotone h
  constructor
  · linarith [habove.1]
  · intro htie
    have hsame : magnitude code ≤ magnitude (d.code + 1) := by linarith [habove.1]
    obtain rfl : d.code + 1 = code := magnitude_strictMono.injective (le_antisymm hmono hsame)
    refine ⟨rfl, ?_⟩
    by_contra hodd
    exact habove.2 ⟨by rw [add_comm, htie], by omega⟩

/-! ### The nearest magnitude -/

/-- No magnitude is nearer to the value of a decimal than the one that it is read as. -/
theorem abs_magnitude_code_le (d : Decimal) (code : Nat) :
    |magnitude d.code - d.value| ≤ |magnitude code - d.value| := by
  rcases lt_trichotomy code d.code with hlt | rfl | hlt
  · obtain ⟨hmiddle, -⟩ := d.middle_le hlt
    have hmono := magnitude_strictMono hlt
    have habs := neg_le_abs (magnitude code - d.value)
    rw [abs_le]
    constructor <;> linarith
  · exact le_refl _
  · obtain ⟨hmiddle, -⟩ := d.le_middle hlt
    have hmono := magnitude_strictMono hlt
    have habs := le_abs_self (magnitude code - d.value)
    rw [abs_le]
    constructor <;> linarith

/-- Of two magnitudes that are equally near to the value of a decimal, it is read as the even
one. -/
theorem even_code_of_tie (d : Decimal) {code : Nat} (hne : code ≠ d.code)
    (htie : |magnitude code - d.value| = |magnitude d.code - d.value|) :
    d.code % 2 = 0 ∧ code % 2 = 1 := by
  have hsum : magnitude code + magnitude d.code = 2 * d.value := by
    rcases abs_eq_abs.mp htie with heq | heq
    · exact absurd (magnitude_strictMono.injective (sub_left_injective heq)) hne
    · linarith
  rcases Nat.lt_or_gt_of_ne hne with hlt | hgt
  · obtain ⟨hnext, hodd⟩ := (d.middle_le hlt).2 hsum
    omega
  · obtain ⟨hnext, heven⟩ := (d.le_middle hgt).2 hsum
    omega

/-! ### Reading -/

/-- If a decimal is read as a finite number, its value is rounded to it. -/
theorem isRounding_finite (d : Decimal) (negative : Bool) (h : d.code < codes) :
    IsRounding (signed negative d.value) (finite negative ⟨d.code, h⟩) where
  finite := rfl
  bounded := by
    rw [abs_signed d.value_nonneg]
    exact d.code_lt_codes_iff.mp h
  nearest := by
    intro y hy
    obtain ⟨sign, code, rfl⟩ := exists_eq_finite hy
    rw [value_finite, value_finite, abs_signed_sub]
    calc |magnitude d.code - d.value| ≤ |magnitude code - d.value| := d.abs_magnitude_code_le code
      _ ≤ _ := abs_sub_le_abs_signed_sub sign negative (magnitude_nonneg _) d.value_nonneg
  even := by
    intro y hy htie hne
    obtain ⟨sign, code, rfl⟩ := exists_eq_finite hy
    rw [value_finite, value_finite, abs_signed_sub] at htie
    have hnearest := abs_sub_le_abs_signed_sub sign negative (magnitude_nonneg code) d.value_nonneg
    rw [htie] at hnearest
    have hsame := le_antisymm hnearest (d.abs_magnitude_code_le code)
    refine beq_iff_eq.mpr (d.even_code_of_tie (fun hcode ↦ hne ?_) hsame).1
    -- the same magnitude with the other sign is as near for zero only
    rw [value_finite, value_finite, hcode]
    by_cases hsign : sign = negative
    · rw [hsign]
    · rw [hcode, abs_signed_sub_of_ne hsign (magnitude_nonneg _) d.value_nonneg] at htie
      have hnone := d.abs_magnitude_code_le 0
      rw [← htie, magnitude_zero, zero_sub, abs_neg, abs_of_nonneg d.value_nonneg] at hnone
      have hzero : magnitude d.code = 0 := by linarith [magnitude_nonneg d.code]
      rw [hzero]
      unfold signed
      simp

/-- A decimal is read as a finite number exactly if its value is rounded to that number, with the
sign in front. -/
theorem toNumber_eq_iff (d : Decimal) (negative : Bool) (x : Number) :
    d.toNumber negative = x ∧ x.isFinite = true ↔
      IsRounding (signed negative d.value) x ∧ x.isNegative = negative := by
  have hread (h : d.code < codes) : d.toNumber negative = finite negative ⟨d.code, h⟩ := by
    rw [d.toNumber_eq, ofCode, dif_pos h]
  constructor
  · rintro ⟨rfl, hfinite⟩
    have h : d.code < codes := by
      by_contra hbeyond
      rw [d.toNumber_eq, ofCode_of_le (Nat.le_of_not_lt hbeyond)] at hfinite
      cases hfinite
    rw [hread h]
    exact ⟨d.isRounding_finite negative h, rfl⟩
  · rintro ⟨hrounding, hnegative⟩
    have h : d.code < codes := by
      have hbounded := hrounding.bounded
      rw [abs_signed d.value_nonneg] at hbounded
      exact d.code_lt_codes_iff.mpr hbounded
    refine ⟨?_, hrounding.finite⟩
    obtain ⟨sign, code, rfl⟩ := exists_eq_finite hrounding.finite
    obtain rfl : sign = negative := hnegative
    rw [hread h]
    -- both are nearest, and of two that are equally near only one is even
    have hother := d.isRounding_finite sign h
    have htie := le_antisymm (hother.nearest (.finite sign code) rfl) (hrounding.nearest _ rfl)
    refine congrArg (finite sign) (by_contra fun hne ↦ ?_)
    have hcode : code.val ≠ d.code := fun heq ↦ hne (Fin.ext heq.symm)
    have heven : code.val % 2 = 0 := by
      refine beq_iff_eq.mp (hrounding.even (.finite sign ⟨d.code, h⟩) rfl htie ?_)
      exact fun heq ↦ hne (code_eq_of_value_eq heq)
    rw [value_finite, value_finite, abs_signed_sub, abs_signed_sub] at htie
    have hodd := (d.even_code_of_tie hcode htie.symm).2
    omega

end Decimal

end LiveMarkup
