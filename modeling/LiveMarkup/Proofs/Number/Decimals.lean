import LiveMarkup.Number.Shortest
import LiveMarkup.Proofs.Number.Rounding
import Mathlib.Algebra.Order.Field.Power
import Mathlib.Algebra.Order.Field.Rat
import Mathlib.Tactic.FieldSimp
import Mathlib.Tactic.Positivity

/-!
Decimals as numbers. A decimal is read as the number nearest to its value
(`Decimal.toNumber_eq`): the exponents that are cut off on the way overflow, or vanish, all the
same. Reading therefore depends on the value only (`Decimal.toNumber_congr`) and keeps its order
(`Decimal.code_mono`), and the shortest decimal of a magnitude is read as that magnitude
(`Decimal.toNumber_shortest`).
-/

set_option autoImplicit false
set_option relaxedAutoImplicit false

namespace LiveMarkup

/-- The number with a sign and a code; a code beyond all magnitudes is infinite. -/
def Number.ofCode (negative : Bool) (code : Nat) : Number :=
  if h : code < Number.codes then .finite negative ⟨code, h⟩ else .infinite negative

theorem Number.ofUnits_eq (negative : Bool) (num den : Nat) :
    ofUnits negative num den = ofCode negative (nearestCode num den) := rfl

theorem Number.ofCode_of_le {code : Nat} (h : codes ≤ code) (negative : Bool) :
    ofCode negative code = .infinite negative := dif_neg (Nat.not_lt_of_le h)

theorem Number.ofCode_val (negative : Bool) (code : Fin codes) :
    ofCode negative code.val = .finite negative code := dif_pos code.isLt

theorem Number.hasCode_ofCode {c code : Nat} (hcode : code < codes) (negative : Bool) :
    (ofCode negative c).hasCode code = true ↔ c = code := by
  unfold ofCode
  split
  · exact beq_iff_eq
  · rename_i hbeyond
    exact iff_of_false Bool.false_ne_true fun heq ↦ hbeyond (heq ▸ hcode)

/-- Quotients of the same order are rounded in that order. -/
theorem Number.nearestCode_le_of_value {num den num' den' : Nat} {x y : ℚ} (hden : 0 < den)
    (hden' : 0 < den') (hx : (num : ℚ) = x * den) (hy : (num' : ℚ) = y * den') (h : x ≤ y) :
    nearestCode num den ≤ nearestCode num' den' := by
  refine nearestCode_mono hden hden' ?_
  have hscaled := mul_le_mul_of_nonneg_right h (by positivity : (0 : ℚ) ≤ den * den')
  have hcast : (num : ℚ) * den' ≤ num' * den := by
    rw [hx, hy]
    linarith
  exact_mod_cast hcast

namespace Decimal

open Number

/-- The value of a decimal. -/
def value (d : Decimal) : ℚ := d.significand * (10 : ℚ) ^ d.exponent

/-- The code of the magnitude nearest to the value. -/
@[irreducible]
def code (d : Decimal) : Nat :=
  nearestCode (d.significand * unitsPerOne * tenTo d.exponent.toNat) (tenTo (-d.exponent).toNat)

theorem code_mk (significand : Nat) (exponent : Int) :
    code ⟨significand, exponent⟩ =
      nearestCode (significand * unitsPerOne * tenTo exponent.toNat) (tenTo (-exponent).toNat) := by
  unfold code
  dsimp only

theorem toNumber_eq_ofCode (negative : Bool) (d : Decimal) :
    d.toNumber negative = ofCode negative (code ⟨d.significand, d.clampedExponent⟩) := by
  rw [code_mk, ← ofUnits_eq]
  unfold toNumber
  dsimp only

theorem tenTo_div_tenTo (e : Int) :
    (tenTo e.toNat : ℚ) / (tenTo (-e).toNat : ℚ) = (10 : ℚ) ^ e := by
  rw [tenTo_eq, tenTo_eq, Nat.cast_pow, Nat.cast_pow, Nat.cast_ofNat]
  rcases Int.eq_nat_or_neg e with ⟨n, rfl | rfl⟩
  · simp
  · simp

/-- The quotient of units that is rounded is the value, in units. -/
theorem units_eq (d : Decimal) :
    ((d.significand * unitsPerOne * tenTo d.exponent.toNat : Nat) : ℚ) =
      d.value * unitsPerOne * (tenTo (-d.exponent).toNat : Nat) := by
  have hden : (tenTo (-d.exponent).toNat : ℚ) ≠ 0 :=
    Nat.cast_ne_zero.mpr (tenTo_pos _).ne'
  rw [value, ← tenTo_div_tenTo d.exponent, Nat.cast_mul, Nat.cast_mul]
  generalize (unitsPerOne : ℚ) = units
  field_simp

/-- Reading keeps the order of values. -/
theorem code_mono {d e : Decimal} (h : d.value ≤ e.value) : d.code ≤ e.code := by
  unfold code
  exact nearestCode_le_of_value (tenTo_pos _) (tenTo_pos _) d.units_eq e.units_eq
    (mul_le_mul_of_nonneg_right h (Nat.cast_nonneg _))

theorem code_congr {d e : Decimal} (h : d.value = e.value) : d.code = e.code :=
  Nat.le_antisymm (code_mono h.le) (code_mono h.ge)

/-! ### Exponents that are cut off -/

/-- From `10 ^ 310` up everything overflows. -/
theorem codes_le_code {d : Decimal} (hpos : 0 < d.significand) (hexponent : 310 ≤ d.exponent) :
    codes ≤ d.code := by
  have hlargest : codes ≤ code ⟨1, 310⟩ := by decide +kernel
  refine hlargest.trans (code_mono ?_)
  have hone : (1 : ℚ) ≤ d.significand := by exact_mod_cast hpos
  have hpow : (10 : ℚ) ^ (310 : Int) ≤ (10 : ℚ) ^ d.exponent :=
    zpow_le_zpow_right₀ (by norm_num) hexponent
  calc value ⟨1, 310⟩ = 1 * (10 : ℚ) ^ (310 : Int) := by rw [value, Nat.cast_one]
    _ ≤ d.significand * (10 : ℚ) ^ d.exponent :=
      mul_le_mul hone hpow (by positivity) (by positivity)

/-- What is smaller than half a unit vanishes. -/
theorem code_eq_zero {d : Decimal} (h : d.exponent ≤ -(d.significand.log2 + 331 : Int)) :
    d.code = 0 := by
  have htiny : code ⟨2, -331⟩ = 0 := by decide +kernel
  refine Nat.eq_zero_of_le_zero (htiny ▸ code_mono ?_)
  have hsignificand : (d.significand : ℚ) ≤ 2 * (10 : ℚ) ^ d.significand.log2 := by
    have hbinary : d.significand ≤ 2 * 10 ^ d.significand.log2 := by
      calc d.significand ≤ 2 ^ (d.significand.log2 + 1) := Nat.lt_log2_self.le
        _ = 2 * 2 ^ d.significand.log2 := by ring
        _ ≤ 2 * 10 ^ d.significand.log2 :=
          Nat.mul_le_mul_left 2 (Nat.pow_le_pow_left (by decide) _)
    exact_mod_cast hbinary
  have hpow : (10 : ℚ) ^ d.exponent ≤ (10 : ℚ) ^ (-(d.significand.log2 + 331 : Int)) :=
    zpow_le_zpow_right₀ (by norm_num) h
  calc d.value ≤ 2 * (10 : ℚ) ^ d.significand.log2 *
        (10 : ℚ) ^ (-(d.significand.log2 + 331 : Int)) :=
        mul_le_mul hsignificand hpow (by positivity) (by positivity)
    _ = 2 * (10 : ℚ) ^ (-331 : Int) := by
        have hexponent : (d.significand.log2 : Int) + -(d.significand.log2 + 331 : Int) = -331 := by
          omega
        rw [mul_assoc, ← zpow_natCast, ← zpow_add₀ (by norm_num), hexponent]
    _ = value ⟨2, -331⟩ := by rw [value, Nat.cast_ofNat]

/-- A decimal is read as the number nearest to its value. -/
theorem toNumber_eq (negative : Bool) (d : Decimal) :
    d.toNumber negative = ofCode negative d.code := by
  rw [toNumber_eq_ofCode]
  rcases Nat.eq_zero_or_pos d.significand with hzero | hpos
  · refine congrArg (ofCode negative) (code_congr ?_)
    rw [value, value, hzero, Nat.cast_zero, zero_mul, zero_mul]
  by_cases hlarge : 310 < d.exponent
  · have hclamped : d.clampedExponent = 310 := by
      rw [clampedExponent]
      omega
    have hoverflows : codes ≤ code ⟨d.significand, d.clampedExponent⟩ :=
      codes_le_code hpos hclamped.ge
    rw [ofCode_of_le hoverflows, ofCode_of_le (codes_le_code hpos hlarge.le)]
  by_cases hsmall : d.exponent < -(d.significand.log2 + 331 : Int)
  · have hclamped : d.clampedExponent = -(d.significand.log2 + 331 : Int) := by
      rw [clampedExponent]
      omega
    have hvanishes : code ⟨d.significand, d.clampedExponent⟩ = 0 := code_eq_zero hclamped.le
    rw [hvanishes, code_eq_zero hsmall.le]
  · have hclamped : d.clampedExponent = d.exponent := by
      rw [clampedExponent]
      omega
    rw [hclamped]

/-- Reading depends on the value only. -/
theorem toNumber_congr {d e : Decimal} (h : d.value = e.value) (negative : Bool) :
    d.toNumber negative = e.toNumber negative := by
  rw [toNumber_eq, toNumber_eq, code_congr h]

/-! ### Shortest decimals -/

theorem readsBack_iff {code : Nat} {d : Decimal} (hcode : code < codes) :
    readsBack code d = true ↔ d.code = code := by
  rw [readsBack, toNumber_eq, hasCode_ofCode hcode]

theorem code_exactDecimal (code : Nat) : (exactDecimal code).code = code := by
  have hnum : (-1074 : Int).toNat = 0 := rfl
  have hden : (-(-1074) : Int).toNat = 1074 := rfl
  rw [exactDecimal, code_mk, hnum, hden, unitsPerOne, tenTo_eq 0, Nat.pow_zero, Nat.mul_one]
  generalize 1074 = n
  have hten : Nat.pow 5 n * twoTo n = tenTo n := (Nat.mul_pow 5 2 n).symm
  rw [Nat.mul_assoc, hten]
  exact nearestCode_unitsOf code (tenTo_pos n)

theorem readsBack_of_choose? {code : Nat} {preferLower : Bool} {lower upper d : Decimal}
    (h : choose? code preferLower lower upper = some d) : readsBack code d = true := by
  unfold choose? at h
  split at h
  · rename_i hlower
    rw [← Option.some.inj h]
    exact (Bool.and_eq_true_iff.mp hlower).1
  · split at h
    · rename_i hupper
      rw [← Option.some.inj h]
      exact hupper
    · cases h

theorem code_shortest {code : Nat} (h : code < codes) : (shortest code).code = code := by
  unfold shortest
  dsimp only
  cases hfound : (List.range 17).findSome? fun i : Nat ↦
      onGrid? code (leadingPlace code - (i + 1)) with
  | none => exact code_exactDecimal code
  | some d =>
    obtain ⟨i, -, hgrid⟩ := List.exists_of_findSome?_eq_some hfound
    exact (readsBack_iff h).mp (readsBack_of_choose? hgrid)

/-- The shortest decimal of a magnitude is read as that magnitude. -/
theorem toNumber_shortest (negative : Bool) (code : Fin codes) :
    (shortest code).toNumber negative = .finite negative code := by
  rw [toNumber_eq, code_shortest code.isLt, ofCode_val]

end Decimal

end LiveMarkup
