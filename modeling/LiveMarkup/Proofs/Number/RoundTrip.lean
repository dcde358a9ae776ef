import LiveMarkup.Observable
import LiveMarkup.Proofs.Number.Layout

/-!
Displayed numbers that are read again. The text of a finite number spells that number, zero
without its sign (`Number.exists_text_spells`). It counts as the number in arithmetic if the
magnitude is below `10 ^ 21` (`Number.number?_text`), where the exponent is not yet printed with
a plus sign, and it starts with the number whatever the magnitude (`Number.leadingFloat_text`).
So the two ways to read a number out of an observable agree (`Observable.toFloat_agrees`).
-/

set_option autoImplicit false
set_option relaxedAutoImplicit false

namespace LiveMarkup

/-! ### Texts of finite numbers -/

namespace Decimal

open Number

theorem significand_shortest_ne_zero {code : Nat} (hcode : code < codes) (hne : code ≠ 0) :
    (shortest code).significand ≠ 0 := by
  intro hzero
  have hvanishes : Decimal.code ⟨0, 0⟩ = 0 := by decide +kernel
  have hvalue : (shortest code).value = value ⟨0, 0⟩ := by
    rw [value, value, hzero, Nat.cast_zero, zero_mul, zero_mul]
  exact hne ((code_shortest hcode).symm.trans ((code_congr hvalue).trans hvanishes))

/-- The shortest decimal has its leading digit beyond the place 21 exactly from `10 ^ 21` up. -/
theorem place_shortest_le_iff {code : Nat} (hcode : code < codes) (hne : code ≠ 0) :
    (shortest code).place ≤ 21 ↔ unitsOf code < tenTo 21 * unitsPerOne := by
  have hunits : unitsOf (Decimal.code ⟨1, 21⟩) = tenTo 21 * unitsPerOne := by decide +kernel
  have hshortest : shortest (Decimal.code ⟨1, 21⟩) = ⟨1, 21⟩ := by decide +kernel
  have hvalue : value ⟨1, 21⟩ = (10 : ℚ) ^ (21 : Int) := by rw [value, Nat.cast_one, one_mul]
  rw [place_le_iff (significand_shortest_ne_zero hcode hne), ← hvalue, ← hunits,
    unitsOf_strictMono.lt_iff_lt]
  constructor
  · intro hlt
    have hle := code_mono hlt.le
    rw [code_shortest hcode] at hle
    refine lt_of_le_of_ne hle fun heq ↦ ?_
    rw [heq, hshortest] at hlt
    exact lt_irrefl _ hlt
  · intro hlt
    refine lt_of_not_ge fun hge ↦ ?_
    have hle := code_mono hge
    rw [code_shortest hcode] at hle
    exact Nat.not_lt_of_ge hle hlt

end Decimal

namespace Number

theorem text_finite (negative : Bool) (code : Fin codes) :
    (finite negative code).text =
      String.ofList (signText (negative && code.val != 0) ++
        NumberFormat.markup.magnitude code) := rfl

/-- The text of a finite number spells it, zero without its sign; the leading digit tells on
which side of `10 ^ 21` it is. -/
theorem exists_text_spells (negative : Bool) (code : Fin codes) :
    ∃ (n : Numeral) (mantissa : List Char) (place : Int),
      (finite negative code).text =
        String.ofList (signText n.negative ++ (mantissa ++ exponentMark place)) ∧
      n.Spells mantissa ∧ n.exponent = markedExponent place ∧
      n.number = (if code.val = 0 then 0 else finite negative code) ∧
      (place ≤ 21 ↔ unitsOf code < tenTo 21 * unitsPerOne) := by
  rw [text_finite, NumberFormat.magnitude]
  by_cases hzero : code.val = 0
  · rw [if_pos hzero, if_pos hzero, hzero, bne_self_eq_false, Bool.and_false]
    refine ⟨⟨false, ['0'], [], 0⟩, ['0'], 1, rfl, ⟨areDigits_zeros 1,
      fun c hc ↦ absurd hc List.not_mem_nil, Or.inl (List.cons_ne_nil _ _), Or.inr ⟨rfl, rfl⟩⟩,
      rfl, ?_, iff_of_true (by decide) ?_⟩
    · decide +kernel
    · decide +kernel
  · obtain ⟨n, mantissa, hnegative, hexponent, hspells, hvalue, htext⟩ :=
      NumberFormat.exists_decimal_spells
        (Decimal.significand_shortest_ne_zero code.isLt hzero) negative
    rw [if_neg hzero, if_neg hzero, bne_iff_ne.mpr hzero, Bool.and_true, htext]
    refine ⟨n, mantissa, (shortest code).place, by rw [hnegative], hspells, hexponent, ?_,
      Decimal.place_shortest_le_iff code.isLt hzero⟩
    rw [Numeral.number, Decimal.toNumber_congr hvalue, hnegative, Decimal.toNumber_shortest]

end Number

/-! ### Reading -/

/-- A spelling counts as its number if what follows it is the exponent of a literal. -/
theorem numberOfText?_of_spells {n : Numeral} {mantissa tail : List Char} (h : n.Spells mantissa)
    (hexponent : Literal.exponent? tail = some n.exponent) :
    numberOfText? (String.ofList (signText n.negative ++ (mantissa ++ tail))) =
      (some n.number).filter Number.isFinite := by
  have hn : (Literal.ofText? (signText n.negative ++ (mantissa ++ tail))).bind Literal.numeral? =
      some n := numeral?_ofText?_eq_some_iff.mpr ⟨mantissa, tail, rfl, h, hexponent⟩
  rw [numberOfText?, String.toList_ofList, hn, Option.map_some]

/-- A spelling is no literal if what follows it is no exponent of one. -/
theorem numberOfText?_eq_none_of_spells {n : Numeral} {mantissa tail : List Char}
    (h : n.Spells mantissa) (htail : ∀ c ∈ tail.head?, Literal.isMantissa c = false)
    (hexponent : Literal.exponent? tail = none) :
    numberOfText? (String.ofList (signText n.negative ++ (mantissa ++ tail))) = none := by
  have hl : Literal.ofText? (signText n.negative ++ (mantissa ++ tail)) = none := by
    rw [Literal.ofText?_signText (h.head_ne_minus tail),
      Literal.unsigned?_append h.ne_nil h.isMantissa htail, hexponent, Option.map_none]
  rw [numberOfText?, String.toList_ofList, hl]
  rfl

/-- The displayed text of a finite number counts as that number in arithmetic, if the magnitude
is below `10 ^ 21`; from there up it is no literal. -/
theorem Number.number?_text (negative : Bool) (code : Fin codes) :
    (Value.text (finite negative code).text).number? =
      if unitsOf code < tenTo 21 * unitsPerOne then
        some (if code.val = 0 then 0 else finite negative code)
      else none := by
  obtain ⟨n, mantissa, place, htext, hspells, hexponent, hnumber, hplace⟩ :=
    exists_text_spells negative code
  have hmark := exponent?_exponentMark place
  rw [Value.number?, htext]
  by_cases hsmall : unitsOf code < tenTo 21 * unitsPerOne
  · rw [if_pos (hplace.mpr hsmall), ← hexponent] at hmark
    have hfinite : n.number.isFinite = true := by
      rw [hnumber]
      split
      · decide +kernel
      · rfl
    rw [if_pos hsmall, numberOfText?_of_spells hspells hmark, ← hnumber]
    exact Option.filter_eq_some_iff.mpr ⟨rfl, hfinite⟩
  · rw [if_neg fun hle ↦ hsmall (hplace.mp hle)] at hmark
    rw [if_neg hsmall, numberOfText?_eq_none_of_spells hspells (exponentMark_head place) hmark]

/-- The first number with a plus sign in its text does not count as itself any more. -/
theorem Number.not_forall_number?_text :
    ¬ ∀ n : Number, n.isFinite = true →
      (Value.text n.text).number? = some (if n.isZero then 0 else n) := by
  intro h
  exact absurd (h (ofInt (10 ^ 21)) (by decide +kernel)) (by decide +kernel)

/-- The displayed text of a number starts with that number, zero without its sign. -/
theorem Number.leadingFloat_text (n : Number) :
    leadingFloat n.text = if n.isZero then 0 else n := by
  cases n with
  | nan => decide +kernel
  | infinite negative => cases negative <;> decide +kernel
  | finite negative code =>
    obtain ⟨n, mantissa, place, htext, hspells, hexponent, hnumber, -⟩ :=
      exists_text_spells negative code
    rw [htext, leadingFloat_of_spells hspells (hexponent ▸ looseExponent?_exponentMark place),
      hnumber]
    exact if_congr beq_iff_eq.symm rfl rfl

theorem Number.equal_self {n : Number} (h : n.isFinite = true) : n.equal n = true := by
  cases n with
  | nan => cases h
  | infinite negative => cases h
  | finite negative code => simp only [equal, beq_self_eq_true, Bool.true_or, Bool.and_true]

/-- A finite number equals itself without the sign of zero. -/
theorem Number.equal_of_unsigned {n : Number} (h : n.isFinite = true) :
    (if n.isZero then 0 else n).equal n = true := by
  split
  · rename_i hzero
    have hunsigned : (0 : Number) = finite false ⟨0, by decide +kernel⟩ := by decide +kernel
    cases n with
    | nan => cases h
    | infinite negative => cases h
    | finite negative code =>
      obtain ⟨code, hcode⟩ := code
      obtain rfl : code = 0 := beq_iff_eq.mp hzero
      rw [hunsigned]
      simp only [equal, beq_self_eq_true, Bool.or_true, Bool.and_true]
  · exact equal_self h

/-- What an observable counts as in arithmetic is what its displayed value starts with; a number
is what its displayed value starts with, zero without its sign. -/
theorem Observable.toFloat_agrees (o : Observable) :
    (∀ x, o.value.number? = some x → o.value.toFloat.equal x = true) ∧
      ∀ n, o.value = .number n → o.value.toFloat = if n.isZero then 0 else n := by
  have hnumber (n : Number) (hn : o.value = .number n) :
      o.value.toFloat = if n.isZero then 0 else n := by
    rw [hn]
    exact n.leadingFloat_text
  refine ⟨fun x hx ↦ ?_, hnumber⟩
  cases hvalue : o.value with
  | number n =>
    rw [hvalue, Value.number?, Option.ite_none_right_eq_some] at hx
    obtain ⟨hfinite, hn⟩ := hx
    obtain rfl := Option.some.inj hn
    rw [← hvalue, hnumber n hvalue]
    exact Number.equal_of_unsigned hfinite
  | text s =>
    rw [hvalue] at hx
    rw [Value.toFloat, Value.display, leadingFloat_of_numberOfText? hx]
    exact Number.equal_self (Option.filter_eq_some_iff.mp hx).2
  | flag b =>
    rw [hvalue] at hx
    cases hx

theorem Observable.toFloat_agrees_minus_five :
    (Value.text "-.5e1").number? = some (Number.ofInt (-5)) ∧
      (Value.text "-.5e1").toFloat.equal (Number.ofInt (-5)) = true ∧
      (Value.number (Number.zero true)).toFloat = 0 := by
  have hnumber : (Value.text "-.5e1").number? = some (Number.ofInt (-5)) := by decide +kernel
  exact ⟨hnumber, (toFloat_agrees { value := .text "-.5e1" }).1 _ hnumber,
    ((toFloat_agrees { value := .number (Number.zero true) }).2 _ rfl).trans
      (if_pos (by decide +kernel))⟩

end LiveMarkup
