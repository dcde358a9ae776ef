import LiveMarkup.Proofs.Number.Layout
import LiveMarkup.Proofs.Number.Nearest
import LiveMarkup.Value

/-!
The grammar of numeric text. A numeral is written as a literal with an optional minus sign, a
mantissa of digits with at most one point, and an optional exponent (`Numeral.IsLiteral`); the texts
of numeric-literal shape are more, since their mantissa is any mixture of digits and points. Text
counts as a number exactly if it is a literal whose value is rounded to a finite number, and then as
that number; these are the texts of the shape that are decimals with such a value, in the wider
grammar that admits a plus sign and a capital letter (`Value.number?_text_grammar`).
-/

set_option autoImplicit false
set_option relaxedAutoImplicit false

namespace LiveMarkup

/-! ### Grammars -/

/-- What may stand behind the mantissa of a literal: nothing, or `e`, a minus sign if the exponent
is negative, and digits. -/
inductive IsExponent : Int → List Char → Prop where
  | none : IsExponent 0 []
  | mark (negative : Bool) {digits : List Char} (hne : digits ≠ []) (hdigits : AreDigits digits) :
      IsExponent (if negative then -digitsValue digits else digitsValue digits)
        ('e' :: (signText negative ++ digits))

/-- A sign in front of a decimal, which may be left out for plus. -/
inductive IsSign : Bool → List Char → Prop where
  | none : IsSign false []
  | plus : IsSign false ['+']
  | minus : IsSign true ['-']

/-- What may stand behind the mantissa of a decimal. -/
inductive IsLooseExponent : Int → List Char → Prop where
  | none : IsLooseExponent 0 []
  | mark {letter : Char} {negative : Bool} {sign digits : List Char}
      (hletter : letter = 'e' ∨ letter = 'E') (hsign : IsSign negative sign) (hne : digits ≠ [])
      (hdigits : AreDigits digits) :
      IsLooseExponent (if negative then -digitsValue digits else digitsValue digits)
        (letter :: (sign ++ digits))

/-- The shape of a numeric literal, whose mantissa is any mixture of digits and points. -/
def IsLiteralShape (s : List Char) : Prop :=
  ∃ (negative : Bool) (mantissa tail : List Char) (exponent : Int),
    s = signText negative ++ (mantissa ++ tail) ∧ mantissa ≠ [] ∧
      (∀ c ∈ mantissa, c.isDigit = true ∨ c = '.') ∧ IsExponent exponent tail

namespace Numeral

/-- The numeral is written as a literal. -/
def IsLiteral (n : Numeral) (s : List Char) : Prop :=
  ∃ mantissa tail, s = signText n.negative ++ (mantissa ++ tail) ∧ n.Spells mantissa ∧
    IsExponent n.exponent tail

/-- The numeral is written as a decimal. -/
def IsDecimal (n : Numeral) (s : List Char) : Prop :=
  ∃ sign mantissa tail, s = sign ++ (mantissa ++ tail) ∧ IsSign n.negative sign ∧
    n.Spells mantissa ∧ IsLooseExponent n.exponent tail

/-- The rational that the numeral denotes. -/
def value (n : Numeral) : ℚ :=
  signed n.negative ((digitsValue n.whole + digitsValue n.fraction / 10 ^ n.fraction.length) *
    10 ^ n.exponent)

theorem value_eq (n : Numeral) : n.value = signed n.negative n.decimal.value := by
  have hdigits : digitsValue (n.whole ++ n.fraction) =
      10 ^ n.fraction.length * digitsValue n.whole + digitsValue n.fraction := by
    rw [digitsValue_eq, Nat.ofDigitChars_append, Nat.ofDigitChars_eq_ofDigitChars_zero,
      digitsValue_eq, digitsValue_eq]
  have hpow : (10 : ℚ) ^ n.fraction.length ≠ 0 := by positivity
  have hsplit : (10 : ℚ) ^ (n.exponent - n.fraction.length) =
      10 ^ n.exponent / 10 ^ n.fraction.length := by
    rw [zpow_sub₀ (by norm_num), zpow_natCast]
  rw [value, Decimal.value, decimal]
  dsimp only
  rw [hdigits, hsplit]
  push_cast
  congr 1
  field_simp

end Numeral

/-! ### Signs and exponents -/

theorem IsSign.eq_signText {negative : Bool} {sign : List Char} (h : IsSign negative sign)
    (hplus : sign ≠ ['+']) : sign = signText negative := by
  cases h with
  | none => rfl
  | plus => exact absurd rfl hplus
  | minus => rfl

theorem isSign_signText (negative : Bool) : IsSign negative (signText negative) := by
  cases negative with
  | true => exact .minus
  | false => exact .none

/-- A sign is told from what follows it. -/
theorem signText_append_inj {negative other : Bool} {s t : List Char}
    (hs : ∀ c ∈ s.head?, c ≠ '-') (ht : ∀ c ∈ t.head?, c ≠ '-')
    (h : signText negative ++ s = signText other ++ t) : negative = other ∧ s = t := by
  cases negative <;> cases other
  · exact ⟨rfl, h⟩
  · obtain rfl : s = '-' :: t := h
    exact absurd rfl (hs '-' rfl)
  · obtain rfl : '-' :: s = t := h
    exact absurd rfl (ht '-' rfl)
  · exact ⟨rfl, List.tail_eq_of_cons_eq h⟩

theorem AreDigits.head_ne {s : List Char} (h : AreDigits s) {sign : Char}
    (hsign : sign.isDigit = false) : ∀ c ∈ s.head?, c ≠ sign := by
  rintro c hc rfl
  rw [h c (List.mem_of_mem_head? hc)] at hsign
  cases hsign

/-- The sign in front of a text is no plus sign. -/
theorem signText_append_head_ne_plus {s : List Char} (h : ∀ c ∈ s.head?, c ≠ '+')
    (negative : Bool) : ∀ c ∈ (signText negative ++ s).head?, c ≠ '+' := by
  cases negative with
  | true =>
    rintro c ⟨⟩
    decide
  | false => exact h

namespace IsLooseExponent

variable {exponent : Int} {tail : List Char}

/-- What stands behind a mantissa is none of its characters. -/
theorem head (h : IsLooseExponent exponent tail) :
    ∀ c ∈ tail.head?, Literal.isMantissa c = false := by
  cases h with
  | none => rintro c ⟨⟩
  | mark hletter =>
    rintro c ⟨⟩
    rcases hletter with rfl | rfl <;> decide

/-- Every exponent of a literal is one of a decimal. -/
theorem of_isExponent (h : IsExponent exponent tail) : IsLooseExponent exponent tail := by
  cases h with
  | none => exact .none
  | mark negative hne hdigits => exact .mark (.inl rfl) (isSign_signText negative) hne hdigits

/-- Text that is an exponent in both grammars is the same one. -/
theorem isExponent {other : Int} (h : IsLooseExponent exponent tail)
    (hother : IsExponent other tail) : IsExponent exponent tail := by
  cases h with
  | none => exact .none
  | @mark letter negative sign digits hletter hsign hne hdigits =>
    generalize htail : letter :: (sign ++ digits) = tail at hother
    cases hother with
    | none => cases htail
    | @mark negative' digits' hne' hdigits' =>
      obtain ⟨rfl, hrest⟩ := List.cons.inj htail
      have hplus : sign ≠ ['+'] := by
        rintro rfl
        have hhead := signText_append_head_ne_plus (hdigits'.head_ne (by decide)) negative'
        rw [← hrest] at hhead
        exact hhead '+' rfl rfl
      rw [← htail, hsign.eq_signText hplus]
      exact .mark negative hne hdigits

end IsLooseExponent

/-- A mantissa is told from what follows it. -/
theorem mantissa_append_inj {mantissa other tail rest : List Char}
    (hmantissa : ∀ c ∈ mantissa, Literal.isMantissa c = true)
    (hother : ∀ c ∈ other, Literal.isMantissa c = true)
    (htail : ∀ c ∈ tail.head?, Literal.isMantissa c = false)
    (hrest : ∀ c ∈ rest.head?, Literal.isMantissa c = false)
    (h : mantissa ++ tail = other ++ rest) : mantissa = other ∧ tail = rest := by
  constructor
  · rw [← takeWhile_append_of_head hmantissa htail, h, takeWhile_append_of_head hother hrest]
  · rw [← dropWhile_append_of_head hmantissa htail, h, dropWhile_append_of_head hother hrest]

/-! ### Literals -/

theorem Literal.exponent?_digits {digits : List Char} (h : AreDigits digits) :
    exponent? ('e' :: digits) = (digits? digits).map fun n : Nat ↦ (n : Int) := by
  unfold exponent?
  split
  · rename_i heq
    cases heq
  · rename_i s heq
    obtain ⟨-, rfl⟩ := List.cons.inj heq
    exact absurd rfl (h.head_ne (by decide) '-' rfl)
  · rename_i s _ heq
    obtain ⟨-, rfl⟩ := List.cons.inj heq
    rfl
  · rename_i hnone
    exact absurd rfl (hnone digits)

theorem Literal.exponent?_eq_some_iff {tail : List Char} {exponent : Int} :
    exponent? tail = some exponent ↔ IsExponent exponent tail := by
  constructor
  · intro h
    unfold exponent? at h
    split at h
    · obtain rfl := Option.some.inj h
      exact .none
    · obtain ⟨n, hn, rfl⟩ := Option.map_eq_some_iff.mp h
      obtain ⟨hne, hdigits, rfl⟩ := digits?_eq_some_iff.mp hn
      exact .mark true hne hdigits
    · obtain ⟨n, hn, rfl⟩ := Option.map_eq_some_iff.mp h
      obtain ⟨hne, hdigits, rfl⟩ := digits?_eq_some_iff.mp hn
      exact .mark false hne hdigits
    · cases h
  · intro h
    cases h with
    | none => rfl
    | @mark negative digits hne hdigits =>
      have hvalue := digits?_eq_some_iff.mpr ⟨hne, hdigits, rfl⟩
      cases negative with
      | true =>
        show (digits? digits).map _ = some (-(digitsValue digits : Int))
        rw [hvalue, Option.map_some]
      | false =>
        show exponent? ('e' :: digits) = some (digitsValue digits : Int)
        rw [exponent?_digits hdigits, hvalue, Option.map_some]

/-- The texts of numeric-literal shape. -/
theorem isNumericLiteral_iff (s : String) :
    isNumericLiteral s = true ↔ IsLiteralShape s.toList := by
  rw [isNumericLiteral, Option.isSome_iff_exists]
  constructor
  · rintro ⟨l, hl⟩
    obtain ⟨tail, hs, hne, hmantissa, htail⟩ := Literal.ofText?_eq_some_iff.mp hl
    exact ⟨l.negative, l.mantissa, tail, l.exponent, hs, hne,
      fun c hc ↦ Literal.isMantissa_iff.mp (hmantissa c hc),
      Literal.exponent?_eq_some_iff.mp htail⟩
  · rintro ⟨negative, mantissa, tail, exponent, hs, hne, hmantissa, htail⟩
    exact ⟨⟨negative, mantissa, exponent⟩, Literal.ofText?_eq_some_iff.mpr ⟨tail, hs, hne,
      fun c hc ↦ Literal.isMantissa_iff.mpr (hmantissa c hc),
      Literal.exponent?_eq_some_iff.mpr htail⟩⟩

/-- The texts that count as a number, and the number that they count as. -/
theorem numberOfText?_eq_some_iff (s : String) (x : Number) :
    numberOfText? s = some x ↔
      ∃ n : Numeral, n.IsLiteral s.toList ∧ Number.IsRounding n.value x ∧
        x.isNegative = n.negative := by
  have hliteral (n : Numeral) :
      (Literal.ofText? s.toList).bind Literal.numeral? = some n ↔ n.IsLiteral s.toList := by
    rw [numeral?_ofText?_eq_some_iff]
    simp only [Literal.exponent?_eq_some_iff, Numeral.IsLiteral]
  rw [numberOfText?, Option.filter_eq_some_iff, Option.map_eq_some_iff]
  simp only [hliteral, Numeral.value_eq]
  constructor
  · rintro ⟨⟨n, hn, hx⟩, hfinite⟩
    exact ⟨n, hn, (n.decimal.toNumber_eq_iff n.negative x).mp ⟨hx, hfinite⟩⟩
  · rintro ⟨n, hn, hx⟩
    obtain ⟨hx, hfinite⟩ := (n.decimal.toNumber_eq_iff n.negative x).mpr hx
    exact ⟨⟨n, hn, hx⟩, hfinite⟩

/-- The literals are the texts of the shape that are decimals. -/
theorem Numeral.isLiteral_iff {n : Numeral} {s : List Char} :
    n.IsLiteral s ↔ IsLiteralShape s ∧ n.IsDecimal s := by
  constructor
  · rintro ⟨mantissa, tail, rfl, hspells, htail⟩
    constructor
    · exact ⟨n.negative, mantissa, tail, n.exponent, rfl, hspells.ne_nil,
        fun c hc ↦ Literal.isMantissa_iff.mp (hspells.isMantissa c hc), htail⟩
    · exact ⟨_, mantissa, tail, rfl, isSign_signText n.negative, hspells, .of_isExponent htail⟩
  · rintro ⟨⟨negative, mantissa, tail, exponent, rfl, hne, hmantissa, htail⟩,
      ⟨sign, mantissa', tail', hs, hsign, hspells, htail'⟩⟩
    have hmantissa := fun c hc ↦ Literal.isMantissa_iff.mpr (hmantissa c hc)
    have hhead {other : Char} (hother : Literal.isMantissa other = false) :=
      Literal.head_ne_of_isMantissa hne hmantissa tail hother
    have hplus : sign ≠ ['+'] := by
      rintro rfl
      have hfirst := signText_append_head_ne_plus (hhead (by decide)) negative
      rw [hs] at hfirst
      exact hfirst '+' rfl rfl
    rw [hsign.eq_signText hplus] at hs
    obtain ⟨-, hrest⟩ :=
      signText_append_inj (hhead (by decide)) (hspells.head_ne_minus tail') hs
    obtain ⟨rfl, rfl⟩ := mantissa_append_inj hmantissa hspells.isMantissa
      (IsLooseExponent.of_isExponent htail).head htail'.head hrest
    exact ⟨mantissa, tail, hs, hspells, htail'.isExponent htail⟩

/-- A literal counts as a number if its value lies below the limit. -/
theorem numberOfText?_isSome_iff (s : String) :
    (numberOfText? s).isSome = true ↔
      ∃ n : Numeral, n.IsLiteral s.toList ∧ |n.value| < Number.roundingLimit := by
  rw [Option.isSome_iff_exists]
  constructor
  · rintro ⟨x, hx⟩
    obtain ⟨n, hn, hrounding, -⟩ := (numberOfText?_eq_some_iff s x).mp hx
    exact ⟨n, hn, hrounding.bounded⟩
  · rintro ⟨n, hn, hbounded⟩
    rw [n.value_eq, abs_signed n.decimal.value_nonneg, ← Decimal.code_lt_codes_iff] at hbounded
    have hrounding := n.decimal.isRounding_finite n.negative hbounded
    rw [← n.value_eq] at hrounding
    exact ⟨_, (numberOfText?_eq_some_iff s _).mpr ⟨n, hn, hrounding, rfl⟩⟩

/-- Text counts as a number if it is a literal whose value rounds to a finite number, and then as
that number. The texts of numeric-literal shape have any mixture of digits and points for a
mantissa; those that count as a number are the ones that are also decimals and are read as a finite
number. -/
theorem Value.number?_text_grammar (s : String) :
    ((Value.text s).isNumeric = true ↔
        ∃ n : Numeral, n.IsLiteral s.toList ∧ |n.value| < Number.roundingLimit) ∧
      (∀ x, (Value.text s).number? = some x ↔
        ∃ n : Numeral, n.IsLiteral s.toList ∧ Number.IsRounding n.value x ∧
          x.isNegative = n.negative) ∧
      (isNumericLiteral s = true ↔ IsLiteralShape s.toList) ∧
      ∀ x, (Value.text s).number? = some x ↔
        isNumericLiteral s = true ∧ ∃ n : Numeral, n.IsDecimal s.toList ∧ n.number = x ∧
          x.isFinite = true := by
  refine ⟨numberOfText?_isSome_iff s, numberOfText?_eq_some_iff s, isNumericLiteral_iff s,
    fun x ↦ (numberOfText?_eq_some_iff s x).trans ?_⟩
  have hread (n : Numeral) : n.number = x ∧ x.isFinite = true ↔
      Number.IsRounding n.value x ∧ x.isNegative = n.negative := by
    rw [n.value_eq]
    exact n.decimal.toNumber_eq_iff n.negative x
  simp only [Numeral.isLiteral_iff, isNumericLiteral_iff, hread]
  constructor
  · rintro ⟨n, ⟨hshape, hdecimal⟩, hx⟩
    exact ⟨hshape, n, hdecimal, hx⟩
  · rintro ⟨hshape, n, hdecimal, hx⟩
    exact ⟨n, ⟨hshape, hdecimal⟩, hx⟩

example : isNumericLiteral "1.2.3" = true ∧ numberOfText? "1.2.3" = none := by decide +kernel

example : numberOfText? "-.5e-3" = numberOfText? "-0.0005" ∧
    (numberOfText? "-.5e-3").isSome = true := by decide +kernel

end LiveMarkup
