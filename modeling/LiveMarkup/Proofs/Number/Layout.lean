import LiveMarkup.Number.Format
import LiveMarkup.Proofs.Number.Decimals
import LiveMarkup.Proofs.Number.Spelling

/-!
The layout of printed decimals. Wherever the point is put and however many zeros fill the digits
up, what is printed spells a numeral with the value of the decimal, in front of the exponent
(`NumberFormat.exists_decimal_spells`). Only an exponent with a plus sign is none that a literal
may have (`exponent?_exponentMark`), and it is printed exactly from `10 ^ 21` up
(`Decimal.place_le_iff`).
-/

set_option autoImplicit false
set_option relaxedAutoImplicit false

namespace LiveMarkup

/-! ### Digits and their values -/

theorem digitsValue_eq (digits : List Char) : digitsValue digits = Nat.ofDigitChars 10 digits 0 :=
  rfl

theorem digitsValue_append_zeros (digits : List Char) (k : Nat) :
    digitsValue (digits ++ List.replicate k '0') = digitsValue digits * 10 ^ k := by
  rw [digitsValue_eq, Nat.ofDigitChars_append, Nat.ofDigitChars_replicate_zero, Nat.mul_comm,
    digitsValue_eq]

theorem digitsValue_zeros_append (k : Nat) (digits : List Char) :
    digitsValue (List.replicate k '0' ++ digits) = digitsValue digits := by
  rw [digitsValue_eq, Nat.ofDigitChars_append, Nat.ofDigitChars_replicate_zero, Nat.mul_zero,
    digitsValue_eq]

theorem digitsValue_digitsOf (n : Nat) : digitsValue (Number.digitsOf n) = n :=
  Nat.ofDigitChars_ten_toDigits

theorem areDigits_digitsOf (n : Nat) : AreDigits (Number.digitsOf n) := fun _ hc ↦
  Nat.isDigit_of_mem_toDigits (by decide) (by decide) hc

theorem AreDigits.append {s t : List Char} (hs : AreDigits s) (ht : AreDigits t) :
    AreDigits (s ++ t) := fun c hc ↦ (List.mem_append.mp hc).elim (hs c) (ht c)

theorem areDigits_zeros (k : Nat) : AreDigits (List.replicate k '0') := fun c hc ↦ by
  rw [List.eq_of_mem_replicate hc]
  decide

/-- Trimmed digits lack zeros at the end. -/
theorem exists_eq_trimmed_append_zeros (digits : List Char) :
    ∃ k, digits =
      (digits.reverse.dropWhile (· == '0')).reverse ++ List.replicate k '0' := by
  have hzeros : digits.reverse.takeWhile (· == '0') =
      List.replicate (digits.reverse.takeWhile (· == '0')).length '0' :=
    List.eq_replicate_of_mem fun c hc ↦ beq_iff_eq.mp (List.all_eq_true.mp List.all_takeWhile c hc)
  refine ⟨(digits.reverse.takeWhile (· == '0')).length, ?_⟩
  have hsplit := congrArg List.reverse
    (List.takeWhile_append_dropWhile (p := (· == '0')) (l := digits.reverse))
  rw [List.reverse_append, List.reverse_reverse, hzeros, List.reverse_replicate] at hsplit
  exact hsplit.symm

namespace Decimal

/-- The decimal with these digits and the point in front of the digit number `place`. -/
def ofDigits (digits : List Char) (place : Int) : Decimal :=
  ⟨digitsValue digits, place - digits.length⟩

/-- The place of the leading digit, counted as in `Number.leadingPlace`. -/
def place (d : Decimal) : Int := (Number.digitsOf d.significand).length + d.exponent

theorem ofDigits_place (d : Decimal) : ofDigits (Number.digitsOf d.significand) d.place = d := by
  rw [ofDigits, place, digitsValue_digitsOf, add_sub_cancel_left]

theorem value_shift (significand k : Nat) (exponent : Int) :
    value ⟨significand * 10 ^ k, exponent⟩ = value ⟨significand, exponent + k⟩ := by
  rw [value, value, zpow_add₀ (by norm_num), zpow_natCast]
  push_cast
  ring

/-- Zeros at the end leave the value alone. -/
theorem value_ofDigits_append_zeros (digits : List Char) (k : Nat) (place : Int) :
    (ofDigits (digits ++ List.replicate k '0') place).value = (ofDigits digits place).value := by
  have hplace : place - ((digits.length + k : Nat) : Int) + k = place - digits.length := by
    omega
  rw [ofDigits, digitsValue_append_zeros, List.length_append, List.length_replicate, value_shift,
    hplace, ofDigits]

/-- The leading digit tells how large a decimal is. -/
theorem place_le_iff {d : Decimal} (hd : d.significand ≠ 0) (k : Int) :
    d.place ≤ k ↔ d.value < (10 : ℚ) ^ k := by
  have hpow : (0 : ℚ) < (10 : ℚ) ^ d.exponent := by positivity
  rw [place, value]
  rcases lt_or_ge d.exponent k with hlt | hge
  · obtain ⟨m, hm⟩ := Int.eq_ofNat_of_zero_le (Int.sub_nonneg_of_le hlt.le)
    obtain rfl : k = d.exponent + m := by omega
    have hlength := Nat.length_toDigits_le_iff (b := 10) (n := d.significand) (k := m)
      (by decide) (by omega)
    have hcast : (d.significand : ℚ) < (10 : ℚ) ^ m ↔ d.significand < 10 ^ m := by
      exact_mod_cast Iff.rfl
    rw [zpow_add₀ (by norm_num), zpow_natCast, mul_comm, mul_lt_mul_iff_right₀ hpow, hcast,
      ← hlength, Number.digitsOf]
    omega
  · have hlength : 0 < (Number.digitsOf d.significand).length :=
      List.length_pos_iff.mpr Nat.toDigits_ne_nil
    have hone : (1 : ℚ) ≤ d.significand := by exact_mod_cast Nat.one_le_iff_ne_zero.mpr hd
    refine iff_of_false (by omega) (not_lt_of_ge ?_)
    calc (10 : ℚ) ^ k ≤ (10 : ℚ) ^ d.exponent := zpow_le_zpow_right₀ (by norm_num) hge
      _ ≤ d.significand * (10 : ℚ) ^ d.exponent := le_mul_of_one_le_left hpow.le hone

end Decimal

/-! ### Exponents -/

/-- What is printed after the digits of a decimal with its leading digit at this place. -/
def exponentMark (place : Int) : List Char :=
  if -5 ≤ place ∧ place ≤ 21 then []
  else 'e' :: (if place - 1 < 0 then '-' else '+') :: Number.digitsOf (place - 1).natAbs

theorem exponentMark_head (place : Int) :
    ∀ c ∈ (exponentMark place).head?, Literal.isMantissa c = false := by
  intro c hc
  unfold exponentMark at hc
  split at hc
  · cases hc
  · obtain rfl : 'e' = c := Option.some.inj hc
    decide

/-- The exponent that is printed. -/
def markedExponent (place : Int) : Int := if -5 ≤ place ∧ place ≤ 21 then 0 else place - 1

theorem digits?_digitsOf (n : Nat) : Literal.digits? (Number.digitsOf n) = some n :=
  Literal.digits?_eq_some_iff.mpr
    ⟨Nat.toDigits_ne_nil, areDigits_digitsOf n, digitsValue_digitsOf n⟩

/-- A decimal may have every exponent that is printed. -/
theorem looseExponent?_exponentMark (place : Int) :
    looseExponent? (exponentMark place) = some (markedExponent place) := by
  unfold exponentMark markedExponent
  split
  · rfl
  · rw [Literal.looseExponent?_cons (.inl rfl)]
    split
    · show (Literal.digits? (Number.digitsOf (place - 1).natAbs)).map _ = _
      rw [digits?_digitsOf, Option.map_some]
      refine congrArg some ?_
      show -((place - 1).natAbs : Int) = _
      omega
    · show (Literal.digits? (Number.digitsOf (place - 1).natAbs)).map _ = _
      rw [digits?_digitsOf, Option.map_some]
      refine congrArg some ?_
      show ((place - 1).natAbs : Int) = _
      omega

/-- A literal may have every exponent that is printed, but for those with a plus sign. -/
theorem exponent?_exponentMark (place : Int) :
    Literal.exponent? (exponentMark place) =
      if place ≤ 21 then some (markedExponent place) else none := by
  unfold exponentMark markedExponent
  by_cases hpositional : -5 ≤ place ∧ place ≤ 21
  · rw [if_pos hpositional, if_pos hpositional, if_pos hpositional.2]
    rfl
  rw [if_neg hpositional, if_neg hpositional]
  by_cases hnegative : place - 1 < 0
  · rw [if_pos hnegative, if_pos (by omega)]
    show (Literal.digits? (Number.digitsOf (place - 1).natAbs)).map _ = _
    rw [digits?_digitsOf, Option.map_some]
    refine congrArg some ?_
    omega
  · rw [if_neg hnegative, if_neg (by omega)]
    -- no digit is a plus sign
    rfl

/-! ### Layouts -/

namespace NumberFormat

variable {digits : List Char}

/-- The positional form spells a numeral without an exponent. -/
theorem exists_positional_spells (hne : digits ≠ []) (hdigits : AreDigits digits) (place : Int)
    (negative : Bool) :
    ∃ n : Numeral, n.negative = negative ∧ n.exponent = 0 ∧
      n.Spells (markup.positional digits place) ∧
      n.decimal.value = (Decimal.ofDigits digits place).value := by
  unfold positional
  split
  · -- below one, the point is followed by zeros
    rename_i hplace
    refine ⟨⟨negative, ['0'], List.replicate (-place).toNat '0' ++ digits, 0⟩, rfl, rfl,
      ⟨areDigits_zeros 1, (areDigits_zeros _).append hdigits, Or.inl (List.cons_ne_nil _ _),
        Or.inl rfl⟩, ?_⟩
    have hvalue : digitsValue (['0'] ++ (List.replicate (-place).toNat '0' ++ digits)) =
        digitsValue digits :=
      (digitsValue_zeros_append 1 _).trans (digitsValue_zeros_append _ digits)
    have hexponent : 0 - ((List.replicate (-place).toNat '0' ++ digits).length : Int) =
        place - digits.length := by
      rw [List.length_append, List.length_replicate]
      omega
    rw [Numeral.decimal, hvalue, hexponent, Decimal.ofDigits]
  · split
    · -- a whole number, filled up with zeros
      rename_i hplace hlength
      refine ⟨⟨negative, digits ++ List.replicate (place.toNat - digits.length) '0', [], 0⟩,
        rfl, rfl, ⟨hdigits.append (areDigits_zeros _), fun c hc ↦ absurd hc List.not_mem_nil,
          Or.inl (List.append_ne_nil_of_left_ne_nil hne _),
          Or.inr ⟨List.append_nil _, rfl⟩⟩, ?_⟩
      have hexponent : 0 - (([] : List Char).length : Int) +
          (place.toNat - digits.length : Nat) = place - digits.length := by
        rw [List.length_nil]
        omega
      rw [Numeral.decimal, List.append_nil, digitsValue_append_zeros, Decimal.value_shift,
        hexponent, Decimal.ofDigits]
    · rename_i hplace hlength
      refine ⟨⟨negative, digits.take place.toNat, digits.drop place.toNat, 0⟩, rfl, rfl,
        ⟨fun c hc ↦ hdigits c (List.mem_of_mem_take hc),
          fun c hc ↦ hdigits c (List.mem_of_mem_drop hc), Or.inr ?_, Or.inl rfl⟩, ?_⟩
      · exact fun hnil ↦ hlength (List.drop_eq_nil_iff.mp hnil)
      have hexponent : 0 - ((digits.drop place.toNat).length : Int) = place - digits.length := by
        rw [List.length_drop]
        omega
      rw [Numeral.decimal, List.take_append_drop, hexponent, Decimal.ofDigits]

/-- The scientific form spells a numeral in front of its exponent. -/
theorem exists_scientific_spells (hne : digits ≠ []) (hdigits : AreDigits digits) (place : Int)
    (negative : Bool) :
    ∃ (n : Numeral) (mantissa : List Char), n.negative = negative ∧ n.exponent = place - 1 ∧
      n.Spells mantissa ∧ n.decimal.value = (Decimal.ofDigits digits place).value ∧
      markup.scientific digits place =
        mantissa ++ 'e' :: (if place - 1 < 0 then '-' else '+') ::
          Number.digitsOf (place - 1).natAbs := by
  obtain ⟨first, rest, rfl⟩ := List.exists_cons_of_ne_nil hne
  have hvalue : Numeral.decimal ⟨negative, [first], rest, place - 1⟩ =
      Decimal.ofDigits (first :: rest) place := by
    have hexponent : place - 1 - (rest.length : Int) = place - (first :: rest).length := by
      rw [List.length_cons]
      omega
    rw [Numeral.decimal, hexponent, List.singleton_append, Decimal.ofDigits]
  have hsign : (if place - 1 < 0 then ['-'] else if markup.plusSign then ['+'] else []) =
      [if place - 1 < 0 then '-' else '+'] := by
    split <;> rfl
  have hfirst : AreDigits [first] := fun c hc ↦
    hdigits c (List.mem_singleton.mp hc ▸ List.mem_cons_self)
  have hrest : AreDigits rest := fun c hc ↦ hdigits c (List.mem_cons_of_mem _ hc)
  unfold scientific
  dsimp only
  rw [hsign]
  cases rest with
  | nil =>
    refine ⟨⟨negative, [first], [], place - 1⟩, [first], rfl, rfl,
      ⟨hfirst, hrest, Or.inl (List.cons_ne_nil _ _), Or.inr ⟨rfl, rfl⟩⟩,
      congrArg Decimal.value hvalue, rfl⟩
  | cons next rest =>
    refine ⟨⟨negative, [first], next :: rest, place - 1⟩, first :: '.' :: next :: rest, rfl, rfl,
      ⟨hfirst, hrest, Or.inl (List.cons_ne_nil _ _), Or.inl rfl⟩,
      congrArg Decimal.value hvalue, ?_⟩
    rw [List.append_assoc]
    rfl

/-- A printed decimal spells a numeral of the same value in front of its exponent. -/
theorem exists_decimal_spells {d : Decimal} (hd : d.significand ≠ 0) (negative : Bool) :
    ∃ (n : Numeral) (mantissa : List Char), n.negative = negative ∧
      n.exponent = markedExponent d.place ∧ n.Spells mantissa ∧
      n.decimal.value = d.value ∧ markup.decimal d = mantissa ++ exponentMark d.place := by
  obtain ⟨k, htrimmed⟩ := exists_eq_trimmed_append_zeros (Number.digitsOf d.significand)
  unfold decimal
  dsimp only
  generalize ((Number.digitsOf d.significand).reverse.dropWhile (· == '0')).reverse = digits at *
  have hne : digits ≠ [] := by
    rintro rfl
    have hvalue := digitsValue_append_zeros [] k
    rw [← htrimmed, digitsValue_digitsOf] at hvalue
    exact hd (hvalue.trans (Nat.zero_mul _))
  have hdigits : AreDigits digits := fun c hc ↦
    areDigits_digitsOf d.significand c (htrimmed ▸ List.mem_append_left _ hc)
  have hvalue : (Decimal.ofDigits digits d.place).value = d.value := by
    rw [← Decimal.value_ofDigits_append_zeros digits k, ← htrimmed, Decimal.ofDigits_place]
  rw [markedExponent, exponentMark]
  change ∃ (n : Numeral) (mantissa : List Char), _ ∧ _ ∧ _ ∧ _ ∧
    (if -5 ≤ d.place ∧ d.place ≤ 21 then markup.positional digits d.place
      else markup.scientific digits d.place) = _
  by_cases hpositional : -5 ≤ d.place ∧ d.place ≤ 21
  · rw [if_pos hpositional, if_pos hpositional, if_pos hpositional]
    obtain ⟨n, hnegative, hexponent, hspells, hn⟩ :=
      exists_positional_spells hne hdigits d.place negative
    exact ⟨n, _, hnegative, hexponent, hspells, hn.trans hvalue, (List.append_nil _).symm⟩
  · rw [if_neg hpositional, if_neg hpositional, if_neg hpositional]
    obtain ⟨n, mantissa, hnegative, hexponent, hspells, hn, htext⟩ :=
      exists_scientific_spells hne hdigits d.place negative
    exact ⟨n, mantissa, hnegative, hexponent, hspells, hn.trans hvalue, htext⟩

end NumberFormat

end LiveMarkup
