import LiveMarkup.Proofs.Number.Grammar

/-!
The number that a text starts with. Behind the blanks of a text the longest front part counts that
is written as a decimal or an infinity, or, for whole numbers, as a sign and digits; what follows it
is not looked at, be it the beginning of an exponent, a second point or any text
(`isLongestFront_floatFront?`, `isLongestFront_intFront?`). This part can always be read
(`exists_ofText?_of_front`). The number read is the one that it is rounded to, infinite from the
limit on, and it is not a number exactly if the text has no such part (`leading_eq_iff_longest`).
-/

set_option autoImplicit false
set_option relaxedAutoImplicit false

namespace LiveMarkup

/-! ### Grammars and longest parts -/

/-- What a numeral is rounded to: the nearest finite number, or an infinity from the limit on; the
sign is the one that is written. -/
def Numeral.RoundsTo (n : Numeral) (x : Number) : Prop :=
  (Number.IsRounding n.value x ∧ x.isNegative = n.negative) ∨
    (Number.roundingLimit ≤ |n.value| ∧ x = .infinite n.negative)

/-- The texts that are written as a decimal or an infinity, and the numbers that they are. -/
inductive IsFloatText : List Char → Number → Prop where
  | infinity {negative : Bool} {sign : List Char} (hsign : IsSign negative sign) :
      IsFloatText (sign ++ "Infinity".toList) (.infinite negative)
  | decimal {n : Numeral} {s : List Char} {x : Number} (hwritten : n.IsDecimal s)
      (hrounds : n.RoundsTo x) : IsFloatText s x

/-- The texts that are written as a whole number, and the numbers that they are. -/
inductive IsIntText : List Char → Number → Prop where
  | whole {negative : Bool} {sign digits : List Char} {x : Number} (hsign : IsSign negative sign)
      (hne : digits ≠ []) (hdigits : AreDigits digits)
      (hrounds : Numeral.RoundsTo ⟨negative, digits, [], 0⟩ x) : IsIntText (sign ++ digits) x

/-- The longest front part of a text that is written in a grammar. -/
structure IsLongestFront (grammar : List Char → Number → Prop) (text front : List Char) :
    Prop where
  isPrefix : front <+: text
  written : ∃ x, grammar front x
  longest : ∀ other x, other <+: text → grammar other x → other <+: front

/-- A number is read off the front of a text: it is that of the longest part that is written in a
grammar, or not a number if there is none. -/
def ReadsFront (grammar : List Char → Number → Prop) (text : List Char) (x : Number) : Prop :=
  (∃ front, IsLongestFront grammar text front ∧ grammar front x) ∨
    (x = .nan ∧ ∀ front y, front <+: text → ¬grammar front y)

/-! ### Rounding -/

theorem Numeral.abs_value (n : Numeral) : |n.value| = n.decimal.value := by
  rw [n.value_eq, abs_signed n.decimal.value_nonneg]

theorem Numeral.number_eq_iff (n : Numeral) (x : Number) : n.number = x ↔ n.RoundsTo x := by
  have hfinite : n.number = x ∧ x.isFinite = true ↔
      Number.IsRounding n.value x ∧ x.isNegative = n.negative := by
    rw [n.value_eq]
    exact n.decimal.toNumber_eq_iff n.negative x
  have hbelow : n.decimal.code < Number.codes ↔ |n.value| < Number.roundingLimit := by
    rw [n.abs_value, n.decimal.code_lt_codes_iff]
  have hread : n.number = Number.ofCode n.negative n.decimal.code :=
    n.decimal.toNumber_eq n.negative
  rw [RoundsTo, ← hfinite, ← not_lt, ← hbelow, not_lt]
  by_cases hcode : n.decimal.code < Number.codes
  · have hnumber : n.number.isFinite = true := by
      rw [hread, Number.ofCode, dif_pos hcode]
      rfl
    constructor
    · rintro rfl
      exact .inl ⟨rfl, hnumber⟩
    · rintro (⟨rfl, -⟩ | ⟨hle, -⟩)
      · rfl
      · exact absurd hcode (Nat.not_lt_of_le hle)
  · have hle := Nat.le_of_not_lt hcode
    rw [hread, Number.ofCode_of_le hle]
    constructor
    · rintro rfl
      exact .inr ⟨hle, rfl⟩
    · rintro (⟨rfl, -⟩ | ⟨-, rfl⟩) <;> rfl

/-! ### Signs and digits -/

theorem splitSign_append {negative : Bool} {sign s : List Char} (hsign : IsSign negative sign)
    (hs : ∀ c ∈ s.head?, c ≠ '+' ∧ c ≠ '-') : splitSign (sign ++ s) = (negative, s) := by
  cases hsign with
  | none => exact splitSign_of_head hs
  | plus => rfl
  | minus => rfl

theorem isSign_frontSign (s : List Char) : IsSign (splitSign s).1 (frontSign s) := by
  unfold splitSign frontSign
  split
  · exact .plus
  · exact .minus
  · exact .none

/-- The sign of a front part is the sign of the text, if no further sign follows it. -/
theorem prefix_of_sign {negative : Bool} {sign body text : List Char} (hsign : IsSign negative sign)
    (hne : body ≠ []) (hbody : ∀ c ∈ body.head?, c ≠ '+' ∧ c ≠ '-') (h : sign ++ body <+: text) :
    (splitSign text).1 = negative ∧ frontSign text = sign ∧ body <+: (splitSign text).2 := by
  obtain ⟨rest, rfl⟩ := h
  have hhead : ∀ c ∈ (body ++ rest).head?, c ≠ '+' ∧ c ≠ '-' := by
    rwa [List.head?_append_of_ne_nil body hne]
  have hfront := frontSign_append (sign ++ body ++ rest)
  rw [List.append_assoc, splitSign_append hsign hhead] at hfront ⊢
  exact ⟨rfl, List.append_cancel_right hfront, List.prefix_append body rest⟩

theorem AreDigits.head_ne_sign {digits : List Char} (h : AreDigits digits) :
    ∀ c ∈ digits.head?, c ≠ '+' ∧ c ≠ '-' :=
  fun c hc ↦ ⟨h.head_ne (by decide) c hc, h.head_ne (by decide) c hc⟩

theorem areDigits_takeWhile (s : List Char) : AreDigits (s.takeWhile Char.isDigit) :=
  fun c hc ↦ List.all_eq_true.mp List.all_takeWhile c hc

theorem AreDigits.prefix_takeWhile {digits s : List Char} (h : AreDigits digits)
    (hpre : digits <+: s) : digits <+: s.takeWhile Char.isDigit := by
  obtain ⟨rest, rfl⟩ := hpre
  rw [List.takeWhile_append_of_pos h]
  exact List.prefix_append _ _

/-- What stands behind the sign of a text stands there in the text. -/
theorem isPrefix_frontSign_append {s part : List Char} (h : part <+: (splitSign s).2) :
    frontSign s ++ part <+: s := by
  have hpre := (List.prefix_append_right_inj (frontSign s)).mpr h
  rwa [frontSign_append] at hpre

/-! ### Mantissas -/

theorem areDigits_splitFraction (s : List Char) : AreDigits (splitFraction s).1 := by
  unfold splitFraction
  split
  · exact areDigits_takeWhile _
  · exact fun c hc ↦ absurd hc List.not_mem_nil

/-- The front of a text spells its digits, if there are any. -/
theorem spells_frontMantissa {s : List Char} (negative : Bool) (exponent : Int)
    (h : s.takeWhile Char.isDigit ≠ [] ∨ (splitFraction (s.dropWhile Char.isDigit)).1 ≠ []) :
    Numeral.Spells ⟨negative, s.takeWhile Char.isDigit,
      (splitFraction (s.dropWhile Char.isDigit)).1, exponent⟩ (frontMantissa s) where
  whole := areDigits_takeWhile s
  fraction := areDigits_splitFraction _
  digit := h
  text := by
    rw [frontMantissa]
    rcases frontPoint_eq (s.dropWhile Char.isDigit) with hpoint | ⟨hpoint, hsplit⟩
    · exact .inl (congrArg (_ ++ ·) hpoint)
    · refine .inr ⟨?_, congrArg Prod.fst hsplit⟩
      rw [hpoint, List.append_nil]

/-- Any spelling that a text starts with is part of its front, and has no more digits. -/
theorem Numeral.Spells.prefix_frontMantissa {n : Numeral} {mantissa s : List Char}
    (h : n.Spells mantissa) (hpre : mantissa <+: s) :
    mantissa <+: frontMantissa s ∧ n.whole <+: s.takeWhile Char.isDigit ∧
      n.fraction <+: (splitFraction (s.dropWhile Char.isDigit)).1 := by
  obtain ⟨rest, rfl⟩ := hpre
  rcases h.text with rfl | ⟨rfl, hfraction⟩
  · have hpoint : ∀ c ∈ ('.' :: (n.fraction ++ rest)).head?, c.isDigit = false := by simp
    have hsplit : n.whole ++ '.' :: n.fraction ++ rest =
        n.whole ++ '.' :: (n.fraction ++ rest) := by simp
    rw [frontMantissa, hsplit, takeWhile_append_of_head h.whole hpoint,
      dropWhile_append_of_head h.whole hpoint]
    have hdigits : n.fraction <+: (n.fraction ++ rest).takeWhile Char.isDigit :=
      h.fraction.prefix_takeWhile (List.prefix_append _ _)
    exact ⟨(List.prefix_append_right_inj _).mpr ((List.prefix_cons_inj _).mpr hdigits),
      List.prefix_rfl, hdigits⟩
  · have hdigits : n.whole <+: (n.whole ++ rest).takeWhile Char.isDigit :=
      h.whole.prefix_takeWhile (List.prefix_append _ _)
    refine ⟨hdigits.trans (List.prefix_append _ _), hdigits, ?_⟩
    rw [hfraction]
    exact List.nil_prefix

/-! ### Exponents -/

/-- The exponents of a decimal are those of its grammar. -/
theorem looseExponent?_eq_some_iff {exponent : Int} {tail : List Char} :
    looseExponent? tail = some exponent ↔ IsLooseExponent exponent tail := by
  constructor
  · intro h
    rcases Literal.looseExponent?_cases h with rfl | ⟨letter, s, rfl, hletter, hne, hdigits⟩
    · obtain rfl := Option.some.inj h
      exact .none
    · have hmark := IsLooseExponent.mark hletter (isSign_frontSign s) hne hdigits
      have hdigits? := Literal.digits?_eq_some_iff.mpr ⟨hne, hdigits, rfl⟩
      rw [Literal.looseExponent?_cons hletter, hdigits?, Option.map_some] at h
      rw [frontSign_append, Option.some.inj h] at hmark
      exact hmark
  · intro h
    cases h with
    | none => rfl
    | @mark letter negative sign digits hletter hsign hne hdigits =>
      rw [Literal.looseExponent?_cons hletter, splitSign_append hsign hdigits.head_ne_sign,
        Literal.digits?_eq_some_iff.mpr ⟨hne, hdigits, rfl⟩]
      rfl

theorem frontExponent_cons (c : Char) (s : List Char) :
    frontExponent (c :: s) =
      if (c = 'e' ∨ c = 'E') ∧ (splitSign s).2.takeWhile Char.isDigit ≠ [] then
        c :: (frontSign s ++ (splitSign s).2.takeWhile Char.isDigit)
      else [] := by
  rw [frontExponent]
  refine if_congr ?_ rfl rfl
  simp

/-- A text starts with an exponent, which is nothing if a letter or digits are missing. -/
theorem exists_frontExponent (s : List Char) :
    frontExponent s <+: s ∧ ∃ exponent, IsLooseExponent exponent (frontExponent s) := by
  cases s with
  | nil => exact ⟨List.prefix_rfl, 0, .none⟩
  | cons c s =>
    rw [frontExponent_cons]
    split
    · rename_i hfront
      have hmark := IsLooseExponent.mark hfront.1 (isSign_frontSign s) hfront.2
        (areDigits_takeWhile _)
      exact ⟨(List.prefix_cons_inj c).mpr (isPrefix_frontSign_append (List.takeWhile_prefix _)), _,
        hmark⟩
    · exact ⟨List.nil_prefix, 0, .none⟩

/-- There is no longer exponent in front of a text. -/
theorem IsLooseExponent.prefix_frontExponent {exponent : Int} {other s : List Char}
    (h : IsLooseExponent exponent other) (hpre : other <+: s) : other <+: frontExponent s := by
  cases h with
  | none => exact List.nil_prefix
  | @mark letter negative sign digits hletter hsign hne hdigits =>
    obtain ⟨rest, rfl⟩ := hpre
    have hbehind : sign ++ digits <+: sign ++ digits ++ rest := List.prefix_append _ _
    obtain ⟨-, hfront, hlongest⟩ := prefix_of_sign hsign hne hdigits.head_ne_sign hbehind
    replace hlongest := hdigits.prefix_takeWhile hlongest
    rw [List.cons_append, frontExponent_cons, if_pos, hfront]
    · exact (List.prefix_cons_inj _).mpr ((List.prefix_append_right_inj _).mpr hlongest)
    · refine ⟨hletter, fun hnil ↦ hne ?_⟩
      rwa [hnil, List.prefix_nil] at hlongest

/-- A spelling and an exponent in front of a text lie in its digits, or reach to their end and on
into what follows them. -/
theorem Numeral.Spells.prefix_front {n : Numeral} {mantissa tail s : List Char} {exponent : Int}
    (h : n.Spells mantissa) (htail : IsLooseExponent exponent tail)
    (hpre : mantissa ++ tail <+: s) :
    mantissa ++ tail <+: frontMantissa s ∨
      mantissa = frontMantissa s ∧ tail <+: (splitFraction (s.dropWhile Char.isDigit)).2 := by
  rcases List.eq_nil_or_concat' tail with rfl | hne
  · rw [List.append_nil] at hpre ⊢
    exact .inl (h.prefix_frontMantissa hpre).1
  · obtain ⟨rest, rfl⟩ := hpre
    have hhead : ∀ c ∈ (tail ++ rest).head?, Literal.isMantissa c = false := by
      rw [List.head?_append_of_ne_nil tail (by rintro rfl; simp at hne)]
      exact htail.head
    obtain ⟨hmantissa, hrest⟩ := h.eq_frontMantissa hhead
    rw [List.append_assoc, ← hmantissa, ← hrest]
    exact .inr ⟨rfl, List.prefix_append _ _⟩

/-! ### Reading what is written -/

/-- An infinity or a decimal in front of a text has the sign of the text. -/
theorem IsFloatText.prefix_cases {other text : List Char} {x : Number} (h : IsFloatText other x)
    (hpre : other <+: text) :
    (other = frontSign text ++ "Infinity".toList ∧ "Infinity".toList <+: (splitSign text).2 ∧
        x = .infinite (splitSign text).1) ∨
      ∃ (n : Numeral) (mantissa tail : List Char), other = frontSign text ++ (mantissa ++ tail) ∧
        (splitSign text).1 = n.negative ∧ n.Spells mantissa ∧ IsLooseExponent n.exponent tail ∧
        mantissa ++ tail <+: (splitSign text).2 ∧ n.RoundsTo x := by
  cases h with
  | infinity hother =>
    have hname : "Infinity".toList = 'I' :: "nfinity".toList := by decide +kernel
    have hhead : ∀ c ∈ "Infinity".toList.head?, c ≠ '+' ∧ c ≠ '-' := by
      rw [hname]
      rintro c ⟨⟩
      decide
    obtain ⟨hnegative, hsign, hfront⟩ :=
      prefix_of_sign hother (by rw [hname]; exact List.cons_ne_nil _ _) hhead hpre
    exact .inl ⟨by rw [hsign], hfront, congrArg _ hnegative.symm⟩
  | @decimal n _ _ hwritten hrounds =>
    obtain ⟨sign, mantissa, tail, rfl, hother, hspells, htail⟩ := hwritten
    have hhead : ∀ c ∈ (mantissa ++ tail).head?, c ≠ '+' ∧ c ≠ '-' := fun c hc ↦
      ⟨Literal.head_ne_of_isMantissa hspells.ne_nil hspells.isMantissa tail (by decide) c hc,
        hspells.head_ne_minus tail c hc⟩
    obtain ⟨hnegative, hsign, hfront⟩ :=
      prefix_of_sign hother (by simp [hspells.ne_nil]) hhead hpre
    exact .inr ⟨n, mantissa, tail, by rw [hsign], hnegative, hspells, htail, hfront, hrounds⟩

/-- A text that is written as a decimal or an infinity is read as what it is. -/
theorem IsFloatText.ofText?_eq {s : List Char} {x : Number} (h : IsFloatText s x) :
    Number.ofText? s = some x := by
  have hs := frontSign_append s
  rcases h.prefix_cases List.prefix_rfl with
    ⟨htext, -, rfl⟩ | ⟨n, mantissa, tail, htext, hnegative, hspells, htail, -, hrounds⟩
  · have hbody : (splitSign s).2 = "Infinity".toList := List.append_cancel_left (hs.trans htext)
    have hname : ("Infinity".toList.map Char.toLower == "infinity".toList) = true := by
      decide +kernel
    unfold Number.ofText?
    dsimp only
    rw [hbody, hname, Bool.true_or, if_pos rfl]
  · have hbody : (splitSign s).2 = mantissa ++ tail := List.append_cancel_left (hs.trans htext)
    rw [hspells.number_ofText? (Prod.ext hnegative hbody) (looseExponent?_eq_some_iff.mpr htail)]
    exact congrArg some ((n.number_eq_iff x).mpr hrounds)

/-- A whole number is a decimal without a point and without an exponent. -/
theorem IsIntText.isFloatText {s : List Char} {x : Number} (h : IsIntText s x) :
    IsFloatText s x := by
  obtain ⟨hsign, hne, hdigits, hrounds⟩ := h
  refine .decimal ⟨_, _, [], by rw [List.append_nil], hsign, ?_, .none⟩ hrounds
  exact ⟨hdigits, fun c hc ↦ absurd hc List.not_mem_nil, .inl hne, .inr ⟨rfl, rfl⟩⟩

theorem Numeral.not_roundsTo_nan (n : Numeral) : ¬n.RoundsTo .nan := by
  rintro (⟨hrounding, -⟩ | ⟨-, hinfinite⟩)
  · cases hrounding.finite
  · cases hinfinite

theorem IsFloatText.ne_nan {s : List Char} : ¬IsFloatText s .nan := by
  rintro (_ | ⟨-, hrounds⟩)
  exact Numeral.not_roundsTo_nan _ hrounds

theorem IsIntText.ne_nan {s : List Char} : ¬IsIntText s .nan :=
  fun h ↦ h.isFloatText.ne_nan

/-! ### Front parts that are whole numbers -/

/-- A whole number in front of a text is the sign of the text and some of the digits behind it. -/
theorem IsIntText.prefix_front {other s : List Char} {x : Number} (h : IsIntText other x)
    (hpre : other <+: s) : (splitSign s).2.takeWhile Char.isDigit ≠ [] ∧
      other <+: frontSign s ++ (splitSign s).2.takeWhile Char.isDigit := by
  obtain ⟨hother, hne, hdigits, -⟩ := h
  obtain ⟨-, hsign, hfront⟩ := prefix_of_sign hother hne hdigits.head_ne_sign hpre
  replace hfront := hdigits.prefix_takeWhile hfront
  rw [hsign]
  refine ⟨fun hnil ↦ hne ?_, (List.prefix_append_right_inj _).mpr hfront⟩
  rwa [hnil, List.prefix_nil] at hfront

theorem isLongestFront_intFront? {s front : List Char} (h : intFront? s = some front) :
    IsLongestFront IsIntText s front := by
  obtain ⟨hne, heq⟩ := Option.ite_none_left_eq_some.mp h
  obtain rfl := Option.some.inj heq
  have hwritten := IsIntText.whole (isSign_frontSign s) (fun hnil ↦ hne (List.isEmpty_iff.mpr hnil))
    (areDigits_takeWhile _) ((Numeral.number_eq_iff _ _).mp rfl)
  exact ⟨isPrefix_frontSign_append (List.takeWhile_prefix _), ⟨_, hwritten⟩,
    fun other x hother hx ↦ (hx.prefix_front hother).2⟩

theorem intFront?_eq_none {s : List Char} (h : intFront? s = none) (other : List Char)
    (x : Number) (hother : other <+: s) : ¬IsIntText other x := by
  intro hx
  have hne : ¬((splitSign s).2.takeWhile Char.isDigit).isEmpty = true := fun hnil ↦
    (hx.prefix_front hother).1 (List.isEmpty_iff.mp hnil)
  exact nomatch (if_neg hne).symm.trans h

/-! ### Front parts that are decimals or infinities -/

/-- Without an infinity, what stands in front of a text is a decimal, and part of the digits and the
exponent there. -/
theorem IsFloatText.prefix_front {other s : List Char} {x : Number} (h : IsFloatText other x)
    (hother : other <+: s) (hinfinity : ¬"Infinity".toList <+: (splitSign s).2) :
    ((splitSign s).2.takeWhile Char.isDigit ≠ [] ∨
        (splitFraction ((splitSign s).2.dropWhile Char.isDigit)).1 ≠ []) ∧
      other <+: frontSign s ++ (frontMantissa (splitSign s).2 ++
        frontExponent (splitFraction ((splitSign s).2.dropWhile Char.isDigit)).2) := by
  rcases h.prefix_cases hother with
    ⟨-, hname, -⟩ | ⟨n, mantissa, tail, rfl, -, hspells, htail, hpre, -⟩
  · exact absurd hname hinfinity
  · obtain ⟨-, hwhole, hfraction⟩ :=
      hspells.prefix_frontMantissa ((List.prefix_append _ _).trans hpre)
    constructor
    · refine hspells.digit.imp (fun hne hnil ↦ hne ?_) fun hne hnil ↦ hne ?_
      · exact List.prefix_nil.mp (hnil ▸ hwhole)
      · exact List.prefix_nil.mp (hnil ▸ hfraction)
    · refine (List.prefix_append_right_inj _).mpr ?_
      rcases hspells.prefix_front htail hpre with hdigits | ⟨rfl, hexponent⟩
      · exact hdigits.trans (List.prefix_append _ _)
      · exact (List.prefix_append_right_inj _).mpr (htail.prefix_frontExponent hexponent)

/-- What is in front of a text: an infinity, or else digits with an exponent, or nothing. -/
theorem floatFront?_cases (s : List Char) :
    ("Infinity".toList <+: (splitSign s).2 ∧
        floatFront? s = some (frontSign s ++ "Infinity".toList)) ∨
      ¬"Infinity".toList <+: (splitSign s).2 ∧ floatFront? s =
        if (splitSign s).2.takeWhile Char.isDigit ≠ [] ∨
            (splitFraction ((splitSign s).2.dropWhile Char.isDigit)).1 ≠ [] then
          some (frontSign s ++ (frontMantissa (splitSign s).2 ++
            frontExponent (splitFraction ((splitSign s).2.dropWhile Char.isDigit)).2))
        else none := by
  rw [← List.isPrefixOf_iff_prefix, floatFront?]
  by_cases hinfinity : "Infinity".toList.isPrefixOf (splitSign s).2
  · exact .inl ⟨hinfinity, if_pos hinfinity⟩
  · refine .inr ⟨hinfinity, ?_⟩
    dsimp only
    rw [if_neg hinfinity, ← ite_not]
    refine if_congr ?_ rfl rfl
    rw [Bool.and_eq_true, List.isEmpty_iff, List.isEmpty_iff, not_and_or]

theorem isLongestFront_floatFront? {s front : List Char} (h : floatFront? s = some front) :
    IsLongestFront IsFloatText s front := by
  rcases floatFront?_cases s with ⟨hinfinity, hfront⟩ | ⟨hinfinity, hfront⟩
  · obtain rfl := Option.some.inj (hfront.symm.trans h)
    refine ⟨isPrefix_frontSign_append hinfinity, ⟨_, .infinity (isSign_frontSign s)⟩,
      fun other x hother hx ↦ ?_⟩
    rcases hx.prefix_cases hother with
      ⟨rfl, -, -⟩ | ⟨n, mantissa, tail, -, -, hspells, -, ⟨rest, htext⟩, -⟩
    · exact List.prefix_rfl
    · -- a text that starts with the name of the infinity starts with no digit and no point
      have hname := hspells.not_infinity (tail ++ rest)
      rw [← List.append_assoc, htext, List.isPrefixOf_iff_prefix.mpr hinfinity] at hname
      cases hname
  · rw [hfront, Option.ite_none_right_eq_some] at h
    obtain ⟨hdigit, heq⟩ := h
    obtain rfl := Option.some.inj heq
    let rest := (splitFraction ((splitSign s).2.dropWhile Char.isDigit)).2
    obtain ⟨hpre, exponent, hexponent⟩ := exists_frontExponent rest
    have hspells := spells_frontMantissa (splitSign s).1 exponent hdigit
    have hwritten := IsFloatText.decimal
      ⟨_, _, _, rfl, isSign_frontSign s, hspells, hexponent⟩ ((Numeral.number_eq_iff _ _).mp rfl)
    have hbody := (List.prefix_append_right_inj (frontMantissa (splitSign s).2)).mpr hpre
    rw [frontMantissa_append] at hbody
    exact ⟨isPrefix_frontSign_append hbody, ⟨_, hwritten⟩,
      fun other x hother hx ↦ (hx.prefix_front hother hinfinity).2⟩

theorem floatFront?_eq_none {s : List Char} (h : floatFront? s = none) (other : List Char)
    (x : Number) (hother : other <+: s) : ¬IsFloatText other x := by
  intro hx
  rcases floatFront?_cases s with ⟨-, hfront⟩ | ⟨hinfinity, hfront⟩
  · rw [hfront] at h
    cases h
  · rw [hfront, if_pos (hx.prefix_front hother hinfinity).1] at h
    cases h

/-! ### Leading numbers -/

/-- Every front part can be read, and is a number. -/
theorem exists_ofText?_of_front {s front : List Char}
    (h : intFront? s = some front ∨ floatFront? s = some front) :
    ∃ x, Number.ofText? front = some x ∧ x ≠ .nan := by
  obtain ⟨x, hx⟩ : ∃ x, IsFloatText front x := by
    rcases h with hint | hfloat
    · obtain ⟨x, hx⟩ := (isLongestFront_intFront? hint).written
      exact ⟨x, hx.isFloatText⟩
    · exact (isLongestFront_floatFront? hfloat).written
  refine ⟨x, hx.ofText?_eq, ?_⟩
  rintro rfl
  exact hx.ne_nan

/-- A number is read off the front of a text if it is read from the longest part that is written in
a grammar, and all that is written in the grammar is read as what it is. -/
theorem readsFront_of_longest {grammar : List Char → Number → Prop} {text : List Char}
    {front? : Option (List Char)}
    (hfront : ∀ front, front? = some front → IsLongestFront grammar text front)
    (hnone : front? = none → ∀ other x, other <+: text → ¬grammar other x)
    (hread : ∀ {u x}, grammar u x → Number.ofText? u = some x) :
    ReadsFront grammar text ((front?.bind Number.ofText?).getD .nan) := by
  cases front? with
  | none => exact .inr ⟨rfl, hnone rfl⟩
  | some front =>
    obtain ⟨x, hx⟩ := (hfront front rfl).written
    rw [Option.bind_some, hread hx]
    exact .inl ⟨front, hfront front rfl, hx⟩

/-- What a text starts with counts for what it is, if a text that is written in the grammar is read
as what it is. -/
theorem ReadsFront.unique {grammar : List Char → Number → Prop} {text : List Char} {x y : Number}
    (hx : ReadsFront grammar text x) (hread : ∀ {u x}, grammar u x → Number.ofText? u = some x)
    (hy : ReadsFront grammar text y) : x = y := by
  rcases hx with ⟨front, hfront, hx⟩ | ⟨rfl, hnone⟩
  · rcases hy with ⟨other, hother, hy⟩ | ⟨-, hnone⟩
    · have hle := hother.longest front x hfront.isPrefix hx
      have hge := hfront.longest other y hother.isPrefix hy
      obtain rfl := hle.eq_of_length_le hge.length_le
      exact Option.some.inj ((hread hx).symm.trans (hread hy))
    · exact absurd hx (hnone front x hfront.isPrefix)
  · rcases hy with ⟨other, hother, hy⟩ | ⟨rfl, -⟩
    · exact absurd hy (hnone other y hother.isPrefix)
    · rfl

/-- The text is not a number exactly if nothing in front of it is written in the grammar, if the
grammar is one of numbers. -/
theorem ReadsFront.eq_nan_iff {grammar : List Char → Number → Prop}
    (hnumber : ∀ {u}, ¬grammar u .nan) {text : List Char} {x : Number}
    (hx : ReadsFront grammar text x) :
    x = .nan ↔ ∀ front y, front <+: text → ¬grammar front y := by
  rcases hx with ⟨front, hfront, hx⟩ | ⟨rfl, hnone⟩
  · refine iff_of_false ?_ fun hnone ↦ hnone front x hfront.isPrefix hx
    rintro rfl
    exact hnumber hx
  · exact iff_of_true rfl hnone

/-- The number that a text starts with is, behind the blanks, that of the longest front part that is
written as a decimal or an infinity, and the whole number is that of the longest sign with digits.
It is not a number exactly if there is no such part. -/
theorem leading_eq_iff_longest (s : String) :
    (∀ x, leadingFloat s = x ↔ ReadsFront IsFloatText (s.toList.dropWhile isBlank) x) ∧
      (∀ x, leadingInt s = x ↔ ReadsFront IsIntText (s.toList.dropWhile isBlank) x) ∧
      (leadingFloat s = .nan ↔
        ∀ front y, front <+: s.toList.dropWhile isBlank → ¬IsFloatText front y) ∧
      (leadingInt s = .nan ↔
        ∀ front y, front <+: s.toList.dropWhile isBlank → ¬IsIntText front y) := by
  have hint {u : List Char} {x : Number} (h : IsIntText u x) : Number.ofText? u = some x :=
    h.isFloatText.ofText?_eq
  have hfloats : ReadsFront IsFloatText (s.toList.dropWhile isBlank) (leadingFloat s) :=
    readsFront_of_longest (fun _ ↦ isLongestFront_floatFront?) floatFront?_eq_none
      IsFloatText.ofText?_eq
  have hints : ReadsFront IsIntText (s.toList.dropWhile isBlank) (leadingInt s) :=
    readsFront_of_longest (fun _ ↦ isLongestFront_intFront?) intFront?_eq_none hint
  refine ⟨fun x ↦ ⟨?_, ?_⟩, fun x ↦ ⟨?_, ?_⟩, ?_, ?_⟩
  · rintro rfl
    exact hfloats
  · exact hfloats.unique IsFloatText.ofText?_eq
  · rintro rfl
    exact hints
  · exact hints.unique hint
  · exact hfloats.eq_nan_iff IsFloatText.ne_nan
  · exact hints.eq_nan_iff IsIntText.ne_nan

example : leadingFloat " -1.5e+x" = leadingFloat "-1.5" ∧ leadingFloat "+." = .nan := by
  decide +kernel

end LiveMarkup
