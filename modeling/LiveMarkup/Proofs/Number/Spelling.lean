import LiveMarkup.Number.Literal

/-!
How numerals are spelled. A mantissa spells a numeral if it is its digits with a point between
them, which may be left out if nothing follows it (`Numeral.Spells`). Literals are exactly the
spellings with the exponents that a literal may have (`numeral?_ofText?_eq_some_iff`). A text of a
sign, a spelling and an exponent is its own front part and starts with the number that it spells
(`leadingFloat_of_spells`), so that what a literal counts as is also what it starts with
(`leadingFloat_of_numberOfText?`).
-/

set_option autoImplicit false
set_option relaxedAutoImplicit false

namespace LiveMarkup

/-! ### Characters -/

/-- Digits and nothing else. -/
def AreDigits (s : List Char) : Prop := ∀ c ∈ s, c.isDigit = true

/-- A sign is written if it is negative. -/
def signText (negative : Bool) : List Char := if negative then ['-'] else []

theorem takeWhile_append_of_head {p : Char → Bool} {s tail : List Char}
    (hs : ∀ c ∈ s, p c = true) (htail : ∀ c ∈ tail.head?, p c = false) :
    (s ++ tail).takeWhile p = s := by
  have hstop : tail.takeWhile p = [] := by
    cases tail with
    | nil => rfl
    | cons c rest => rw [List.takeWhile_cons, if_neg (ne_true_of_eq_false (htail c rfl))]
  rw [List.takeWhile_append_of_pos hs, hstop, List.append_nil]

theorem dropWhile_append_of_head {p : Char → Bool} {s tail : List Char}
    (hs : ∀ c ∈ s, p c = true) (htail : ∀ c ∈ tail.head?, p c = false) :
    (s ++ tail).dropWhile p = tail := by
  have hsplit := List.takeWhile_append_dropWhile (p := p) (l := s ++ tail)
  rw [takeWhile_append_of_head hs htail] at hsplit
  exact List.append_cancel_left hsplit

theorem AreDigits.takeWhile_eq {s : List Char} (h : AreDigits s) :
    s.takeWhile Char.isDigit = s := by
  have hstop : ∀ c ∈ ([] : List Char).head?, c.isDigit = false := by simp
  have htake := takeWhile_append_of_head h hstop
  rwa [List.append_nil] at htake

theorem toNat_of_isMantissa {c : Char} (h : Literal.isMantissa c = true) :
    46 ≤ c.toNat ∧ c.toNat ≤ 57 := by
  simp only [Literal.isMantissa, Bool.or_eq_true, Char.isDigit, Bool.and_eq_true,
    decide_eq_true_eq, beq_iff_eq] at h
  rcases h with ⟨hlower, hupper⟩ | rfl
  · have hlower : 48 ≤ c.toNat := hlower
    have hupper : c.toNat ≤ 57 := hupper
    omega
  · decide

theorem isBlank_of_isMantissa {c : Char} (h : Literal.isMantissa c = true) :
    isBlank c = false := by
  obtain ⟨hlower, hupper⟩ := toNat_of_isMantissa h
  simp only [isBlank, Bool.or_eq_false_iff, Bool.and_eq_false_iff, decide_eq_false_iff_not,
    beq_eq_false_iff_ne]
  omega

theorem Literal.head_ne_of_isMantissa {mantissa : List Char} (hne : mantissa ≠ [])
    (h : ∀ c ∈ mantissa, isMantissa c = true) (tail : List Char) {other : Char}
    (hother : isMantissa other = false) : ∀ c ∈ (mantissa ++ tail).head?, c ≠ other := by
  obtain ⟨first, rest, rfl⟩ := List.exists_cons_of_ne_nil hne
  rintro c ⟨⟩ rfl
  rw [h first List.mem_cons_self] at hother
  cases hother

theorem splitSign_of_head {s : List Char} (h : ∀ c ∈ s.head?, c ≠ '+' ∧ c ≠ '-') :
    splitSign s = (false, s) := by
  unfold splitSign
  split
  · exact absurd rfl (h '+' rfl).1
  · exact absurd rfl (h '-' rfl).2
  · rfl

theorem splitFraction_of_head {s : List Char} (h : ∀ c ∈ s.head?, c ≠ '.') :
    splitFraction s = ([], s) := by
  unfold splitFraction
  split
  · exact absurd rfl (h '.' rfl)
  · rfl

/-! ### Spellings -/

/-- A mantissa that spells the digits of a numeral, with a point that may be left out in front of
nothing. -/
structure Numeral.Spells (n : Numeral) (mantissa : List Char) : Prop where
  whole : AreDigits n.whole
  fraction : AreDigits n.fraction
  digit : n.whole ≠ [] ∨ n.fraction ≠ []
  text : mantissa = n.whole ++ '.' :: n.fraction ∨ mantissa = n.whole ∧ n.fraction = []

namespace Numeral.Spells

variable {n : Numeral} {mantissa : List Char}

theorem isMantissa (h : n.Spells mantissa) : ∀ c ∈ mantissa, Literal.isMantissa c = true := by
  have hwhole : ∀ c ∈ n.whole, Literal.isMantissa c = true := fun c hc ↦ by
    rw [Literal.isMantissa, h.whole c hc, Bool.true_or]
  have hfraction : ∀ c ∈ n.fraction, Literal.isMantissa c = true := fun c hc ↦ by
    rw [Literal.isMantissa, h.fraction c hc, Bool.true_or]
  intro c hc
  rcases h.text with rfl | ⟨rfl, -⟩
  · rcases List.mem_append.mp hc with hc | hc
    · exact hwhole c hc
    · rcases List.mem_cons.mp hc with rfl | hc
      · decide
      · exact hfraction c hc
  · exact hwhole c hc

theorem isEmpty_eq_false (h : n.Spells mantissa) :
    (n.whole.isEmpty && n.fraction.isEmpty) = false := by
  rw [Bool.and_eq_false_iff, List.isEmpty_eq_false_iff, List.isEmpty_eq_false_iff]
  exact h.digit

theorem ne_nil (h : n.Spells mantissa) : mantissa ≠ [] := by
  rcases h.text with rfl | ⟨rfl, hfraction⟩
  · simp
  · exact h.digit.resolve_right (not_not_intro hfraction)

/-- A spelling and what follows it start with a digit or a point. -/
theorem exists_head (h : n.Spells mantissa) (tail : List Char) :
    ∃ c rest, mantissa ++ tail = c :: rest ∧ Literal.isMantissa c = true := by
  obtain ⟨c, rest, rfl⟩ := List.exists_cons_of_ne_nil h.ne_nil
  exact ⟨c, rest ++ tail, rfl, h.isMantissa c List.mem_cons_self⟩

theorem head_ne_minus (h : n.Spells mantissa) (tail : List Char) :
    ∀ c ∈ (mantissa ++ tail).head?, c ≠ '-' :=
  Literal.head_ne_of_isMantissa h.ne_nil h.isMantissa tail (by decide)

end Numeral.Spells

/-! ### Literals -/

namespace Literal

theorem digits?_eq_some_iff {s : List Char} {n : Nat} :
    digits? s = some n ↔ s ≠ [] ∧ AreDigits s ∧ digitsValue s = n := by
  unfold digits?
  split
  · rename_i h
    simp only [Bool.and_eq_true, Bool.not_eq_true', List.isEmpty_eq_false_iff,
      List.all_eq_true] at h
    rw [Option.some_inj, ← and_assoc]
    exact (and_iff_right h).symm
  · rename_i h
    simp only [Bool.and_eq_true, Bool.not_eq_true', List.isEmpty_eq_false_iff,
      List.all_eq_true] at h
    exact iff_of_false (fun hnone ↦ nomatch hnone) fun hdigits ↦ h ⟨hdigits.1, hdigits.2.1⟩

theorem looseExponent?_cons {letter : Char} (hletter : letter = 'e' ∨ letter = 'E')
    (s : List Char) : looseExponent? (letter :: s) =
      (digits? (splitSign s).2).map fun n : Nat ↦ if (splitSign s).1 then -(n : Int) else n := by
  rcases hletter with rfl | rfl <;> rfl

/-- What may follow a mantissa in a decimal is nothing, or a letter, a sign and digits. -/
theorem looseExponent?_cases {tail : List Char} {exponent : Int}
    (h : looseExponent? tail = some exponent) :
    tail = [] ∨ ∃ letter s, tail = letter :: s ∧ (letter = 'e' ∨ letter = 'E') ∧
      (splitSign s).2 ≠ [] ∧ AreDigits (splitSign s).2 := by
  cases tail with
  | nil => exact .inl rfl
  | cons letter s =>
    by_cases hletter : letter = 'e' ∨ letter = 'E'
    · rw [looseExponent?_cons hletter] at h
      obtain ⟨n, hn, -⟩ := Option.map_eq_some_iff.mp h
      obtain ⟨hne, hdigits, -⟩ := digits?_eq_some_iff.mp hn
      exact .inr ⟨letter, s, rfl, hletter, hne, hdigits⟩
    · have hnone : ¬(letter == 'e' || letter == 'E') = true := by simpa using hletter
      rw [looseExponent?, if_neg hnone] at h
      cases h

/-- What may follow a mantissa in a decimal starts with no character of one. -/
theorem isMantissa_head_of_looseExponent? {tail : List Char} {exponent : Int}
    (h : looseExponent? tail = some exponent) : ∀ c ∈ tail.head?, isMantissa c = false := by
  rcases looseExponent?_cases h with rfl | ⟨letter, s, rfl, hletter, -, -⟩
  · rintro c ⟨⟩
  · rintro c ⟨⟩
    rcases hletter with rfl | rfl <;> decide

/-- What may follow a mantissa in a literal may follow it in a decimal. -/
theorem looseExponent?_of_exponent? {tail : List Char} {exponent : Int}
    (h : exponent? tail = some exponent) : looseExponent? tail = some exponent := by
  unfold exponent? at h
  split at h
  · exact h
  · exact h
  · rename_i s _
    obtain ⟨n, hn, rfl⟩ := Option.map_eq_some_iff.mp h
    obtain ⟨-, hs, -⟩ := digits?_eq_some_iff.mp hn
    have hsign : splitSign s = (false, s) := by
      refine splitSign_of_head fun c hc ↦ ?_
      have hdigit := hs c (List.mem_of_mem_head? hc)
      constructor <;> rintro rfl <;> cases hdigit
    rw [looseExponent?_cons (.inl rfl), hsign, hn]
    rfl
  · cases h

theorem unsigned?_append {mantissa tail : List Char} (hne : mantissa ≠ [])
    (hmantissa : ∀ c ∈ mantissa, isMantissa c = true)
    (htail : ∀ c ∈ tail.head?, isMantissa c = false) (negative : Bool) :
    unsigned? negative (mantissa ++ tail) =
      (exponent? tail).map fun exponent ↦ ⟨negative, mantissa, exponent⟩ := by
  unfold unsigned?
  rw [takeWhile_append_of_head hmantissa htail, dropWhile_append_of_head hmantissa htail]
  exact if_neg fun hempty ↦ hne (List.isEmpty_iff.mp hempty)

theorem ofText?_signText {s : List Char} (h : ∀ c ∈ s.head?, c ≠ '-') (negative : Bool) :
    ofText? (signText negative ++ s) = unsigned? negative s := by
  cases negative with
  | true => rfl
  | false =>
    change ofText? s = _
    unfold ofText?
    split
    · exact absurd rfl (h '-' rfl)
    · rfl

theorem isMantissa_iff {c : Char} : isMantissa c = true ↔ c.isDigit = true ∨ c = '.' := by
  rw [isMantissa, Bool.or_eq_true, beq_iff_eq]

/-- A literal is a sign, a mantissa of digits and points in any mixture, and an exponent. -/
theorem ofText?_eq_some_iff {s : List Char} {l : Literal} :
    ofText? s = some l ↔
      ∃ tail, s = signText l.negative ++ (l.mantissa ++ tail) ∧ l.mantissa ≠ [] ∧
        (∀ c ∈ l.mantissa, isMantissa c = true) ∧ exponent? tail = some l.exponent := by
  constructor
  · intro h
    obtain ⟨negative, u, rfl, hu⟩ : ∃ negative u, s = signText negative ++ u ∧
        unsigned? negative u = some l := by
      unfold ofText? at h
      split at h
      · exact ⟨true, _, rfl, h⟩
      · exact ⟨false, _, rfl, h⟩
    unfold unsigned? at hu
    dsimp only at hu
    split at hu
    · cases hu
    · rename_i hmantissa
      obtain ⟨exponent, htail, rfl⟩ := Option.map_eq_some_iff.mp hu
      refine ⟨_, congrArg _ List.takeWhile_append_dropWhile.symm, ?_, ?_, htail⟩
      · exact fun hnil ↦ hmantissa (List.isEmpty_iff.mpr hnil)
      · exact fun c hc ↦ List.all_eq_true.mp List.all_takeWhile c hc
  · rintro ⟨tail, rfl, hne, hmantissa, htail⟩
    rw [ofText?_signText (head_ne_of_isMantissa hne hmantissa tail (by decide)),
      unsigned?_append hne hmantissa
        (isMantissa_head_of_looseExponent? (looseExponent?_of_exponent? htail)), htail,
      Option.map_some]

theorem numeral?_eq_some_iff {l : Literal} {n : Numeral} :
    l.numeral? = some n ↔
      n.negative = l.negative ∧ n.exponent = l.exponent ∧ n.Spells l.mantissa := by
  have hdigit : ∀ c ∈ l.mantissa.takeWhile Char.isDigit, c.isDigit = true := fun c hc ↦
    List.all_eq_true.mp List.all_takeWhile c hc
  have hsplit := List.takeWhile_append_dropWhile (p := Char.isDigit) (l := l.mantissa)
  constructor
  · intro h
    unfold numeral? at h
    dsimp only at h
    split at h
    · rename_i fraction hdrop
      split at h
      · rename_i hfraction
        rw [Bool.and_eq_true, List.all_eq_true] at hfraction
        obtain rfl := Option.some.inj h
        refine ⟨rfl, rfl, hdigit, hfraction.1, ?_, Or.inl (hdrop ▸ hsplit.symm)⟩
        rw [Bool.not_eq_true', Bool.and_eq_false_iff, List.isEmpty_eq_false_iff,
          List.isEmpty_eq_false_iff] at hfraction
        exact hfraction.2
      · cases h
    · rename_i hdrop
      split at h
      · cases h
      · rename_i hwhole
        obtain rfl := Option.some.inj h
        rw [hdrop, List.append_nil] at hsplit
        exact ⟨rfl, rfl, hdigit, fun c hc ↦ absurd hc List.not_mem_nil,
          Or.inl fun hnil ↦ hwhole (List.isEmpty_iff.mpr hnil), Or.inr ⟨hsplit.symm, rfl⟩⟩
    · cases h
  · rintro ⟨hnegative, hexponent, h⟩
    have hn : n = ⟨l.negative, n.whole, n.fraction, l.exponent⟩ := by
      rw [← hnegative, ← hexponent]
    unfold numeral?
    dsimp only
    rcases h.text with htext | ⟨htext, hfraction⟩
    · have hstop : ∀ c ∈ ('.' :: n.fraction).head?, c.isDigit = false := by simp
      rw [htext, takeWhile_append_of_head h.whole hstop, dropWhile_append_of_head h.whole hstop]
      have hall : n.fraction.all Char.isDigit = true := List.all_eq_true.mpr h.fraction
      have hdigits : (n.fraction.all Char.isDigit &&
          !(n.whole.isEmpty && n.fraction.isEmpty)) = true := by
        rw [hall, h.isEmpty_eq_false]
        rfl
      rw [hn]
      exact if_pos hdigits
    · have hstop : ∀ c ∈ ([] : List Char).head?, c.isDigit = false := by simp
      have htake := takeWhile_append_of_head h.whole hstop
      have hdrop := dropWhile_append_of_head h.whole hstop
      rw [List.append_nil] at htake hdrop
      rw [htext, htake, hdrop]
      have hsome : n.whole.isEmpty = false :=
        List.isEmpty_eq_false_iff.mpr (h.digit.resolve_right (not_not_intro hfraction))
      dsimp only
      rw [hsome, ← hfraction, ← hn]
      rfl

end Literal

/-- The literals: a sign, a spelling of the numeral, and an exponent. -/
theorem numeral?_ofText?_eq_some_iff {s : List Char} {n : Numeral} :
    (Literal.ofText? s).bind Literal.numeral? = some n ↔
      ∃ mantissa tail, s = signText n.negative ++ (mantissa ++ tail) ∧ n.Spells mantissa ∧
        Literal.exponent? tail = some n.exponent := by
  constructor
  · intro h
    obtain ⟨l, hl, hn⟩ := Option.bind_eq_some_iff.mp h
    obtain ⟨hnegative, hexponent, hspells⟩ := Literal.numeral?_eq_some_iff.mp hn
    obtain ⟨tail, hs, -, -, htail⟩ := Literal.ofText?_eq_some_iff.mp hl
    exact ⟨l.mantissa, tail, hnegative ▸ hs, hspells, htail.trans (congrArg some hexponent.symm)⟩
  · rintro ⟨mantissa, tail, hs, hspells, htail⟩
    have hl : Literal.ofText? s = some ⟨n.negative, mantissa, n.exponent⟩ :=
      Literal.ofText?_eq_some_iff.mpr ⟨tail, hs, hspells.ne_nil, hspells.isMantissa, htail⟩
    rw [hl]
    exact Literal.numeral?_eq_some_iff.mpr ⟨rfl, rfl, hspells⟩

/-! ### Front parts -/

theorem frontSign_append (s : List Char) : frontSign s ++ (splitSign s).2 = s := by
  unfold frontSign splitSign
  split <;> rfl

/-- The point comes with the digits of the fraction behind it. -/
theorem frontPoint_eq (s : List Char) :
    frontPoint s = '.' :: (splitFraction s).1 ∨ frontPoint s = [] ∧ splitFraction s = ([], s) := by
  unfold frontPoint
  split
  · exact .inl rfl
  · rename_i hpoint
    refine .inr ⟨rfl, splitFraction_of_head ?_⟩
    rintro c hc rfl
    obtain ⟨rest, rfl⟩ := List.head?_eq_some_iff.mp hc
    exact hpoint rest rfl

theorem frontPoint_append (s : List Char) : frontPoint s ++ (splitFraction s).2 = s := by
  unfold frontPoint
  split
  · exact congrArg (List.cons '.') List.takeWhile_append_dropWhile
  · rename_i hpoint
    rw [splitFraction_of_head, List.nil_append]
    rintro c hc rfl
    obtain ⟨rest, rfl⟩ := List.head?_eq_some_iff.mp hc
    exact hpoint rest rfl

theorem frontMantissa_append (s : List Char) :
    frontMantissa s ++ (splitFraction (s.dropWhile Char.isDigit)).2 = s := by
  rw [frontMantissa, List.append_assoc, frontPoint_append, List.takeWhile_append_dropWhile]

/-- An exponent is its own front part. -/
theorem frontExponent_of_looseExponent? {tail : List Char} {exponent : Int}
    (h : looseExponent? tail = some exponent) : frontExponent tail = tail := by
  rcases Literal.looseExponent?_cases h with rfl | ⟨letter, s, rfl, hletter, hne, hdigits⟩
  · rfl
  · have hmark : (letter == 'e' || letter == 'E') = true := by simpa using hletter
    rw [frontExponent, hdigits.takeWhile_eq, hmark, List.isEmpty_eq_false_iff.mpr hne,
      frontSign_append]
    rfl

namespace Numeral.Spells

variable {n : Numeral} {mantissa tail : List Char}

/-- A spelling is no blank, and no sign follows the one in front of it. -/
theorem splitSign_trimLeading (h : n.Spells mantissa) (tail : List Char) (negative : Bool) :
    trimLeading (signText negative ++ (mantissa ++ tail)) =
        signText negative ++ (mantissa ++ tail) ∧
      splitSign (signText negative ++ (mantissa ++ tail)) = (negative, mantissa ++ tail) := by
  obtain ⟨first, rest, hhead, hfirst⟩ := h.exists_head tail
  cases negative with
  | true => exact ⟨rfl, rfl⟩
  | false =>
    change trimLeading (mantissa ++ tail) = mantissa ++ tail ∧ splitSign (mantissa ++ tail) = _
    rw [hhead, trimLeading, List.dropWhile_cons_of_neg
      (ne_true_of_eq_false (isBlank_of_isMantissa hfirst))]
    refine ⟨rfl, splitSign_of_head ?_⟩
    rintro _ ⟨⟩
    constructor <;> rintro rfl <;> cases hfirst

/-- A spelling is no infinity. -/
theorem not_infinity (h : n.Spells mantissa) (tail : List Char) :
    "Infinity".toList.isPrefixOf (mantissa ++ tail) = false := by
  obtain ⟨first, rest, hhead, hfirst⟩ := h.exists_head tail
  have hne : first ≠ 'I' := by
    rintro rfl
    cases hfirst
  have hname : "Infinity".toList = 'I' :: "nfinity".toList := by decide +kernel
  rw [hhead, hname, List.isPrefixOf_cons_cons, beq_eq_false_iff_ne.mpr hne.symm, Bool.false_and]

/-- A spelling is no name that starts with a letter, whatever its case. -/
theorem toLower_beq (h : n.Spells mantissa) (tail : List Char) {first : Char} (rest : List Char)
    (hfirst : Literal.isMantissa first = false) :
    ((mantissa ++ tail).map Char.toLower == first :: rest) = false := by
  obtain ⟨c, others, hhead, hc⟩ := h.exists_head tail
  have hsame : c.toLower = c := by
    refine dif_neg fun hupper ↦ ?_
    have hlarge : 65 ≤ c.toNat := hupper.1
    have hsmall := (toNat_of_isMantissa hc).2
    omega
  have hne : c ≠ first := by
    rintro rfl
    rw [hc] at hfirst
    cases hfirst
  rw [hhead, List.map_cons, hsame, List.cons_beq_cons, beq_eq_false_iff_ne.mpr hne, Bool.false_and]

/-- Read from the front, a spelling gives the digits of its numeral. -/
theorem parts (h : n.Spells mantissa)
    (htail : ∀ c ∈ tail.head?, Literal.isMantissa c = false) :
    (mantissa ++ tail).takeWhile Char.isDigit = n.whole ∧
      splitFraction ((mantissa ++ tail).dropWhile Char.isDigit) = (n.fraction, tail) := by
  have hdigit : ∀ c ∈ tail.head?, c.isDigit = false := fun c hc ↦
    (Bool.or_eq_false_iff.mp (htail c hc)).1
  have hpoint : ∀ c ∈ tail.head?, c ≠ '.' := fun c hc ↦
    beq_eq_false_iff_ne.mp (Bool.or_eq_false_iff.mp (htail c hc)).2
  rcases h.text with htext | ⟨htext, hfraction⟩
  · have hstop : ∀ c ∈ ('.' :: (n.fraction ++ tail)).head?, c.isDigit = false := by simp
    rw [htext, List.append_assoc, List.cons_append, takeWhile_append_of_head h.whole hstop,
      dropWhile_append_of_head h.whole hstop]
    exact ⟨rfl, Prod.ext (takeWhile_append_of_head h.fraction hdigit)
      (dropWhile_append_of_head h.fraction hdigit)⟩
  · rw [htext, takeWhile_append_of_head h.whole hdigit, dropWhile_append_of_head h.whole hdigit,
      splitFraction_of_head hpoint, hfraction]
    exact ⟨rfl, rfl⟩

/-- A spelling that ends where no digit and no point follows is the whole front. -/
theorem eq_frontMantissa (h : n.Spells mantissa)
    (htail : ∀ c ∈ tail.head?, Literal.isMantissa c = false) :
    mantissa = frontMantissa (mantissa ++ tail) ∧
      tail = (splitFraction ((mantissa ++ tail).dropWhile Char.isDigit)).2 := by
  obtain ⟨-, hfraction⟩ := h.parts htail
  have hfront := frontMantissa_append (mantissa ++ tail)
  rw [hfraction] at hfront ⊢
  exact ⟨(List.append_cancel_right hfront).symm, rfl⟩

variable {s : List Char} (hs : splitSign s = (n.negative, mantissa ++ tail))
  (htail : looseExponent? tail = some n.exponent)

include hs htail

/-- A text of a sign, a spelling and an exponent is written as its numeral. -/
theorem numeral_ofText? (h : n.Spells mantissa) : Numeral.ofText? s = some n := by
  obtain ⟨hwhole, hfraction⟩ := h.parts (Literal.isMantissa_head_of_looseExponent? htail)
  unfold Numeral.ofText?
  rw [hs]
  dsimp only
  rw [hwhole, hfraction]
  dsimp only
  rw [h.isEmpty_eq_false, htail]
  rfl

theorem number_ofText? (h : n.Spells mantissa) : Number.ofText? s = some n.number := by
  have hinfinity : "infinity".toList = 'i' :: "nfinity".toList := by decide +kernel
  have hinf : "inf".toList = 'i' :: "nf".toList := by decide +kernel
  have hnan : "nan".toList = 'n' :: "an".toList := by decide +kernel
  unfold Number.ofText?
  rw [h.numeral_ofText? hs htail, hs, hinfinity, hinf, hnan]
  dsimp only
  rw [h.toLower_beq tail _ (by decide), h.toLower_beq tail _ (by decide),
    h.toLower_beq tail _ (by decide)]
  rfl

/-- Such a text is its own front part. -/
theorem floatFront?_eq (h : n.Spells mantissa) : floatFront? s = some s := by
  have hhead := Literal.isMantissa_head_of_looseExponent? htail
  obtain ⟨hwhole, hfraction⟩ := h.parts hhead
  have hsplit := frontSign_append s
  unfold floatFront?
  rw [hs] at hsplit ⊢
  dsimp only
  rw [h.not_infinity, hwhole, hfraction]
  dsimp only
  rw [h.isEmpty_eq_false, ← (h.eq_frontMantissa hhead).1, frontExponent_of_looseExponent? htail,
    hsplit]
  rfl

end Numeral.Spells

/-! ### Leading numbers -/

/-- A text starts with the number that it spells as a whole. -/
theorem leadingFloat_of_spells {n : Numeral} {mantissa tail : List Char} (h : n.Spells mantissa)
    (htail : looseExponent? tail = some n.exponent) :
    leadingFloat (String.ofList (signText n.negative ++ (mantissa ++ tail))) = n.number := by
  obtain ⟨htrim, hsplit⟩ := h.splitSign_trimLeading tail n.negative
  rw [leadingFloat, String.toList_ofList, htrim, h.floatFront?_eq hsplit htail, Option.bind_some,
    h.number_ofText? hsplit htail, Option.getD_some]

/-- What a text counts as in arithmetic is what it starts with. -/
theorem leadingFloat_of_numberOfText? {s : String} {x : Number}
    (h : numberOfText? s = some x) : leadingFloat s = x := by
  unfold numberOfText? at h
  obtain ⟨hx, -⟩ := Option.filter_eq_some_iff.mp h
  obtain ⟨n, hn, rfl⟩ := Option.map_eq_some_iff.mp hx
  obtain ⟨mantissa, tail, htext, hspells, htail⟩ := numeral?_ofText?_eq_some_iff.mp hn
  rw [← String.ofList_toList (s := s), htext]
  exact leadingFloat_of_spells hspells (Literal.looseExponent?_of_exponent? htail)

end LiveMarkup
