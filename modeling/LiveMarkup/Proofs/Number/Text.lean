import LiveMarkup.Proofs.Markup.Printing
import LiveMarkup.Value

/-!
The characters of displayed numbers. A number displays as letters, digits, points and signs
(`Number.text_chars`), so that it is safe text wherever it is shown (`Number.safeText_text`).
-/

set_option autoImplicit false
set_option relaxedAutoImplicit false

namespace LiveMarkup

/-- The characters that numbers are written with. -/
def isNumberChar (c : Char) : Bool := c.isAlphanum || c == '.' || c == '-' || c == '+'

theorem isNumberChar_of_isDigit {c : Char} (h : c.isDigit = true) : isNumberChar c = true := by
  simp [isNumberChar, Char.isAlphanum, h]

namespace Number

theorem digitsOf_chars (n : Nat) : ∀ c ∈ digitsOf n, isNumberChar c = true := by
  intro c hc
  exact isNumberChar_of_isDigit (Nat.isDigit_of_mem_toDigits (by decide) (by decide) hc)

end Number

namespace NumberFormat

variable {digits : List Char}

theorem positional_chars (f : NumberFormat) (h : ∀ c ∈ digits, isNumberChar c = true)
    (place : Int) : ∀ c ∈ f.positional digits place, isNumberChar c = true := by
  intro c hc
  unfold positional at hc
  split at hc
  · rcases List.mem_append.mp hc with hc | hc
    · rcases List.mem_cons.mp hc with rfl | hc
      · decide
      · rcases List.mem_cons.mp hc with rfl | hc
        · decide
        · rw [List.eq_of_mem_replicate hc]
          decide
    · exact h c hc
  · split at hc
    · rcases List.mem_append.mp hc with hc | hc
      · rcases List.mem_append.mp hc with hc | hc
        · exact h c hc
        · rw [List.eq_of_mem_replicate hc]
          decide
      · split at hc
        · have hpoint : ∀ d ∈ ['.', '0'], isNumberChar d = true :=
            List.all_eq_true.mp (by decide)
          exact hpoint c hc
        · simp at hc
    · rcases List.mem_append.mp hc with hc | hc
      · exact h c (List.mem_of_mem_take hc)
      · rcases List.mem_cons.mp hc with rfl | hc
        · decide
        · exact h c (List.mem_of_mem_drop hc)

theorem scientific_chars (f : NumberFormat) (h : ∀ c ∈ digits, isNumberChar c = true)
    (place : Int) : ∀ c ∈ f.scientific digits place, isNumberChar c = true := by
  intro c hc
  unfold scientific at hc
  rcases List.mem_append.mp hc with hc | hc
  · rcases List.mem_append.mp hc with hc | hc
    · split at hc
      · rename_i first next rest
        rcases List.mem_cons.mp hc with rfl | hc
        · exact h c (by simp)
        · rcases List.mem_cons.mp hc with rfl | hc
          · decide
          · exact h c (List.mem_cons_of_mem _ hc)
      · exact h c hc
    · rcases List.mem_cons.mp hc with rfl | hc
      · decide
      · split at hc
        · rw [List.mem_singleton.mp hc]
          decide
        · split at hc
          · rw [List.mem_singleton.mp hc]
            decide
          · simp at hc
  · exact Number.digitsOf_chars _ c hc

theorem decimal_chars (f : NumberFormat) (d : Decimal) :
    ∀ c ∈ f.decimal d, isNumberChar c = true := by
  have hdigits : ∀ c ∈ ((Number.digitsOf d.significand).reverse.dropWhile (· == '0')).reverse,
      isNumberChar c = true := by
    intro c hc
    have hdropped := (List.dropWhile_sublist _).mem (List.mem_reverse.mp hc)
    exact Number.digitsOf_chars d.significand c (List.mem_reverse.mp hdropped)
  intro c hc
  unfold decimal at hc
  dsimp only at hc
  split at hc
  · exact positional_chars f hdigits _ c hc
  · exact scientific_chars f hdigits _ c hc

theorem magnitude_chars (f : NumberFormat) (code : Nat) :
    ∀ c ∈ f.magnitude code, isNumberChar c = true := by
  intro c hc
  unfold magnitude at hc
  split at hc
  · have hzero : ∀ d ∈ ['0', '.', '0'], isNumberChar d = true :=
      List.all_eq_true.mp (by decide)
    split at hc
    · exact hzero c hc
    · exact hzero c (by simp at hc; simp [hc])
  · exact decimal_chars f _ c hc

end NumberFormat

/-- A number displays as letters, digits, points and signs. -/
theorem Number.text_chars (n : Number) : ∀ c ∈ n.text.toList, isNumberChar c = true := by
  intro c hc
  cases n with
  | nan =>
    have hnan : ∀ d ∈ ['N', 'a', 'N'], isNumberChar d = true :=
      List.all_eq_true.mp (by decide)
    exact hnan c hc
  | infinite negative =>
    have hname : ∀ d ∈ ['-', 'I', 'n', 'f', 'i', 'n', 'i', 't', 'y'], isNumberChar d = true :=
      List.all_eq_true.mp (by decide)
    cases negative with
    | true => exact hname c hc
    | false => exact hname c (List.mem_cons_of_mem '-' hc)
  | finite negative code =>
    rw [Number.text, NumberFormat.print, String.toList_ofList] at hc
    rcases List.mem_append.mp hc with hc | hc
    · split at hc
      · rw [List.mem_singleton.mp hc]
        decide
      · simp at hc
    · exact NumberFormat.magnitude_chars _ _ c hc

/-- A displayed number opens no tag. -/
theorem Number.safeText_text (n : Number) : SafeText n.text.toList :=
  .of_notMem fun hmem ↦ absurd (n.text_chars '<' hmem) (by decide)

end LiveMarkup
