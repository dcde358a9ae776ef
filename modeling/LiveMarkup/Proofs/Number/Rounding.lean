import LiveMarkup.Number.Basic
import Mathlib.Order.Monotone.Basic
import Mathlib.Tactic.Linarith
import Mathlib.Tactic.Ring

/-!
Rounding to the nearest magnitude. The magnitudes grow with their codes (`unitsOf_strictMono`),
and a quotient of units is rounded beyond a code exactly if it lies beyond the midpoint of that
magnitude and the next one, or at the midpoint of an odd one (`lt_nearestCode_iff`). Everything
else about rounding follows from where the midpoints lie: it is monotone (`nearestCode_mono`)
and keeps what is a magnitude already (`nearestCode_unitsOf`).
-/

set_option autoImplicit false
set_option relaxedAutoImplicit false

namespace LiveMarkup.Number

theorem twoTo_eq (n : Nat) : twoTo n = 2 ^ n := rfl

theorem tenTo_eq (n : Nat) : tenTo n = 10 ^ n := rfl

theorem twoTo_pos (n : Nat) : 0 < twoTo n := Nat.two_pow_pos n

theorem tenTo_pos (n : Nat) : 0 < tenTo n := Nat.pow_pos (by decide)

theorem runLength_pos : 0 < runLength := twoTo_pos 52

theorem runLength_even : runLength % 2 = 0 := by decide +kernel

/-! ### Rounding to a whole number -/

/-- A quotient is rounded beyond a whole number if it lies beyond the half after it, or at the
half after an odd number. -/
theorem lt_nearest_iff {num den : Nat} (hden : 0 < den) (m : Nat) :
    m < nearest num den ↔
      (2 * m + 1) * den < 2 * num ∨ (2 * m + 1) * den = 2 * num ∧ m % 2 = 1 := by
  have hnum := Nat.div_add_mod num den
  have hmod := Nat.mod_lt num hden
  unfold nearest
  generalize num / den = q at *
  generalize num % den = r at *
  rcases lt_trichotomy m q with hm | rfl | hm
  · have hbelow : (2 * m + 1) * den < 2 * num := by
      have := Nat.mul_le_mul_right den (Nat.succ_le_of_lt hm)
      rw [Nat.succ_eq_add_one] at this
      linarith
    refine iff_of_true ?_ (Or.inl hbelow)
    split <;> omega
  · -- the quotient is between the number and the next one
    have hhalf : (2 * m + 1) * den < 2 * num ↔ den < 2 * r := by
      constructor <;> intro h <;> linarith
    have htie : (2 * m + 1) * den = 2 * num ↔ den = 2 * r := by
      constructor <;> intro h <;> linarith
    rw [hhalf, htie]
    split <;> omega
  · have habove : 2 * num < (2 * m + 1) * den := by
      have := Nat.mul_le_mul_right den (Nat.succ_le_of_lt hm)
      rw [Nat.succ_eq_add_one] at this
      linarith
    refine iff_of_false ?_ (by omega)
    split <;> omega

theorem le_nearest {num den m : Nat} (hden : 0 < den) (h : m * den ≤ num) :
    m ≤ nearest num den := by
  cases m with
  | zero => exact Nat.zero_le _
  | succ m =>
    refine (lt_nearest_iff hden m).mpr (Or.inl ?_)
    linarith

theorem nearest_le {num den m : Nat} (hden : 0 < den) (h : num ≤ m * den) :
    nearest num den ≤ m := by
  refine Nat.le_of_not_lt fun hlt ↦ ?_
  rcases (lt_nearest_iff hden m).mp hlt with hlt | ⟨heq, -⟩ <;> linarith

/-! ### The magnitudes -/

/-- In the run with number `shift`, one unit of the code counts `2 ^ shift` units. The first two
runs are one unit apart and count as one run here, of twice the length. -/
theorem unitsOf_run {shift k : Nat} (hk : k ≤ 2 * runLength)
    (hrun : runLength ≤ k ∨ shift = 0) : unitsOf (shift * runLength + k) = k * twoTo shift := by
  have hpos := runLength_pos
  rcases lt_or_ge k runLength with hlt | hge
  · obtain rfl : shift = 0 := hrun.resolve_left (Nat.not_le_of_lt hlt)
    rw [Nat.zero_mul, Nat.zero_add, unitsOf, if_pos hlt, twoTo_eq, Nat.pow_zero, Nat.mul_one]
  · obtain ⟨i, rfl⟩ := Nat.exists_eq_add_of_le hge
    have hcode : shift * runLength + (runLength + i) = runLength * (shift + 1) + i := by ring
    have hsize : ¬ runLength * (shift + 1) + i < runLength := by
      have := Nat.le_mul_of_pos_right runLength (Nat.succ_pos shift)
      omega
    rw [hcode, unitsOf, if_neg hsize]
    rcases Nat.lt_or_ge i runLength with hi | hi
    · rw [Nat.mul_add_mod, Nat.mod_eq_of_lt hi, Nat.mul_add_div hpos, Nat.div_eq_of_lt hi]
      rfl
    · -- the first magnitude of the next run
      obtain rfl : i = runLength := by omega
      rw [Nat.mul_add_mod, Nat.mod_self, Nat.mul_add_div hpos, Nat.div_self hpos,
        Nat.add_sub_cancel, twoTo_eq, twoTo_eq, Nat.pow_succ]
      ring

theorem exists_run (code : Nat) :
    ∃ shift k, code = shift * runLength + k ∧ k < 2 * runLength ∧
      (runLength ≤ k ∨ shift = 0) := by
  have hpos := runLength_pos
  rcases Nat.lt_or_ge code runLength with hlt | hge
  · exact ⟨0, code, by omega, by omega, Or.inr rfl⟩
  · have hmod := Nat.mod_lt code hpos
    have hdiv : 0 < code / runLength := Nat.div_pos hge hpos
    obtain ⟨shift, hshift⟩ := Nat.exists_eq_succ_of_ne_zero hdiv.ne'
    have hcode := Nat.div_add_mod code runLength
    rw [hshift, Nat.succ_eq_add_one] at hcode
    refine ⟨shift, runLength + code % runLength, ?_, by omega, Or.inl (Nat.le_add_right _ _)⟩
    linarith

theorem unitsOf_strictMono : StrictMono unitsOf := by
  refine strictMono_nat_of_lt_succ fun code ↦ ?_
  obtain ⟨shift, k, rfl, hk, hrun⟩ := exists_run code
  rw [Nat.add_assoc, unitsOf_run hk.le hrun,
    unitsOf_run (k := k + 1) hk (hrun.imp_left Nat.le_succ_of_le)]
  exact Nat.mul_lt_mul_of_pos_right (Nat.lt_succ_self k) (twoTo_pos shift)

/-! ### Rounding to a magnitude -/

/-- The whole part of a quotient lies in the run that it is shifted for. -/
theorem bounds_of_shift {num den shift : Nat} (hden : 0 < den)
    (hshift : shift = (num / den).log2 - 52) :
    num < 2 * runLength * (den * twoTo shift) ∧
      (shift = 0 ∨ runLength * (den * twoTo shift) ≤ num) := by
  have hrun : runLength = 2 ^ 52 := rfl
  have hquot := Nat.div_add_mod num den
  have hmod := Nat.mod_lt num hden
  have hmul : runLength * (den * twoTo shift) = den * 2 ^ (52 + shift) := by
    rw [hrun, twoTo_eq, Nat.pow_add]
    ring
  constructor
  · have hupper : num / den < 2 ^ (52 + shift + 1) :=
      Nat.lt_of_lt_of_le Nat.lt_log2_self (Nat.pow_le_pow_right (by decide) (by omega))
    calc num < 2 ^ (52 + shift + 1) * den := (Nat.div_lt_iff_lt_mul hden).mp hupper
      _ = 2 * (den * 2 ^ (52 + shift)) := by ring
      _ = 2 * runLength * (den * twoTo shift) := by rw [← hmul]; ring
  · rcases Nat.eq_zero_or_pos shift with hzero | hpos
    · exact Or.inl hzero
    · have hne : num / den ≠ 0 := by
        intro h
        rw [h, Nat.log2_zero] at hshift
        omega
      have hlower : 2 ^ (52 + shift) ≤ num / den := by
        have := Nat.log2_self_le hne
        rwa [show (num / den).log2 = 52 + shift by omega] at this
      have hle := Nat.mul_le_mul_left den hlower
      rw [hmul]
      exact Or.inr (by omega)

/-- A quotient is rounded beyond a code if it lies beyond the midpoint of the magnitude and the
next one, or at the midpoint of an odd code. -/
theorem lt_nearestCode_iff {num den : Nat} (hden : 0 < den) (code : Nat) :
    code < nearestCode num den ↔
      (unitsOf code + unitsOf (code + 1)) * den < 2 * num ∨
        (unitsOf code + unitsOf (code + 1)) * den = 2 * num ∧ code % 2 = 1 := by
  unfold nearestCode
  generalize hshift : (num / den).log2 - 52 = shift
  dsimp only
  obtain ⟨hupper, hlower⟩ := bounds_of_shift hden hshift.symm
  have hstep : 0 < den * twoTo shift := Nat.mul_pos hden (twoTo_pos shift)
  have hnext : unitsOf code < unitsOf (code + 1) := unitsOf_strictMono (Nat.lt_succ_self code)
  by_cases hbelow : code < shift * runLength + runLength ∧ shift ≠ 0
  · -- the code belongs to an earlier run
    obtain ⟨hcode, hne⟩ := hbelow
    have hnum := hlower.resolve_left hne
    have hstart : unitsOf (shift * runLength + runLength) = runLength * twoTo shift :=
      unitsOf_run (by omega) (Or.inl le_rfl)
    have hle : unitsOf (code + 1) ≤ runLength * twoTo shift :=
      hstart ▸ unitsOf_strictMono.monotone (Nat.succ_le_of_lt hcode)
    have hsum : unitsOf code + unitsOf (code + 1) < 2 * (runLength * twoTo shift) := by
      omega
    refine iff_of_true ?_ (Or.inl ?_)
    · have := le_nearest hstep hnum
      omega
    · have := Nat.mul_lt_mul_of_pos_right hsum hden
      linarith
  by_cases habove : shift * runLength + 2 * runLength ≤ code
  · -- the code belongs to a later run
    have hend : unitsOf (shift * runLength + 2 * runLength) = 2 * runLength * twoTo shift :=
      unitsOf_run le_rfl (Or.inl (by omega))
    have hle : 2 * runLength * twoTo shift ≤ unitsOf code :=
      hend ▸ unitsOf_strictMono.monotone habove
    have hsum : 2 * (2 * runLength * twoTo shift) ≤ unitsOf code + unitsOf (code + 1) := by
      omega
    have hmul := Nat.mul_le_mul_right den hsum
    refine iff_of_false ?_ ?_
    · have := nearest_le hstep hupper.le
      omega
    · rintro (hlt | ⟨heq, -⟩) <;> linarith
  · -- in the run of the quotient, codes are whole numbers of steps
    obtain ⟨k, rfl⟩ : ∃ k, code = shift * runLength + k := by
      refine Nat.exists_eq_add_of_le ?_
      by_cases hzero : shift = 0
      · simp [hzero]
      · omega
    have hk : k < 2 * runLength := by omega
    have hrun : runLength ≤ k ∨ shift = 0 := by omega
    have hparity : (shift * runLength + k) % 2 = k % 2 := by
      rw [Nat.add_mod, Nat.mul_mod, runLength_even, Nat.mul_zero, Nat.zero_mod, Nat.zero_add,
        Nat.mod_mod]
    have hsum : (unitsOf (shift * runLength + k) + unitsOf (shift * runLength + k + 1)) * den =
        (2 * k + 1) * (den * twoTo shift) := by
      rw [Nat.add_assoc, unitsOf_run hk.le hrun,
        unitsOf_run (k := k + 1) hk (hrun.imp_left Nat.le_succ_of_le)]
      ring
    rw [Nat.add_lt_add_iff_left, hparity, hsum]
    exact lt_nearest_iff hstep k

/-- Rounding keeps the order of quotients. -/
theorem nearestCode_mono {num den num' den' : Nat} (hden : 0 < den) (hden' : 0 < den')
    (h : num * den' ≤ num' * den) : nearestCode num den ≤ nearestCode num' den' := by
  refine Nat.le_of_not_lt fun hlt ↦ ?_
  have hbeyond := (lt_nearestCode_iff hden _).mp hlt
  refine absurd ((lt_nearestCode_iff hden' _).mpr ?_) (Nat.lt_irrefl (nearestCode num' den'))
  generalize unitsOf (nearestCode num' den') + unitsOf (nearestCode num' den' + 1) = middle at *
  -- the second quotient is beyond the midpoint as well, or both are at it
  rcases hbeyond with hbeyond | ⟨hat, hodd⟩
  · have hscaled := Nat.mul_lt_mul_of_pos_right hbeyond hden'
    refine Or.inl (Nat.lt_of_mul_lt_mul_right (a := den) ?_)
    linarith
  · have hle : middle * den' ≤ 2 * num' := by
      refine Nat.le_of_mul_le_mul_right (c := den) ?_ hden
      have hscaled := congrArg (· * den') hat
      linarith
    exact (Nat.lt_or_eq_of_le hle).imp_right fun heq ↦ ⟨heq, hodd⟩

/-- What is a magnitude already is rounded to itself. -/
theorem nearestCode_unitsOf (code : Nat) {den : Nat} (hden : 0 < den) :
    nearestCode (unitsOf code * den) den = code := by
  have hbeyond (other : Nat) : other < nearestCode (unitsOf code * den) den ↔ other < code := by
    rw [lt_nearestCode_iff hden]
    have hnext : unitsOf other < unitsOf (other + 1) :=
      unitsOf_strictMono (Nat.lt_succ_self other)
    rcases Nat.lt_or_ge other code with hlt | hge
    · refine iff_of_true (Or.inl ?_) hlt
      have hle : unitsOf (other + 1) ≤ unitsOf code :=
        unitsOf_strictMono.monotone (Nat.succ_le_of_lt hlt)
      have hsum : unitsOf other + unitsOf (other + 1) < 2 * unitsOf code := by omega
      have := Nat.mul_lt_mul_of_pos_right hsum hden
      linarith
    · have hle : unitsOf code ≤ unitsOf other := unitsOf_strictMono.monotone hge
      have hsum : 2 * unitsOf code < unitsOf other + unitsOf (other + 1) := by omega
      have := Nat.mul_lt_mul_of_pos_right hsum hden
      refine iff_of_false ?_ (Nat.not_lt_of_ge hge)
      rintro (hlt | ⟨heq, -⟩) <;> linarith
  exact Nat.le_antisymm (Nat.le_of_not_lt fun h ↦ Nat.lt_irrefl _ ((hbeyond _).mp h))
    (Nat.le_of_not_lt fun h ↦ Nat.lt_irrefl _ ((hbeyond _).mpr h))

end LiveMarkup.Number
