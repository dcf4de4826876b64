import Mathlib.Algebra.Order.Ring.Abs
import TileScript.Proofs.Number.Rounding

/-!
# Rounding gives the nearest value

A fraction of units is rounded to a magnitude that no other magnitude is closer to. So rounding
never passes a magnitude: what lies below one is rounded to it or below. The magnitudes are the
numbers of at most 53 significant bits, which is why a remainder of two of them needs no rounding,
and why an integer is kept by floating point exactly if it has no more.

## Main definitions

* `FitsSignificand`: integers of at most 53 significant bits.
* `roundToSignificand`: the integer that floating point keeps in place of an integer.

## Main statements

* `Binary64.roundToCode_nearest`: no magnitude is closer to a fraction than the rounded one.
* `Binary64.roundToCode_le`, `Binary64.le_roundToCode`: rounding does not pass a magnitude.
* `Binary64.exists_code_mod`: the remainder of two magnitudes is a magnitude.
* `roundToSignificand_nearest`, `roundToSignificand_eq_self_iff`: what rounding an integer does.
-/

namespace TileScript

/-- No natural number is closer to a fraction than the rounded one. -/
theorem roundHalfEven_nearest {den : ℕ} (hden : 0 < den) (num other : ℕ) :
    |(roundHalfEven num den * den : ℤ) - num| ≤ |(other * den : ℤ) - num| := by
  obtain ⟨hlow, hhigh⟩ := roundHalfEven_within hden num
  generalize roundHalfEven num den = k at *
  have hk : 2 * |(k * den : ℤ) - num| ≤ den := by
    rcases abs_cases ((k * den : ℤ) - num) with ⟨habs, -⟩ | ⟨habs, -⟩ <;> rw [habs] <;> nlinarith
  rcases Nat.lt_trichotomy k other with hlt | rfl | hgt
  · have hstep : (k + 1) * den ≤ other * den := Nat.mul_le_mul_right den hlt
    have hfar := le_abs_self ((other * den : ℤ) - num)
    nlinarith
  · exact le_rfl
  · have hstep : (other + 1) * den ≤ k * den := Nat.mul_le_mul_right den hgt
    have hfar := neg_abs_le ((other * den : ℤ) - num)
    nlinarith

namespace Binary64

/-! ## Codes as numbers of steps -/

theorem blockSize_pos : 0 < blockSize := by decide

/-- Every code counts steps of the length of its block: fewer than two blocks of them, and at least
one block unless the steps are single units. -/
theorem exists_steps (code : ℕ) : ∃ shift k, code = shift * blockSize + k ∧ k < 2 * blockSize ∧
    (shift = 0 ∨ blockSize ≤ k) := by
  by_cases hcode : code < blockSize
  · exact ⟨0, code, by omega, by omega, .inl rfl⟩
  · have hblocks : 1 ≤ code / blockSize := (Nat.one_le_div_iff blockSize_pos).mpr (by omega)
    have hrest := Nat.mod_lt code blockSize_pos
    have hsplit := Nat.div_add_mod' code blockSize
    refine ⟨code / blockSize - 1, blockSize + code % blockSize, ?_, by omega,
      .inr (Nat.le_add_right _ _)⟩
    rw [Nat.sub_mul, Nat.one_mul]
    have hle : blockSize ≤ code / blockSize * blockSize := Nat.le_mul_of_pos_left _ hblocks
    omega

/-- The units of a number of steps. Two blocks of steps are one block of steps twice as long. -/
theorem unitsOfCode_steps {shift k : ℕ} (hlow : shift = 0 ∨ blockSize ≤ k)
    (hhigh : k ≤ 2 * blockSize) : unitsOfCode (shift * blockSize + k) = k * 2 ^ shift := by
  by_cases hk : k < blockSize
  · obtain rfl : shift = 0 := by omega
    simp [unitsOfCode, hk]
  obtain ⟨m, rfl⟩ : ∃ m, k = blockSize + m := ⟨k - blockSize, by omega⟩
  have hcode : shift * blockSize + (blockSize + m) = m + (shift + 1) * blockSize := by ring
  have hnot : ¬m + (shift + 1) * blockSize < blockSize := by
    rw [Nat.succ_mul]
    omega
  rw [hcode, unitsOfCode, if_neg hnot, Nat.add_mul_mod_self_right,
    Nat.add_mul_div_right _ _ blockSize_pos, Nat.pow_eq]
  rcases Nat.lt_or_eq_of_le (show m ≤ blockSize by omega) with hm | rfl
  · rw [Nat.mod_eq_of_lt hm, Nat.div_eq_of_lt hm, Nat.zero_add, Nat.add_sub_cancel]
  · rw [Nat.mod_self, Nat.div_self blockSize_pos, Nat.add_zero,
      show 1 + (shift + 1) - 1 = shift + 1 by omega, Nat.pow_succ]
    ring

/-- From one magnitude to the next it is one step. Beyond the first block a magnitude has at least
a block of such steps. -/
theorem exists_unitsOfCode_succ (code : ℕ) :
    ∃ e, unitsOfCode (code + 1) = unitsOfCode code + 2 ^ e ∧
      (blockSize ≤ code → blockSize * 2 ^ e ≤ unitsOfCode code) := by
  obtain ⟨shift, k, rfl, hhigh, hlow⟩ := exists_steps code
  refine ⟨shift, ?_, fun hcode => ?_⟩
  · rw [Nat.add_assoc, unitsOfCode_steps (k := k + 1) (by omega) (by omega),
      unitsOfCode_steps hlow (by omega), Nat.succ_mul]
  · rw [unitsOfCode_steps hlow (by omega)]
    refine Nat.mul_le_mul_right _ ?_
    rcases hlow with rfl | hlow
    · omega
    · exact hlow

theorem unitsOfCode_strictMono : StrictMono unitsOfCode := by
  refine strictMono_nat_of_lt_succ fun code => ?_
  obtain ⟨e, he, -⟩ := exists_unitsOfCode_succ code
  have hpow := Nat.two_pow_pos e
  omega

/-- A number of at most 53 bits times a power of two is a magnitude. -/
theorem exists_code {k : ℕ} (hk : k ≤ 2 * blockSize) (e : ℕ) :
    ∃ code, unitsOfCode code = k * 2 ^ e := by
  induction e generalizing k with
  | zero => exact ⟨_, unitsOfCode_steps (.inl rfl) hk⟩
  | succ e ih =>
    rcases Nat.lt_or_ge k blockSize with hsmall | hlarge
    · -- A short number takes up the doubling of the step.
      obtain ⟨code, hcode⟩ := ih (k := 2 * k) (by omega)
      exact ⟨code, by rw [hcode, Nat.pow_succ]; ring⟩
    · exact ⟨_, unitsOfCode_steps (.inr hlarge) hk⟩

/-- **The remainder of two magnitudes is a magnitude.** -/
theorem exists_code_mod (a : ℕ) {b : ℕ} (hb : b ≠ 0) :
    ∃ code ≤ a, unitsOfCode code = unitsOfCode a % unitsOfCode b := by
  suffices h : ∃ code, unitsOfCode code = unitsOfCode a % unitsOfCode b by
    obtain ⟨code, hcode⟩ := h
    exact ⟨code, unitsOfCode_strictMono.le_iff_le.mp (hcode ▸ Nat.mod_le _ _), hcode⟩
  rcases Nat.lt_or_ge a b with hlt | hge
  · exact ⟨a, (Nat.mod_eq_of_lt (unitsOfCode_strictMono hlt)).symm⟩
  · obtain ⟨f, j, rfl, hj, hf⟩ := exists_steps b
    obtain ⟨e, k, rfl, hk, he⟩ := exists_steps a
    -- The larger magnitude counts steps that are no shorter.
    have hfe : f ≤ e := by
      by_contra hlt
      have : (e + 1) * blockSize ≤ f * blockSize := Nat.mul_le_mul_right _ (by omega)
      rw [Nat.succ_mul] at this
      omega
    obtain ⟨d, rfl⟩ := Nat.exists_eq_add_of_le hfe
    rw [unitsOfCode_steps he (by omega), unitsOfCode_steps hf (by omega), Nat.pow_add,
      show k * (2 ^ f * 2 ^ d) = k * 2 ^ d * 2 ^ f by ring, Nat.mul_mod_mul_right]
    have hpos : 0 < j := by
      rcases hf with rfl | hf
      · omega
      · exact blockSize_pos.trans_le hf
    exact exists_code ((Nat.mod_lt _ hpos).le.trans hj.le) f

/-! ## Rounding to codes -/

/-- A fraction is rounded to at most two blocks of steps, and beyond single units it has at least a
block of them itself. -/
theorem rounded_steps {den : ℕ} (hden : 0 < den) (num : ℕ) {shift : ℕ}
    (hshift : shift = (num / den).log2 - 52) :
    roundHalfEven num (den * 2 ^ shift) ≤ 2 * blockSize ∧
      (shift = 0 ∨ blockSize * (den * 2 ^ shift) ≤ num ∧
        blockSize ≤ roundHalfEven num (den * 2 ^ shift)) := by
  have hblock : blockSize = 2 ^ 52 := rfl
  have hstep : 0 < den * 2 ^ shift := Nat.mul_pos hden (Nat.two_pow_pos shift)
  have hbelow : num < 2 * blockSize * (den * 2 ^ shift) := by
    have hquotient : num / den < 2 ^ (53 + shift) :=
      lt_of_lt_of_le Nat.lt_log2_self (Nat.pow_le_pow_right (by decide) (by omega))
    rw [Nat.div_lt_iff_lt_mul hden, Nat.pow_add] at hquotient
    rw [hblock]
    linarith
  refine ⟨Nat.le_of_lt_succ (roundHalfEven_lt (by nlinarith)), ?_⟩
  rcases Nat.eq_zero_or_pos shift with hzero | hpos
  · exact .inl hzero
  · have habove : blockSize * (den * 2 ^ shift) ≤ num := by
      have hne : num / den ≠ 0 := by
        intro hzero
        rw [hzero, Nat.log2_zero] at hshift
        omega
      have hquotient : 2 ^ (52 + shift) ≤ num / den := by
        rw [show 52 + shift = (num / den).log2 by omega]
        exact Nat.log2_self_le hne
      rw [Nat.le_div_iff_mul_le hden, Nat.pow_add] at hquotient
      rw [hblock]
      linarith
    exact .inr ⟨habove, le_roundHalfEven hstep rfl (by nlinarith)⟩

/-- The units of the rounded code are the rounded number of steps. -/
theorem unitsOfCode_roundToCode {den : ℕ} (hden : 0 < den) (num : ℕ) {shift : ℕ}
    (hshift : shift = (num / den).log2 - 52) :
    unitsOfCode (roundToCode num den) = roundHalfEven num (den * 2 ^ shift) * 2 ^ shift := by
  obtain ⟨hhigh, hlow⟩ := rounded_steps hden num hshift
  simp only [roundToCode, ← hshift, Nat.pow_eq]
  exact unitsOfCode_steps (hlow.imp_right And.right) hhigh

/-- **No magnitude is closer to a fraction than the rounded one.** -/
theorem roundToCode_nearest {den : ℕ} (hden : 0 < den) (num code : ℕ) :
    |(unitsOfCode (roundToCode num den) * den : ℤ) - num|
      ≤ |(unitsOfCode code * den : ℤ) - num| := by
  obtain ⟨shift, hshift⟩ : ∃ shift, shift = (num / den).log2 - 52 := ⟨_, rfl⟩
  have hstep : 0 < den * 2 ^ shift := Nat.mul_pos hden (Nat.two_pow_pos shift)
  have hnearest := roundHalfEven_nearest hstep num
  have hrounded : (unitsOfCode (roundToCode num den) * den : ℤ)
      = roundHalfEven num (den * 2 ^ shift) * (den * 2 ^ shift : ℕ) := by
    rw [unitsOfCode_roundToCode hden num hshift]
    push_cast
    ring
  rw [hrounded]
  obtain ⟨e, k, rfl, hk, he⟩ := exists_steps code
  rw [unitsOfCode_steps he hk.le]
  rcases Nat.lt_or_ge e shift with hlt | hge
  · -- The magnitude lies below the block of the fraction, whose first magnitude is closer.
    have hfirst := (rounded_steps hden num hshift).2.resolve_left (by omega)
    have hbelow : k * 2 ^ e * den ≤ blockSize * (den * 2 ^ shift) := by
      obtain ⟨d, rfl⟩ := Nat.exists_eq_add_of_lt hlt
      calc k * 2 ^ e * den ≤ 2 * blockSize * 2 ^ e * den :=
            Nat.mul_le_mul_right _ (Nat.mul_le_mul_right _ hk.le)
        _ = blockSize * (den * 2 ^ (e + 1)) := by rw [Nat.pow_succ]; ring
        _ ≤ blockSize * (den * 2 ^ (e + d + 1)) :=
            Nat.mul_le_mul_left _ (Nat.mul_le_mul_left _
              (Nat.pow_le_pow_right (by decide) (by omega)))
    refine (hnearest blockSize).trans ?_
    zify at hbelow hfirst
    rw [abs_of_nonpos (by push_cast; linarith), abs_of_nonpos (by push_cast; linarith)]
    push_cast
    linarith
  · obtain ⟨d, rfl⟩ := Nat.exists_eq_add_of_le hge
    have hmultiple : ((k * 2 ^ (shift + d) : ℕ) * den : ℤ)
        = (k * 2 ^ d : ℕ) * (den * 2 ^ shift : ℕ) := by
      push_cast
      rw [pow_add]
      ring
    rw [hmultiple]
    exact hnearest (k * 2 ^ d)

/-- Rounding does not rise above a magnitude. -/
theorem roundToCode_le {num den code : ℕ} (hden : 0 < den) (h : num ≤ unitsOfCode code * den) :
    roundToCode num den ≤ code := by
  by_contra hlt
  have hunits := unitsOfCode_strictMono (Nat.lt_of_not_le hlt)
  have hfar : unitsOfCode code * den < unitsOfCode (roundToCode num den) * den :=
    Nat.mul_lt_mul_of_pos_right hunits hden
  have hnearest := roundToCode_nearest hden num code
  zify at h hfar
  rw [abs_of_nonneg (by linarith), abs_of_nonneg (by linarith)] at hnearest
  linarith

/-- Rounding does not fall below a magnitude. -/
theorem le_roundToCode {num den code : ℕ} (hden : 0 < den) (h : unitsOfCode code * den ≤ num) :
    code ≤ roundToCode num den := by
  by_contra hlt
  have hunits := unitsOfCode_strictMono (Nat.lt_of_not_le hlt)
  have hfar : unitsOfCode (roundToCode num den) * den < unitsOfCode code * den :=
    Nat.mul_lt_mul_of_pos_right hunits hden
  have hnearest := roundToCode_nearest hden num code
  zify at h hfar
  rw [abs_of_nonpos (by linarith), abs_of_nonpos (by linarith)] at hnearest
  linarith

/-- A magnitude below one lacks at least half of the step below one. -/
theorem unitsOfCode_lt_unitsPerOne {code : ℕ} (h : unitsOfCode code < unitsPerOne) :
    unitsOfCode code * (2 * blockSize) + unitsPerOne ≤ 2 * blockSize * unitsPerOne := by
  obtain ⟨u, hu⟩ : ∃ u, u = 1021 := ⟨_, rfl⟩
  have hone : unitsPerOne = 2 * blockSize * 2 ^ u := by
    rw [unitsPerOne_eq_two_pow (show 53 + u = 1074 by omega), Nat.pow_add]
    rfl
  obtain ⟨shift, k, rfl, hk, hshift⟩ := exists_steps code
  rw [unitsOfCode_steps hshift hk.le] at h ⊢
  rcases Nat.lt_or_ge u shift with hlt | hge
  · obtain ⟨d, rfl⟩ := Nat.exists_eq_add_of_lt hlt
    have hlarge : blockSize * 2 ^ (u + 1) ≤ k * 2 ^ (u + d + 1) :=
      Nat.mul_le_mul (hshift.resolve_left (by omega))
        (Nat.pow_le_pow_right (by decide) (by omega))
    rw [Nat.pow_succ] at hlarge
    rw [hone] at h
    linarith
  · have hsteps : k * 2 ^ shift ≤ k * 2 ^ u :=
      Nat.mul_le_mul_left k (Nat.pow_le_pow_right (by decide) hge)
    have hlast : (k + 1) * 2 ^ u ≤ 2 * blockSize * 2 ^ u := Nat.mul_le_mul_right _ hk
    have hsum : k * 2 ^ shift + 2 ^ u ≤ unitsPerOne := by
      rw [Nat.succ_mul] at hlast
      omega
    calc k * 2 ^ shift * (2 * blockSize) + unitsPerOne
        = 2 * blockSize * (k * 2 ^ shift + 2 ^ u) := by rw [hone]; ring
      _ ≤ 2 * blockSize * unitsPerOne := Nat.mul_le_mul_left _ hsum

/-- **A product with a magnitude below one is rounded to less.** Below the other factor there is a
magnitude that is closer, unless its steps are single units. -/
theorem roundToCode_mul_lt {c d : ℕ} (hc : unitsOfCode c < unitsPerOne) (hd : blockSize < d) :
    roundToCode (unitsOfCode c * unitsOfCode d) unitsPerOne < d := by
  by_contra hge
  obtain ⟨e, rfl⟩ : ∃ e, d = e + 1 := ⟨d - 1, by omega⟩
  obtain ⟨step, hsucc, hstep⟩ := exists_unitsOfCode_succ e
  have hstep := hstep (by omega)
  have hrounded : unitsOfCode (e + 1) ≤
      unitsOfCode (roundToCode (unitsOfCode c * unitsOfCode (e + 1)) unitsPerOne) :=
    unitsOfCode_strictMono.monotone (Nat.le_of_not_lt hge)
  have hbelow : unitsOfCode e * unitsPerOne < unitsOfCode c * unitsOfCode (e + 1) := by
    by_contra hle
    exact hge (Nat.lt_succ_of_le (roundToCode_le unitsPerOne_pos (Nat.le_of_not_lt hle)))
  have hnearest := roundToCode_nearest unitsPerOne_pos (unitsOfCode c * unitsOfCode (e + 1)) e
  have hlack := Nat.mul_le_mul_left (unitsOfCode (e + 1)) (unitsOfCode_lt_unitsPerOne hc)
  have hpow := Nat.two_pow_pos step
  generalize unitsOfCode (roundToCode (unitsOfCode c * unitsOfCode (e + 1)) unitsPerOne) = rounded
    at *
  generalize unitsOfCode (e + 1) = upper at *
  generalize unitsOfCode e = lower at *
  generalize unitsOfCode c = factor at *
  -- The rounded product is no closer to the product than the magnitude below.
  have hmiddle : (upper + lower) * unitsPerOne ≤ 2 * (factor * upper) := by
    have hproduct : factor * upper < unitsPerOne * upper :=
      Nat.mul_lt_mul_of_pos_right hc (by omega)
    have hmul : upper * unitsPerOne ≤ rounded * unitsPerOne := Nat.mul_le_mul_right _ hrounded
    zify at *
    rw [abs_of_nonneg (by linarith), abs_of_nonpos (by linarith)] at hnearest
    linarith
  have hsum : unitsPerOne * (blockSize * (upper + lower) + upper)
      ≤ unitsPerOne * (2 * blockSize * upper) := by
    have hmul := Nat.mul_le_mul_left blockSize hmiddle
    linarith
  have hsum := Nat.le_of_mul_le_mul_left hsum unitsPerOne_pos
  rw [hsucc] at hsum
  linarith

/-- **A magnitude below one times a whole number, once that is rounded, stays below the number.** -/
theorem unitsOfCode_roundToCode_mul_lt {c n : ℕ} (hc : unitsOfCode c < unitsPerOne)
    (hn : unitsPerOne ≤ n) :
    unitsOfCode (roundToCode (unitsOfCode c * unitsOfCode (roundToCode n 1)) unitsPerOne) < n := by
  obtain ⟨u, hu⟩ : ∃ u, u = 1074 := ⟨_, rfl⟩
  have hone := unitsPerOne_eq_two_pow hu
  obtain ⟨one, hcode⟩ := exists_code (show 1 ≤ 2 * blockSize by decide) u
  rw [Nat.one_mul, ← hone] at hcode
  have hblock : blockSize < roundToCode n 1 := by
    have hfirst : unitsOfCode blockSize < unitsOfCode one := by
      rw [hcode, hone]
      exact Nat.pow_lt_pow_right (show 1 < 2 by decide) (show 52 < u by omega)
    have hround : one ≤ roundToCode n 1 := by
      refine le_roundToCode Nat.one_pos ?_
      rw [hcode, Nat.mul_one]
      exact hn
    exact (unitsOfCode_strictMono.lt_iff_lt.mp hfirst).trans_le hround
  have hlt := roundToCode_mul_lt hc hblock
  generalize roundToCode (unitsOfCode c * unitsOfCode (roundToCode n 1)) unitsPerOne = code at *
  by_contra hge
  have hle : roundToCode n 1 ≤ code := by
    refine roundToCode_le Nat.one_pos ?_
    rw [Nat.mul_one]
    exact Nat.le_of_not_lt hge
  exact hle.not_gt hlt

theorem log2_mul_two_pow {n : ℕ} (hn : n ≠ 0) (u : ℕ) : (n * 2 ^ u).log2 = n.log2 + u := by
  have hpow := Nat.two_pow_pos u
  rw [Nat.log2_eq_iff (Nat.mul_ne_zero hn hpow.ne'), Nat.add_right_comm, Nat.pow_add, Nat.pow_add]
  exact ⟨Nat.mul_le_mul_right _ (Nat.log2_self_le hn),
    Nat.mul_lt_mul_of_pos_right Nat.lt_log2_self hpow⟩

/-- Scaling by a power of two commutes with rounding, as long as the number is whole. -/
theorem unitsOfCode_roundToCode_mul_two_pow (n u : ℕ) :
    unitsOfCode (roundToCode (n * 2 ^ u) 1) = unitsOfCode (roundToCode n 1) * 2 ^ u := by
  rcases Nat.lt_or_ge n (2 * blockSize) with hsmall | hlarge
  · -- A number of at most 53 bits needs no rounding, before or after.
    obtain ⟨code, hcode⟩ := exists_code hsmall.le 0
    obtain ⟨scaled, hscaled⟩ := exists_code hsmall.le u
    rw [pow_zero, Nat.mul_one] at hcode
    rw [← hscaled, roundToCode_unitsOfCode, hscaled, ← hcode, roundToCode_unitsOfCode]
  · have hblock : blockSize = 2 ^ 52 := rfl
    have hne : n ≠ 0 := by
      have := blockSize_pos
      omega
    have hlog : 52 ≤ n.log2 := (Nat.le_log2 hne).mpr (by omega)
    have hscaled : (n * 2 ^ u).log2 = n.log2 + u := log2_mul_two_pow hne u
    have hshift : n.log2 - 52 + u = (n * 2 ^ u / 1).log2 - 52 := by
      rw [Nat.div_one, hscaled]
      omega
    have hround : roundHalfEven (n * 2 ^ u) (1 * 2 ^ (n.log2 - 52 + u))
        = roundHalfEven n (1 * 2 ^ (n.log2 - 52)) := by
      rw [Nat.pow_add, ← Nat.mul_assoc, Nat.mul_comm n, Nat.mul_comm (1 * _)]
      exact roundHalfEven_mul_left (Nat.two_pow_pos u) _ _
    rw [unitsOfCode_roundToCode Nat.one_pos _ hshift, hround,
      unitsOfCode_roundToCode Nat.one_pos n (by rw [Nat.div_one]), Nat.pow_add]
    ring

end Binary64

/-! ## Integers in floating point -/

/-- An integer of at most 53 significant bits. -/
def FitsSignificand (n : ℤ) : Prop := ∃ (m : ℤ) (e : ℕ), m.natAbs ≤ 2 ^ 53 ∧ n = m * 2 ^ e

/-- The integer of at most 53 significant bits that is nearest to an integer; of two, the one with
an even significand. -/
def roundToSignificand (n : ℤ) : ℤ :=
  let step := 2 ^ (n.natAbs.log2 - 52)
  n.sign * (roundHalfEven n.natAbs step * step : ℕ)

open Binary64 in
/-- The integers of at most 53 significant bits are the magnitudes with a sign. -/
theorem fitsSignificand_iff {n : ℤ} : FitsSignificand n ↔ ∃ code, unitsOfCode code = n.natAbs := by
  constructor
  · rintro ⟨m, e, hm, rfl⟩
    obtain ⟨code, hcode⟩ := exists_code (show m.natAbs ≤ 2 * blockSize from hm) e
    exact ⟨code, by rw [hcode, Int.natAbs_mul, Int.natAbs_pow]; rfl⟩
  · rintro ⟨code, hcode⟩
    obtain ⟨shift, k, rfl, hhigh, hlow⟩ := exists_steps code
    rw [unitsOfCode_steps hlow hhigh.le] at hcode
    have hk : (k : ℤ).natAbs ≤ 2 ^ 53 := by
      have hblock : 2 * blockSize = 2 ^ 53 := rfl
      omega
    rcases Int.natAbs_eq n with hn | hn
    · exact ⟨k, shift, hk, by rw [hn, ← hcode]; push_cast; ring⟩
    · exact ⟨-k, shift, by rwa [Int.natAbs_neg], by rw [hn, ← hcode]; push_cast; ring⟩

open Binary64 in
/-- Rounding an integer is rounding its magnitude. -/
theorem roundToSignificand_eq (n : ℤ) :
    roundToSignificand n = n.sign * unitsOfCode (roundToCode n.natAbs 1) := by
  rw [roundToSignificand, unitsOfCode_roundToCode Nat.one_pos n.natAbs (by rw [Nat.div_one]),
    Nat.one_mul]

open Binary64 in
theorem natAbs_roundToSignificand (n : ℤ) :
    (roundToSignificand n).natAbs = unitsOfCode (roundToCode n.natAbs 1) := by
  rw [roundToSignificand_eq, Int.natAbs_mul, Int.natAbs_natCast]
  by_cases hzero : n = 0
  · subst hzero
    decide
  · rw [Int.natAbs_sign_of_ne_zero hzero, Nat.one_mul]

theorem fitsSignificand_roundToSignificand (n : ℤ) : FitsSignificand (roundToSignificand n) :=
  fitsSignificand_iff.mpr ⟨_, (natAbs_roundToSignificand n).symm⟩

open Binary64 in
/-- **No integer of at most 53 significant bits is closer than the rounded one.** -/
theorem roundToSignificand_nearest (n : ℤ) {m : ℤ} (hm : FitsSignificand m) :
    |roundToSignificand n - n| ≤ |m - n| := by
  obtain ⟨code, hcode⟩ := fitsSignificand_iff.mp hm
  by_cases hzero : n = 0
  · subst hzero
    exact (abs_nonneg (m - 0)).trans_eq' (by decide)
  have hsigned : roundToSignificand n - n
      = n.sign * (unitsOfCode (roundToCode n.natAbs 1) - n.natAbs : ℤ) := by
    rw [roundToSignificand_eq, Int.mul_sub, Int.sign_mul_natAbs]
  have hnearest := roundToCode_nearest Nat.one_pos n.natAbs code
  simp only [Nat.cast_one, mul_one, hcode] at hnearest
  calc |roundToSignificand n - n|
      = |(unitsOfCode (roundToCode n.natAbs 1) : ℤ) - n.natAbs| := by
        rw [hsigned, abs_mul, Int.abs_sign_of_ne_zero hzero, one_mul]
    _ ≤ |(m.natAbs : ℤ) - n.natAbs| := hnearest
    _ ≤ |m - n| := by
        rw [Int.natCast_natAbs, Int.natCast_natAbs]
        exact abs_abs_sub_abs_le m n

/-- Rounding keeps the order. -/
theorem roundToSignificand_mono {m n : ℤ} (h : m ≤ n) :
    roundToSignificand m ≤ roundToSignificand n := by
  by_contra hlt
  have hm := roundToSignificand_nearest m (fitsSignificand_roundToSignificand n)
  have hn := roundToSignificand_nearest n (fitsSignificand_roundToSignificand m)
  -- The rounded values were in the wrong order, and each integer closer to its own.
  have hne : m ≠ n := by
    rintro rfl
    exact hlt le_rfl
  simp only [Int.abs_eq_natAbs] at hm hn
  omega

/-- **Floating point keeps exactly the integers of at most 53 significant bits.** -/
theorem roundToSignificand_eq_self_iff {n : ℤ} : roundToSignificand n = n ↔ FitsSignificand n := by
  constructor
  · intro h
    exact h ▸ fitsSignificand_roundToSignificand n
  · intro h
    have hnearest := roundToSignificand_nearest n h
    rw [sub_self, abs_zero] at hnearest
    exact sub_eq_zero.mp (abs_eq_zero.mp (le_antisymm hnearest (abs_nonneg _)))

/-- Rounding keeps the sign; that of zero does not matter. -/
theorem signed_natAbs_roundToSignificand {negative : Bool} {n : ℤ}
    (h : n ≠ 0 → (negative = true ↔ n < 0)) :
    (if negative then -((roundToSignificand n).natAbs : ℤ) else (roundToSignificand n).natAbs)
      = roundToSignificand n := by
  rw [natAbs_roundToSignificand, roundToSignificand_eq]
  rcases Int.lt_trichotomy n 0 with hneg | rfl | hpos
  · rw [if_pos ((h hneg.ne).mpr hneg), Int.sign_eq_neg_one_of_neg hneg, neg_one_mul]
  · cases negative <;> decide
  · rw [if_neg (fun hn => hpos.not_gt ((h hpos.ne').mp hn)), Int.sign_eq_one_of_pos hpos, one_mul]

/-! ## Whole values -/

namespace Binary64

/-- The value nearest to an integer of at most 300 digits is finite. -/
theorem exists_ofRatio_int (negative : Bool) {n : ℤ} (hn : n.natAbs < 10 ^ 300) :
    ∃ code, ofRatio negative (n.natAbs * unitsPerOne) 1 = .finite negative code ∧
      unitsOfCode code = (roundToSignificand n).natAbs * unitsPerOne := by
  obtain ⟨u, hu⟩ : ∃ u, u = 1074 := ⟨_, rfl⟩
  obtain ⟨f, hf⟩ : ∃ f, f = 2045 := ⟨_, rfl⟩
  have hten : 10 ^ 300 ≤ 2 ^ (f + 29 - u) := by
    calc 10 ^ 300 = (10 ^ 3) ^ 100 := by rw [← Nat.pow_mul]
      _ ≤ (2 ^ 10) ^ 100 := Nat.pow_le_pow_left (by decide) _
      _ = 2 ^ (f + 29 - u) := by rw [← Nat.pow_mul, show 10 * 100 = f + 29 - u by omega]
  have hunits : n.natAbs * 2 ^ u < 2 ^ f * 2 ^ 29 := by
    calc n.natAbs * 2 ^ u < 2 ^ (f + 29 - u) * 2 ^ u :=
          Nat.mul_lt_mul_of_pos_right (hn.trans_le hten) (Nat.two_pow_pos u)
      _ = 2 ^ f * 2 ^ 29 := by
        rw [← Nat.pow_add, ← Nat.pow_add, Nat.sub_add_cancel (by omega)]
  have hcode : roundToCode (n.natAbs * 2 ^ u) 1 < codeCount :=
    roundToCode_lt_codeCount hf (by omega)
  rw [unitsPerOne_eq_two_pow hu, natAbs_roundToSignificand, ← unitsOfCode_roundToCode_mul_two_pow]
  exact ⟨⟨_, hcode⟩, by rw [ofRatio, dif_pos hcode], rfl⟩

/-- The value nearest to such an integer has its sign. -/
theorem exists_ofInt? {n : ℤ} (hn : n.natAbs < 10 ^ 300) :
    ∃ code, ofInt? n = some (.finite (decide (n < 0)) code) ∧
      unitsOfCode code = (roundToSignificand n).natAbs * unitsPerOne := by
  have hpos : (0 : ℤ) < unitsPerOne := Int.natCast_pos.mpr unitsPerOne_pos
  have hsign : (if n * unitsPerOne = 0 then false else decide (n * unitsPerOne < 0))
      = decide (n < 0) := by
    generalize (unitsPerOne : ℤ) = one at hpos
    by_cases hzero : n = 0
    · simp [hzero]
    · rw [if_neg (Int.mul_ne_zero hzero hpos.ne')]
      simp [mul_neg_iff, not_lt_of_gt hpos, hpos]
  obtain ⟨code, hcode, hunits⟩ := exists_ofRatio_int (decide (n < 0)) hn
  refine ⟨code, ?_, hunits⟩
  rw [ofInt?, ofUnits, hsign, Int.natAbs_mul, Int.natAbs_natCast, hcode]
  rfl

end Binary64

/-- A value that is a whole number of ones becomes that integer. -/
theorem Scalar.normalize_finite {negative : Bool} {code : Fin Binary64.codeCount} {m : ℕ}
    (h : Binary64.unitsOfCode code = m * Binary64.unitsPerOne) :
    (Scalar.float (.finite negative code)).normalize = .int (if negative then -m else m) := by
  have hpos : (Binary64.unitsPerOne : ℤ) ≠ 0 := Int.natCast_ne_zero.mpr Binary64.unitsPerOne_pos.ne'
  have hwhole : (Binary64.finite negative code).isIntegral = true := by
    rw [Binary64.isIntegral, h, Nat.mul_mod_left]
    rfl
  have htruncate : (Binary64.finite negative code).truncate?
      = some (if negative then -(m : ℤ) else m) := by
    simp only [Binary64.truncate?, Binary64.signedUnits, h, Nat.cast_mul]
    generalize (Binary64.unitsPerOne : ℤ) = one at hpos
    cases negative <;> simp [Int.neg_tdiv, Int.mul_tdiv_cancel _ hpos]
  rw [Scalar.normalize, if_pos hwhole, htruncate]
  rfl

end TileScript
