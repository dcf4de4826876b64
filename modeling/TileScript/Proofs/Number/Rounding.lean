import TileScript.Scalar.Arithmetic
import Mathlib.Tactic.Ring
import Mathlib.Tactic.Linarith

/-!
# Rounding to codes

What rounding does to values that need none, and what it depends on. A fraction of units is rounded
by its value alone, so a common factor of its terms makes no difference; the units of a code are
rounded to that code; and fractions far below one unit or beyond all finite magnitudes are rounded
to zero and to infinity.

## Main statements

* `Binary64.roundToCode_mul_left`: rounding depends on the value of the fraction alone.
* `Binary64.roundToCode_unitsOfCode`: the units of a code are rounded to the code.
* `Binary64.unitsOfCode_injective`: codes are told apart by their units.
* `Binary64.ofInt?_of_isIntegral`: a whole floating point value is found again from its integer.
* `Binary64.isSome_ofInt?_iff`: the integers that have a nearest finite value.
-/

namespace TileScript

/-! ## Rounding a fraction to a natural number -/

theorem roundHalfEven_mul_left {k : ℕ} (hk : 0 < k) (num den : ℕ) :
    roundHalfEven (k * num) (k * den) = roundHalfEven num den := by
  have hbelow : 2 * (k * (num % den)) < k * den ↔ 2 * (num % den) < den := by
    rw [Nat.mul_left_comm]
    exact Nat.mul_lt_mul_left hk
  have habove : k * den < 2 * (k * (num % den)) ↔ den < 2 * (num % den) := by
    rw [Nat.mul_left_comm]
    exact Nat.mul_lt_mul_left hk
  simp only [roundHalfEven, Nat.mul_div_mul_left _ _ hk, Nat.mul_mod_mul_left, hbelow, habove]

/-- A whole number is not changed. -/
theorem roundHalfEven_mul_right_self (n : ℕ) {den : ℕ} (hden : 0 < den) :
    roundHalfEven (n * den) den = n := by
  simp [roundHalfEven, Nat.mul_div_cancel _ hden, hden]

/-- Less than a half is nothing. -/
theorem roundHalfEven_eq_zero {num den : ℕ} (h : 2 * num < den) : roundHalfEven num den = 0 := by
  have hlt : num < den := by omega
  simp [roundHalfEven, Nat.div_eq_of_lt hlt, Nat.mod_eq_of_lt hlt, h]

/-- Rounding moves a fraction by at most a half. -/
theorem roundHalfEven_within {den : ℕ} (hden : 0 < den) (num : ℕ) :
    2 * roundHalfEven num den * den ≤ 2 * num + den ∧
      2 * num ≤ 2 * roundHalfEven num den * den + den := by
  have hnum := Nat.div_add_mod num den
  have hrest := Nat.mod_lt num hden
  simp only [roundHalfEven]
  generalize num / den = quotient at *
  generalize num % den = rest at *
  subst hnum
  split
  · constructor <;> nlinarith
  split
  · constructor <;> nlinarith
  · rcases Nat.mod_two_eq_zero_or_one quotient with heven | hodd
    · rw [heven]
      constructor <;> nlinarith
    · rw [hodd]
      constructor <;> nlinarith

/-- Of two numbers that are equally close the even one is taken. -/
theorem roundHalfEven_mod_two {den : ℕ} (hden : 0 < den) (num : ℕ)
    (h : 2 * roundHalfEven num den * den = 2 * num + den ∨
      2 * num = 2 * roundHalfEven num den * den + den) : roundHalfEven num den % 2 = 0 := by
  have hnum := Nat.div_add_mod num den
  have hrest := Nat.mod_lt num hden
  simp only [roundHalfEven] at h ⊢
  generalize num / den = quotient at *
  generalize num % den = rest at *
  subst hnum
  split at h
  · rcases h with h | h <;> nlinarith
  split at h
  · rcases h with h | h <;> nlinarith
  · rw [if_neg ‹_›, if_neg ‹_›]
    omega

/-- A fraction below a number by more than a half is rounded to less than the number. -/
theorem roundHalfEven_lt {num den bound : ℕ} (h : 2 * num + den < 2 * bound * den) :
    roundHalfEven num den < bound := by
  have hden : 0 < den := by
    rcases Nat.eq_zero_or_pos den with rfl | hpos
    · simp at h
    · exact hpos
  have hwithin := (roundHalfEven_within hden num).1
  by_contra hle
  have hbound : bound * den ≤ roundHalfEven num den * den := Nat.mul_le_mul_right den (by omega)
  nlinarith

/-- A fraction that is below an even number by at most a half is rounded to at least the number. -/
theorem le_roundHalfEven {num den bound : ℕ} (hden : 0 < den) (heven : bound % 2 = 0)
    (h : 2 * bound * den ≤ 2 * num + den) : bound ≤ roundHalfEven num den := by
  have hwithin := (roundHalfEven_within hden num).2
  have htie := roundHalfEven_mod_two hden num
  generalize roundHalfEven num den = rounded at *
  by_contra hlt
  -- The fraction lies halfway between the rounded number and the bound, which is the next one.
  obtain rfl : bound = rounded + 1 := by
    by_contra hne
    have hbound : (rounded + 2) * den ≤ bound * den := Nat.mul_le_mul_right den (by omega)
    nlinarith
  have hrounded := htie (.inr (by nlinarith))
  omega

namespace Binary64

-- The exponent is kept apart from its value, so that nothing computes the power.
theorem unitsPerOne_eq_two_pow {e : ℕ} (he : e = 1074) : unitsPerOne = 2 ^ e := by
  unfold unitsPerOne
  rw [← he, Nat.pow_eq]

theorem unitsPerOne_pos : 0 < unitsPerOne := by
  obtain ⟨e, he⟩ : ∃ e, e = 1074 := ⟨_, rfl⟩
  rw [unitsPerOne_eq_two_pow he]
  exact Nat.two_pow_pos e

/-! ## From fractions of units to codes -/

/-- Rounding depends on the value of the fraction alone. -/
theorem roundToCode_mul_left {k : ℕ} (hk : 0 < k) (num den : ℕ) :
    roundToCode (k * num) (k * den) = roundToCode num den := by
  simp only [roundToCode, Nat.mul_div_mul_left _ _ hk, Nat.mul_assoc, roundHalfEven_mul_left hk]

/-- A fraction below half a unit has the code of zero. -/
theorem roundToCode_eq_zero {num den : ℕ} (h : 2 * num < den) : roundToCode num den = 0 := by
  have hq : num / den = 0 := Nat.div_eq_of_lt (by omega)
  simp [roundToCode, hq, roundHalfEven_eq_zero h]

/-- The leading bit of the units of a code beyond the first block: a significand of 53 bits times a
step of `2 ^ e` units. -/
theorem log2_significand_mul {m e : ℕ} (hm : m < blockSize) :
    ((blockSize + m) * 2 ^ e).log2 = 52 + e := by
  have hblock : blockSize = 2 ^ 52 := rfl
  have hpos : 0 < (blockSize + m) * 2 ^ e :=
    Nat.mul_pos (by omega) (Nat.two_pow_pos e)
  rw [Nat.log2_eq_iff hpos.ne']
  constructor
  · rw [Nat.pow_add]
    exact Nat.mul_le_mul_right _ (by omega)
  · rw [show 52 + e + 1 = 53 + e by omega, Nat.pow_add]
    exact Nat.mul_lt_mul_of_pos_right (by omega) (Nat.two_pow_pos e)

/-- **The units of a code are rounded to the code.** -/
theorem roundToCode_unitsOfCode (code : ℕ) : roundToCode (unitsOfCode code) 1 = code := by
  have hblock : blockSize = 2 ^ 52 := rfl
  by_cases hc : code < blockSize
  · -- In the first block the codes count single units and nothing is shifted.
    have hlog : code.log2 - 52 = 0 := by
      by_cases h0 : code = 0
      · subst h0; decide
      · have := (Nat.log2_lt h0).mpr (hblock ▸ hc)
        omega
    have hround := roundHalfEven_mul_right_self code Nat.one_pos
    rw [Nat.mul_one] at hround
    simp [roundToCode, unitsOfCode, hc, hlog, hround]
  · -- Beyond it the shift is the number of doublings of the step.
    have hm : code % blockSize < blockSize := Nat.mod_lt _ (by decide)
    have he : 1 ≤ code / blockSize := (Nat.one_le_div_iff (by decide)).mpr (by omega)
    have hunits : unitsOfCode code
        = (blockSize + code % blockSize) * 2 ^ (code / blockSize - 1) := by
      simp [unitsOfCode, hc]
    have hlog := log2_significand_mul (e := code / blockSize - 1) hm
    have hround := roundHalfEven_mul_right_self (blockSize + code % blockSize)
      (Nat.two_pow_pos (code / blockSize - 1))
    have hsplit : code = code / blockSize * blockSize + code % blockSize := by
      rw [Nat.mul_comm]
      exact (Nat.div_add_mod code blockSize).symm
    have hshift : 52 + (code / blockSize - 1) - 52 = code / blockSize - 1 := by omega
    simp only [roundToCode, hunits, Nat.div_one, hlog, hshift, Nat.one_mul, Nat.pow_eq, hround]
    obtain ⟨e, he'⟩ : ∃ e, code / blockSize = e + 1 := ⟨code / blockSize - 1, by omega⟩
    rw [he'] at hsplit ⊢
    rw [Nat.add_sub_cancel, ← Nat.add_assoc, ← Nat.succ_mul]
    exact hsplit.symm

/-- Codes are told apart by their units. -/
theorem unitsOfCode_injective : Function.Injective unitsOfCode := by
  intro a b h
  rw [← roundToCode_unitsOfCode a, h, roundToCode_unitsOfCode]

/-- A fraction of `2 ^ 2100` units or more is beyond all finite magnitudes. -/
theorem codeCount_le_roundToCode {num den e : ℕ} (he : 2100 ≤ e) (hden : 0 < den)
    (h : 2 ^ e * den ≤ num) : codeCount ≤ roundToCode num den := by
  have hq : 2 ^ e ≤ num / den := (Nat.le_div_iff_mul_le hden).mpr h
  have hlog : e ≤ (num / den).log2 :=
    (Nat.le_log2 (Nat.ne_of_gt (lt_of_lt_of_le (Nat.two_pow_pos e) hq))).mpr hq
  have hshift : 2048 ≤ (num / den).log2 - 52 := by omega
  calc codeCount ≤ 2048 * blockSize := by decide
    _ ≤ ((num / den).log2 - 52) * blockSize := Nat.mul_le_mul_right _ hshift
    _ ≤ roundToCode num den := Nat.le_add_right _ _

/-- Units that are below `2 ^ 2098` by more than half a step of the last block are rounded to a
finite magnitude. -/
theorem roundToCode_lt_codeCount {units e : ℕ} (he : e = 2045)
    (h : 2 * units + 2 ^ e < 2 * 2 ^ 53 * 2 ^ e) : roundToCode units 1 < codeCount := by
  have hblock : blockSize = 2 ^ 52 := rfl
  have hcount : codeCount = (e + 2) * blockSize := by rw [he]; rfl
  have hlog : units.log2 < 53 + e := by
    by_cases hzero : units = 0
    · simp [hzero, he]
    · rw [Nat.log2_lt hzero, Nat.pow_add]
      nlinarith
  simp only [roundToCode, Nat.div_one, Nat.one_mul, Nat.pow_eq]
  generalize hshift : units.log2 - 52 = shift
  rcases Nat.lt_or_ge shift e with hlt | hge
  · -- Before the last block there is room for the next code, whatever the rounding does.
    have hunits : units < 2 ^ 53 * 2 ^ shift := by
      rw [← Nat.pow_add]
      exact lt_of_lt_of_le Nat.lt_log2_self (Nat.pow_le_pow_right (by decide) (by omega))
    have hround : roundHalfEven units (2 ^ shift) < 2 ^ 53 + 1 :=
      roundHalfEven_lt (by nlinarith [Nat.two_pow_pos shift])
    calc shift * blockSize + roundHalfEven units (2 ^ shift) ≤ (shift + 2) * blockSize := by
          rw [hblock]; omega
      _ < (e + 2) * blockSize := Nat.mul_lt_mul_of_pos_right (by omega) (by decide)
      _ = codeCount := hcount.symm
  · obtain rfl : shift = e := by omega
    have hround : roundHalfEven units (2 ^ shift) < 2 ^ 53 := roundHalfEven_lt h
    rw [hcount, hblock]
    omega

/-- Units that are below `2 ^ 2098` by at most half a step of the last block are not. -/
theorem codeCount_le_roundToCode_of_units {units e : ℕ} (he : e = 2045)
    (h : 2 * 2 ^ 53 * 2 ^ e ≤ 2 * units + 2 ^ e) : codeCount ≤ roundToCode units 1 := by
  have hblock : blockSize = 2 ^ 52 := rfl
  have hcount : codeCount = (e + 2) * blockSize := by rw [he]; rfl
  have hpow := Nat.two_pow_pos e
  have hunits : 2 ^ (52 + e) ≤ units := by
    rw [Nat.pow_add]
    nlinarith
  have hlog : 52 + e ≤ units.log2 := (Nat.le_log2 (by omega)).mpr hunits
  simp only [roundToCode, Nat.div_one, Nat.one_mul, Nat.pow_eq]
  generalize hshift : units.log2 - 52 = shift
  rcases Nat.eq_or_lt_of_le (show e ≤ shift by omega) with rfl | hlt
  · have hround : 2 ^ 53 ≤ roundHalfEven units (2 ^ e) := le_roundHalfEven hpow rfl h
    rw [hcount, hblock]
    omega
  · -- Beyond the last block the shift alone is too large.
    have hlow : 2 ^ 52 * 2 ^ shift ≤ units := by
      rw [← Nat.pow_add, show 52 + shift = units.log2 by omega]
      exact Nat.log2_self_le (by omega)
    have hround : 2 ^ 52 ≤ roundHalfEven units (2 ^ shift) :=
      le_roundHalfEven (Nat.two_pow_pos shift) rfl (by nlinarith)
    calc codeCount = (e + 1) * blockSize + blockSize := by rw [hcount]; ring
      _ ≤ shift * blockSize + roundHalfEven units (2 ^ shift) :=
        Nat.add_le_add (Nat.mul_le_mul_right _ hlt) hround

/-! ## Values -/

/-- The value nearest to the units of a code is the one with that code. -/
theorem ofRatio_unitsOfCode (negative : Bool) (code : Fin codeCount) :
    ofRatio negative (unitsOfCode code) 1 = .finite negative code := by
  simp [ofRatio, roundToCode_unitsOfCode]

theorem ofRatio_eq_signedZero (negative : Bool) {num den : ℕ} (h : 2 * num < den) :
    ofRatio negative num den = .signedZero negative := by
  simp [ofRatio, roundToCode_eq_zero h, signedZero, codeCount]

theorem ofRatio_eq_infinite (negative : Bool) {num den e : ℕ} (he : 2100 ≤ e) (hden : 0 < den)
    (h : 2 ^ e * den ≤ num) : ofRatio negative num den = .infinite negative := by
  have := codeCount_le_roundToCode he hden h
  simp [ofRatio, Nat.not_lt.mpr this]

/-! ## Integers -/

@[simp] theorem natAbs_signedUnits (negative : Bool) (code : ℕ) :
    (signedUnits negative code).natAbs = unitsOfCode code := by
  cases negative <;> simp [signedUnits]

/-- The integer that a whole value is has the units of the value. -/
theorem truncate?_mul_unitsPerOne {negative : Bool} {code : Fin codeCount} {n : ℤ}
    (hwhole : (finite negative code).isIntegral = true)
    (hn : (finite negative code).truncate? = some n) :
    n * unitsPerOne = signedUnits negative code := by
  have hdvd : unitsPerOne ∣ (signedUnits negative code).natAbs := by
    rw [natAbs_signedUnits]
    exact Nat.dvd_of_mod_eq_zero (by simpa [isIntegral] using hwhole)
  obtain rfl : (signedUnits negative code).tdiv unitsPerOne = n := Option.some.inj hn
  exact Int.tdiv_mul_cancel (Int.natCast_dvd.mpr hdvd)

/-- A whole floating point value is found again from its integer: there is a value nearest to it. -/
theorem ofInt?_of_isIntegral {x : Binary64} {n : ℤ} (hwhole : x.isIntegral = true)
    (hn : x.truncate? = some n) : ∃ y, ofInt? n = some y := by
  cases x with
  | nan => simp [isIntegral] at hwhole
  | infinite => simp [isIntegral] at hwhole
  | finite negative code =>
    rw [ofInt?, truncate?_mul_unitsPerOne hwhole hn, ofUnits, natAbs_signedUnits,
      ofRatio_unitsOfCode]
    exact ⟨_, rfl⟩

/-- **The integers with a nearest finite value** are those that are below `2 ^ 1024` by more than
half a step of the last block. -/
theorem isSome_ofInt?_iff {n : ℤ} {e f : ℕ} (he : e = 970) (hf : f = e + 54) :
    (ofInt? n).isSome = true ↔ n.natAbs < 2 ^ f - 2 ^ e := by
  obtain ⟨u, hu⟩ : ∃ u, u = 1074 := ⟨_, rfl⟩
  have hunits : (n * unitsPerOne).natAbs = n.natAbs * 2 ^ u := by
    rw [Int.natAbs_mul, Int.natAbs_natCast, unitsPerOne_eq_two_pow hu]
  have hstep : 2 ^ (e + u + 1) = 2 * (2 ^ e * 2 ^ u) := by rw [Nat.pow_succ, Nat.pow_add]; ring
  have hlast : e + u + 1 = 2045 := by omega
  have hbound : n.natAbs < 2 ^ f - 2 ^ e ↔ n.natAbs + 2 ^ e < 2 ^ 54 * 2 ^ e := by
    rw [hf, Nat.pow_add]
    omega
  rw [hbound]
  constructor
  · intro hsome
    by_contra hlarge
    have hcode : codeCount ≤ roundToCode (n * unitsPerOne).natAbs 1 := by
      refine codeCount_le_roundToCode_of_units hlast ?_
      rw [hunits, hstep]
      nlinarith [Nat.two_pow_pos u]
    simp only [ofInt?, ofUnits, ofRatio, dif_neg (Nat.not_lt.mpr hcode)] at hsome
    cases hsome
  · intro hsmall
    have hcode : roundToCode (n * unitsPerOne).natAbs 1 < codeCount := by
      refine roundToCode_lt_codeCount hlast ?_
      rw [hunits, hstep]
      nlinarith [Nat.two_pow_pos u]
    simp only [ofInt?, ofUnits, ofRatio, dif_pos hcode]
    rfl

theorem ofInt?_of_natAbs_lt {n : ℤ} {e f : ℕ} (he : e = 970) (hf : f = e + 54)
    (h : n.natAbs < 2 ^ f - 2 ^ e) : ∃ x, ofInt? n = some x :=
  Option.isSome_iff_exists.mp ((isSome_ofInt?_iff he hf).mpr h)

/-- An integer that has a nearest finite value is below `2 ^ 1026`. -/
theorem natAbs_lt_of_ofInt? {x : Binary64} {n : ℤ} {e : ℕ} (he : 1026 ≤ e)
    (h : ofInt? n = some x) : n.natAbs < 2 ^ e := by
  by_contra hlarge
  obtain ⟨u, hu⟩ : ∃ u, u = 1074 := ⟨_, rfl⟩
  have hnum : 2 ^ (e + u) * 1 ≤ (n * unitsPerOne).natAbs := by
    rw [Nat.mul_one, Nat.pow_add, Int.natAbs_mul, Int.natAbs_natCast, unitsPerOne_eq_two_pow hu]
    exact Nat.mul_le_mul_right _ (Nat.le_of_not_lt hlarge)
  rw [ofInt?, ofUnits, ofRatio_eq_infinite _ (by omega) Nat.one_pos hnum] at h
  simp [notInfinite?] at h

end Binary64

end TileScript
