import TileScript.Proofs.Number.Rounding

/-!
# Decimal numerals and the values they stand for

A decimal numeral is rounded to a code by its exact value. The shortest numeral of a magnitude, with
its zeros moved into the exponent, is therefore still rounded to that magnitude, and so is what is
read from its written form, whichever layout the form has.

## Main definitions

* `Decimal.code`: the code that a numeral is rounded to.

## Main statements

* `Decimal.toBinary64_eq`: the nearest value is the one with that code.
* `Decimal.code_shortest`: the shortest numeral of a magnitude reads back to it.
* `Decimal.ofChars?_layout`: a written form is read as a numeral of the same value.
-/

namespace TileScript

theorem digitsValue_eq_ofDigitChars (digits : List Char) :
    digitsValue digits = Nat.ofDigitChars 10 digits 0 := rfl

@[simp] theorem digitsValue_toDigits (n : ℕ) : digitsValue (Nat.toDigits 10 n) = n := by
  rw [digitsValue_eq_ofDigitChars, Nat.ofDigitChars_ten_toDigits]

theorem digitsValue_append (a b : List Char) :
    digitsValue (a ++ b) = digitsValue a * 10 ^ b.length + digitsValue b := by
  rw [digitsValue_eq_ofDigitChars, Nat.ofDigitChars_append, Nat.ofDigitChars_eq_ofDigitChars_zero,
    Nat.mul_comm]
  rfl

@[simp] theorem digitsValue_replicate_zero (n : ℕ) :
    digitsValue (List.replicate n '0') = 0 := by
  rw [digitsValue_eq_ofDigitChars, Nat.ofDigitChars_replicate_zero, Nat.mul_zero]

/-! ## Runs of a class at the start of a text -/

section Runs

variable {p : Char → Bool} {run rest : List Char}

/-- A run is cut off where its class ends. -/
theorem takeWhile_run (hrun : run.all p = true) (hrest : rest.head?.all (!p ·) = true) :
    (run ++ rest).takeWhile p = run := by
  rw [List.takeWhile_append_of_pos (List.all_eq_true.mp hrun)]
  cases rest with
  | nil => simp
  | cons c rest => simp_all

theorem dropWhile_run (hrun : run.all p = true) (hrest : rest.head?.all (!p ·) = true) :
    (run ++ rest).dropWhile p = rest := by
  rw [List.dropWhile_append_of_pos (List.all_eq_true.mp hrun)]
  cases rest with
  | nil => simp
  | cons c rest => simp_all

/-- A text that starts with a run starts with a character of its class. -/
theorem head?_any_run (hne : run ≠ []) (hrun : run.all p = true) (rest : List Char) :
    (run ++ rest).head?.any p = true := by
  cases run with
  | nil => exact absurd rfl hne
  | cons c run => simp_all

end Runs

namespace Decimal

open Binary64

/-! ## Rounding by the exact value -/

/-- The code of the magnitude nearest to a numeral. -/
def code (d : Decimal) : ℕ :=
  roundToCode (d.digits * 10 ^ d.exponent.toNat * unitsPerOne) (10 ^ (-d.exponent).toNat)

/-- The sign has no part in it. -/
theorem code_mk (s : Bool) (d : Decimal) : code ⟨s, d.digits, d.exponent⟩ = d.code := rfl

/-- Two fractions of the same value have the same code. -/
theorem roundToCode_congr {a b c d : ℕ} (hb : 0 < b) (hd : 0 < d) (h : a * d = c * b) :
    roundToCode a b = roundToCode c d := by
  rw [← roundToCode_mul_left hd a b, ← roundToCode_mul_left hb c d, Nat.mul_comm d a, h,
    Nat.mul_comm c b, Nat.mul_comm d b]

/-- Zeros may be moved from the digits into the exponent. -/
theorem code_mul_pow (s t : Bool) (m k : ℕ) (e : ℤ) :
    code ⟨s, m * 10 ^ k, e - k⟩ = code ⟨t, m, e⟩ := by
  refine roundToCode_congr (Nat.pow_pos (by decide)) (Nat.pow_pos (by decide)) ?_
  have hexp : k + (e - k).toNat + (-e).toNat = e.toNat + (-(e - k)).toNat := by omega
  calc m * 10 ^ k * 10 ^ (e - k).toNat * unitsPerOne * 10 ^ (-e).toNat
      = m * unitsPerOne * 10 ^ (k + (e - k).toNat + (-e).toNat) := by
        rw [Nat.pow_add, Nat.pow_add]; ring
    _ = m * 10 ^ e.toNat * unitsPerOne * 10 ^ (-(e - k)).toNat := by
        rw [hexp, Nat.pow_add]; ring

/-- A numeral with an exponent over 308 is beyond all finite values, unless it is zero. -/
theorem ofRatio_of_exponent_large (s : Bool) {m e : ℕ} (hm : m ≠ 0) (he : 308 < e) :
    ofRatio s (m * 10 ^ e * unitsPerOne) 1 = .infinite s := by
  obtain ⟨u, hu⟩ : ∃ u, u = 1074 := ⟨_, rfl⟩
  -- The powers are compared in eleven equal parts, so that nothing computes them.
  obtain ⟨k, hk⟩ : ∃ k, k = 11 := ⟨_, rfl⟩
  have hten : 2 ^ (93 * k + 3) ≤ 10 ^ e := by
    calc 2 ^ (93 * k + 3) = (2 ^ 93) ^ k * 8 := by rw [Nat.pow_add, Nat.pow_mul]
      _ ≤ (10 ^ 28) ^ k * 10 := Nat.mul_le_mul (Nat.pow_le_pow_left (by decide) k) (by decide)
      _ = 10 ^ (28 * k + 1) := by rw [Nat.pow_add 10 (28 * k), Nat.pow_mul, Nat.pow_one]
      _ ≤ 10 ^ e := Nat.pow_le_pow_right (by decide) (by omega)
  refine ofRatio_eq_infinite s (e := 93 * k + 3 + u) (by omega) Nat.one_pos ?_
  rw [Nat.mul_one, Nat.pow_add, unitsPerOne_eq_two_pow hu]
  exact Nat.mul_le_mul_right _ (le_trans hten (Nat.le_mul_of_pos_left _ (Nat.pos_of_ne_zero hm)))

/-- A numeral below `2 ^ -1076` is nearest to zero. -/
theorem ofRatio_of_exponent_small (s : Bool) {m k : ℕ} (h : m.log2 + 1 + 1076 ≤ 3 * k) :
    ofRatio s (m * unitsPerOne) (10 ^ k) = .signedZero s := by
  obtain ⟨u, hu⟩ : ∃ u, u = 1074 := ⟨_, rfl⟩
  refine ofRatio_eq_signedZero s ?_
  rw [unitsPerOne_eq_two_pow hu]
  calc 2 * (m * 2 ^ u) = m * 2 ^ (u + 1) := by rw [Nat.pow_succ]; ring
    _ < 2 ^ (m.log2 + 1) * 2 ^ (u + 1) :=
        Nat.mul_lt_mul_of_pos_right Nat.lt_log2_self (Nat.two_pow_pos _)
    _ = 2 ^ (m.log2 + 1 + (u + 1)) := (Nat.pow_add ..).symm
    _ ≤ 2 ^ (3 * k) := Nat.pow_le_pow_right (by decide) (by omega)
    _ = 8 ^ k := by rw [Nat.pow_mul]
    _ ≤ 10 ^ k := Nat.pow_le_pow_left (by decide) k

/-- The cases that keep the powers of ten small do not change the value. -/
theorem toBinary64_eq_ofRatio (d : Decimal) :
    d.toBinary64 = ofRatio d.negative (d.digits * 10 ^ d.exponent.toNat * unitsPerOne)
      (10 ^ (-d.exponent).toNat) := by
  unfold toBinary64
  split
  · next hzero =>
    rw [hzero, ofRatio_eq_signedZero]
    simp only [Nat.zero_mul, Nat.mul_zero]
    exact Nat.pow_pos (by decide)
  split
  · next hzero hlarge =>
    rw [show (-d.exponent).toNat = 0 by omega, Nat.pow_zero,
      ofRatio_of_exponent_large _ hzero (by omega)]
  split
  · next hzero hlarge hsmall =>
    rw [show d.exponent.toNat = 0 by omega, Nat.pow_zero, Nat.mul_one,
      ofRatio_of_exponent_small _ (by omega)]
  · rfl

/-- The nearest value is the one with the numeral's code. -/
theorem toBinary64_eq (d : Decimal) :
    d.toBinary64 =
      if h : d.code < codeCount then .finite d.negative ⟨d.code, h⟩
      else .infinite d.negative :=
  toBinary64_eq_ofRatio d

theorem toBinary64_eq_finite {d : Decimal} {c : Fin codeCount} (h : d.code = c) :
    d.toBinary64 = .finite d.negative c := by
  simp [toBinary64_eq, h]

theorem code_eq_of_toBinary64 {d : Decimal} {s : Bool} {c : Fin codeCount}
    (h : d.toBinary64 = .finite s c) : d.code = c := by
  rw [toBinary64_eq] at h
  split at h
  · cases h; rfl
  · simp at h

/-! ## The shortest numeral -/

theorem toBinary64_of_onGrid? {c : Fin codeCount} {e : ℤ} {d : Decimal}
    (h : onGrid? c e = some d) : d.toBinary64 = .finite false c := by
  simp only [onGrid?] at h
  split at h
  · next hboth =>
    simp only [Bool.and_eq_true, decide_eq_true_eq] at hboth
    obtain rfl := Option.some.inj h
    split
    · exact hboth.1
    · exact hboth.2
  split at h
  · next hbelow =>
    obtain rfl := Option.some.inj h
    exact of_decide_eq_true hbelow
  split at h
  · next habove =>
    obtain rfl := Option.some.inj h
    exact of_decide_eq_true habove
  · simp at h

/-- All the digits of a magnitude read back to it. -/
theorem code_exact (c : Fin codeCount) : (exact c).code = c := by
  obtain ⟨u, hu⟩ : ∃ u, u = 1074 := ⟨_, rfl⟩
  have hten : 5 ^ u * unitsPerOne = 10 ^ u := by
    rw [unitsPerOne_eq_two_pow hu, ← Nat.mul_pow]
  have hexact : exact c = ⟨false, unitsOfCode c * 5 ^ u, -u⟩ := by
    unfold exact
    rw [← hu, Nat.pow_eq, show (-1074 : ℤ) = -(u : ℤ) by omega]
  refine Eq.trans ?_ (roundToCode_unitsOfCode c)
  rw [hexact, code]
  refine roundToCode_congr (Nat.pow_pos (by decide)) Nat.one_pos ?_
  rw [show (-(u : ℤ)).toNat = 0 by omega, show (- -(u : ℤ)).toNat = u by omega, Nat.pow_zero,
    Nat.mul_one, Nat.mul_one, Nat.mul_assoc, hten]

/-- **The shortest numeral of a magnitude reads back to it.** -/
theorem code_shortest (c : Fin codeCount) : (shortest c).code = c := by
  rw [shortest]
  cases hfound : (List.range 17).findSome? fun more : ℕ =>
      onGrid? c (leadingExponent (unitsOfCode c) - more) with
  | none => rw [Option.getD_none, code_exact]
  | some d =>
    obtain ⟨more, -, hgrid⟩ := List.exists_of_findSome?_eq_some hfound
    rw [Option.getD_some, code_eq_of_toBinary64 (toBinary64_of_onGrid? hgrid)]

@[simp] theorem code_trim (d : Decimal) : d.trim.code = d.code := by
  fun_induction trim d with
  | case1 d h ih =>
    have hdigits : d.digits = d.digits / 10 * 10 ^ 1 := by omega
    calc _ = _ := ih
      _ = code ⟨d.negative, d.digits / 10 * 10 ^ 1, d.exponent + 1 - (1 : ℕ)⟩ :=
        (code_mul_pow ..).symm
      _ = d.code := by rw [← hdigits, Nat.cast_one, Int.add_sub_cancel]
  | case2 d h => rfl

/-! ## Reading what was written -/

/-- The signs are no digits, so that a numeral that starts with a digit has none. -/
theorem splitSign_of_isDigit {chars : List Char} (h : chars.head?.any Char.isDigit = true) :
    splitSign chars = (false, chars) := by
  unfold splitSign
  split
  · simp at h
  · simp at h
  · rfl

/-- Reading a numeral with digits on both sides of a point. -/
theorem ofChars?_point (whole fraction tail : List Char) {e : ℤ} (hne : whole ≠ [])
    (hwhole : whole.all Char.isDigit = true) (hfraction : fraction.all Char.isDigit = true)
    (htail : tail.head?.all (!·.isDigit) = true) (he : exponentOfChars? tail = some e) :
    ofChars? (whole ++ '.' :: (fraction ++ tail)) =
      some ⟨false, digitsValue (whole ++ fraction), e - fraction.length⟩ := by
  have hhead := head?_any_run hne hwhole ('.' :: (fraction ++ tail))
  have hpoint : ('.' :: (fraction ++ tail)).head?.all (!·.isDigit) = true := rfl
  simp only [ofChars?, splitSign_of_isDigit hhead, takeWhile_run hwhole hpoint,
    dropWhile_run hwhole hpoint, takeWhile_run hfraction htail, dropWhile_run hfraction htail]
  simp [hne, he]

/-- Reading a numeral without a point. -/
theorem ofChars?_whole (whole tail : List Char) {e : ℤ} (hne : whole ≠ [])
    (hwhole : whole.all Char.isDigit = true)
    (htail : tail.head?.all (fun c => !c.isDigit && c != '.') = true)
    (he : exponentOfChars? tail = some e) :
    ofChars? (whole ++ tail) = some ⟨false, digitsValue whole, e⟩ := by
  have hhead := head?_any_run hne hwhole tail
  have hdigit : tail.head?.all (!·.isDigit) = true := by
    cases tail <;> simp_all
  simp only [ofChars?, splitSign_of_isDigit hhead, takeWhile_run hwhole hdigit,
    dropWhile_run hwhole hdigit]
  split
  · next rest => simp at htail
  · simp [hne, he]

theorem all_isDigit_toDigits (n : ℕ) : (Nat.toDigits 10 n).all Char.isDigit = true :=
  List.all_eq_true.mpr fun _ h => Nat.isDigit_of_mem_toDigits (by decide) (by decide) h

/-- Written exponents are read back. -/
theorem exponentOfChars?_exponentChars (e : ℤ) : exponentOfChars? (exponentChars e) = some e := by
  obtain ⟨digits, hdigits, hne, hall, hvalue⟩ : ∃ digits,
      (if (Nat.toDigits 10 e.natAbs).length < 2 then '0' :: Nat.toDigits 10 e.natAbs
        else Nat.toDigits 10 e.natAbs) = digits ∧ digits ≠ [] ∧
      digits.all Char.isDigit = true ∧ digitsValue digits = e.natAbs := by
    refine ⟨_, rfl, ?_⟩
    split
    · refine ⟨by simp, by simpa using all_isDigit_toDigits e.natAbs, ?_⟩
      rw [← List.singleton_append, digitsValue_append, digitsValue_toDigits,
        show digitsValue ['0'] = 0 from rfl, Nat.zero_mul, Nat.zero_add]
    · exact ⟨by simp, all_isDigit_toDigits e.natAbs, digitsValue_toDigits _⟩
  simp only [exponentChars, hdigits]
  have habs : (e.natAbs : ℤ) = |e| := Int.natCast_natAbs e
  split
  · next hneg => simp [exponentOfChars?, splitSign, hne, hall, hvalue, abs_of_neg hneg]
  · next hpos =>
    simp [exponentOfChars?, splitSign, hne, hall, hvalue, abs_of_nonneg (not_lt.mp hpos)]

/-- **A written form is read as a numeral of the same value**, wherever its point stands. -/
theorem ofChars?_layout {digits : List Char} (hne : digits ≠ [])
    (hdigits : digits.all Char.isDigit = true) (point : ℤ) :
    ∃ d, ofChars? (layout digits point) = some d ∧ d.negative = false ∧
      d.code = code ⟨false, digitsValue digits, point - digits.length⟩ := by
  have hdrop : ∀ k, (digits.drop k).all Char.isDigit = true := fun k =>
    List.all_eq_true.mpr fun c hc => List.all_eq_true.mp hdigits c (List.mem_of_mem_drop hc)
  have htake : ∀ k, (digits.take k).all Char.isDigit = true := fun k =>
    List.all_eq_true.mpr fun c hc => List.all_eq_true.mp hdigits c (List.mem_of_mem_take hc)
  have hlen : 0 < digits.length := List.length_pos_iff.mpr hne
  unfold layout
  split
  · split
    · -- The point stands before all digits, and zeros fill the places after it.
      next hpoint =>
      have hread := ofChars?_point ['0'] (List.replicate (-point).toNat '0' ++ digits) [] (e := 0)
        (by simp) (by decide) (by simpa using hdigits) rfl rfl
      refine ⟨_, by simpa using hread, rfl, ?_⟩
      have hvalue : digitsValue ('0' :: (List.replicate (-point).toNat '0' ++ digits)) =
          digitsValue digits := by
        rw [← List.cons_append, ← List.replicate_succ, digitsValue_append,
          digitsValue_replicate_zero, Nat.zero_mul, Nat.zero_add]
      rw [hvalue, show -(digits.length : ℤ) + -max (-point) 0 = point - digits.length by omega]
    · next hpoint =>
      by_cases hfew : digits.length ≤ point.toNat
      · -- The point stands after all digits, and zeros fill the places before it.
        have hread := ofChars?_point (digits ++ List.replicate (point.toNat - digits.length) '0')
          ['0'] [] (e := 0) (by simp [hne]) (by simpa using hdigits) (by decide) rfl rfl
        refine ⟨_, by simpa [List.take_of_length_le hfew, List.drop_of_length_le hfew] using hread,
          rfl, ?_⟩
        obtain ⟨k, hk⟩ : ∃ k, k = point.toNat - digits.length := ⟨_, rfl⟩
        have hvalue : digitsValue (digits ++ (List.replicate k '0' ++ ['0'])) =
            digitsValue digits * 10 ^ (k + 1) := by
          rw [← List.replicate_succ', digitsValue_append, digitsValue_replicate_zero,
            List.length_replicate, Nat.add_zero]
        rw [← hk, hvalue, show (-1 : ℤ) = point - digits.length - ((k + 1 : ℕ) : ℤ) by omega,
          code_mul_pow]
      · -- The point stands among the digits.
        have hread := ofChars?_point (digits.take point.toNat) (digits.drop point.toNat) [] (e := 0)
          (by simp [hne]; omega) (htake _) (hdrop _) rfl rfl
        refine ⟨_, by simpa [Nat.sub_eq_zero_of_le (le_of_not_ge hfew), hfew] using hread, rfl, ?_⟩
        rw [show -((digits.length - point.toNat : ℕ) : ℤ) = point - digits.length by omega]
  · -- One digit stands before the point, and the exponent makes up for it.
    have htail : (exponentChars (point - 1)).head?.all (fun c => !c.isDigit && c != '.') = true :=
      rfl
    by_cases hone : digits.drop 1 = []
    · have hread := ofChars?_whole (digits.take 1) _ (by simp [hne]) (htake 1) htail
        (exponentOfChars?_exponentChars (point - 1))
      refine ⟨_, by simpa [hone, -List.drop_one] using hread, rfl, ?_⟩
      have hlen1 : digits.length = 1 := by
        have := List.drop_eq_nil_iff.mp hone
        omega
      rw [List.take_of_length_le hlen1.le, hlen1, Nat.cast_one]
    · have hread := ofChars?_point (digits.take 1) (digits.drop 1) _
        (by simp [hne]) (htake 1) (hdrop 1) rfl (exponentOfChars?_exponentChars (point - 1))
      refine ⟨_, by simpa [hone, -List.drop_one] using hread, rfl, ?_⟩
      rw [show point - 1 - ((digits.length - 1 : ℕ) : ℤ) = point - digits.length by omega]

end Decimal

end TileScript
