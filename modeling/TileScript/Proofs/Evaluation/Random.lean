import TileScript.Proofs.Evaluation.Depth
import TileScript.Proofs.Number.Nearest

/-!
# Random numbers

A random number is a whole number of steps above the lower bound, so it is a whole number only if
that bound is. The steps come from a rounded product of the draw, which is below one, and the width,
which is one more than the distance of the bounds. Even where that width is rounded up, no draw
leads beyond the distance of two integers, however large they are.

## Main definitions

* `Number.NotNegative`: a number that is not below zero, or has no place among the finite ones.

## Main statements

* `Number.le_iff_place?`, `Number.lt_iff_place?`: the order of numbers is that of their places.
* `Number.units_lt_of_mul`: a number below one times an integer stays below the integer.
* `Number.le_of_add`: adding steps does not lead below the lower bound.
* `random_within`: what `random` gives for two numbers.
-/

namespace TileScript

/-! ## Places of numbers -/

namespace Number

theorem lt_iff_place? {a b : Number} :
    a.lt b = true ↔ ∃ p q, a.place? = some p ∧ b.place? = some q ∧ p.lt q = true := by
  by_cases hints : ∃ m n, a = .int m ∧ b = .int n
  · obtain ⟨m, n, rfl, rfl⟩ := hints
    have hpos : (0 : ℤ) < Binary64.unitsPerOne := Int.natCast_pos.mpr Binary64.unitsPerOne_pos
    change decide (m < n) = true ↔ ∃ p q, some (Place.units (m * Binary64.unitsPerOne)) = some p ∧
      some (Place.units (n * Binary64.unitsPerOne)) = some q ∧ p.lt q = true
    generalize (Binary64.unitsPerOne : ℤ) = one at hpos
    simp [Place.lt, hpos]
  · rw [lt]
    · cases a.place? <;> cases b.place? <;> simp
    · intro m n ha hb
      exact hints ⟨m, n, ha, hb⟩

theorem le_iff_place? {a b : Number} : a.le b = true ↔
    ∃ p q, a.place? = some p ∧ b.place? = some q ∧ (p.lt q = true ∨ p = q) := by
  rw [le, Bool.or_eq_true, lt_iff_place?, same_iff_place?]
  constructor
  · rintro (⟨p, q, ha, hb, h⟩ | ⟨p, ha, hb⟩)
    · exact ⟨p, q, ha, hb, .inl h⟩
    · exact ⟨p, p, ha, hb, .inr rfl⟩
  · rintro ⟨p, q, ha, hb, h | rfl⟩
    · exact .inl ⟨p, q, ha, hb, h⟩
    · exact .inr ⟨p, ha, hb⟩

theorem le_iff_of_units {a b : Number} {m n : ℤ} (ha : a.place? = some (.units m))
    (hb : b.place? = some (.units n)) : a.le b = true ↔ m ≤ n := by
  simp [le_iff_place?, ha, hb, Place.lt, Int.le_iff_lt_or_eq]

theorem lt_iff_of_units {a b : Number} {m n : ℤ} (ha : a.place? = some (.units m))
    (hb : b.place? = some (.units n)) : a.lt b = true ↔ m < n := by
  simp [lt_iff_place?, ha, hb, Place.lt]

end Number

namespace Binary64

theorem place?_infinite_ne_units (negative : Bool) (w : ℤ) :
    (Number.float (infinite negative)).place? ≠ some (.units w) := by
  cases negative <;> exact fun h => nomatch h

theorem units_of_ofRatio {negative : Bool} {num den : ℕ} {w : ℤ}
    (h : (Number.float (ofRatio negative num den)).place? = some (.units w)) :
    w = signedUnits negative (roundToCode num den) := by
  rw [ofRatio] at h
  split at h
  · exact (Place.units.inj (Option.some.inj h)).symm
  · exact absurd h (place?_infinite_ne_units _ _)

/-- The value nearest to a number of units stands at the rounded number, unless it is infinite. -/
theorem units_of_ofUnits {zeroSign : Bool} {u w : ℤ}
    (h : (Number.float (ofUnits zeroSign u)).place? = some (.units w)) :
    w = roundToSignificand u := by
  rw [units_of_ofRatio h, signedUnits, ← natAbs_roundToSignificand,
    signed_natAbs_roundToSignificand fun hu => ?_]
  simp [hu]

/-- Rounding does not fall below a finite value. -/
theorem le_ofUnits {negative : Bool} {code : Fin codeCount} {u : ℤ} (zeroSign : Bool)
    (h : signedUnits negative code ≤ u) :
    Number.le (.float (.finite negative code)) (.float (ofUnits zeroSign u)) = true := by
  have habs := natAbs_signedUnits negative code
  by_cases hcode : roundToCode u.natAbs 1 < codeCount
  · obtain ⟨w, hw⟩ : ∃ w, (Number.float (ofUnits zeroSign u)).place? = some (.units w) := by
      rw [ofUnits, ofRatio, dif_pos hcode]
      exact ⟨_, rfl⟩
    have hfits : roundToSignificand (signedUnits negative code) = signedUnits negative code :=
      roundToSignificand_eq_self_iff.mpr (fitsSignificand_iff.mpr ⟨code, habs.symm⟩)
    rw [Number.le_iff_of_units rfl hw, units_of_ofUnits hw, ← hfits]
    exact roundToSignificand_mono h
  · have hpos : 0 < u := by
      by_contra hle
      have hround : roundToCode u.natAbs 1 ≤ code := roundToCode_le Nat.one_pos (by omega)
      exact hcode (hround.trans_lt code.isLt)
    rw [ofUnits, ofRatio, dif_neg hcode, if_neg hpos.ne', Number.le_iff_place?]
    exact ⟨_, .posInfinity, rfl, by simp [Number.place?, hpos.not_gt], .inl rfl⟩

/-- A sum that is finite is the rounded sum. -/
theorem units_of_add {x y : Binary64} {w : ℤ}
    (h : (Number.float (x.add y)).place? = some (.units w)) :
    ∃ u v, (Number.float x).place? = some (.units u) ∧ (Number.float y).place? = some (.units v) ∧
      w = roundToSignificand (u + v) := by
  cases x with
  | nan => cases h
  | infinite s =>
    cases y with
    | nan => cases h
    | infinite t =>
      rw [add] at h
      split at h
      · exact absurd h (place?_infinite_ne_units _ _)
      · cases h
    | finite => exact absurd h (place?_infinite_ne_units _ _)
  | finite s a =>
    cases y with
    | nan => cases h
    | infinite t => exact absurd h (place?_infinite_ne_units _ _)
    | finite t b => exact ⟨_, _, rfl, rfl, units_of_ofUnits h⟩

/-- A difference that is finite is the rounded difference. -/
theorem units_of_sub {x y : Binary64} {w : ℤ}
    (h : (Number.float (x.sub y)).place? = some (.units w)) :
    ∃ u v, (Number.float x).place? = some (.units u) ∧ (Number.float y).place? = some (.units v) ∧
      w = roundToSignificand (u - v) := by
  obtain ⟨u, v, hu, hv, rfl⟩ := units_of_add h
  cases y with
  | nan => cases hv
  | infinite t => exact absurd hv (place?_infinite_ne_units _ _)
  | finite t b =>
    obtain rfl : signedUnits (!t) b = v := Place.units.inj (Option.some.inj hv)
    refine ⟨u, signedUnits t b, hu, rfl, ?_⟩
    cases t <;> simp [signedUnits, Int.sub_eq_add_neg]

/-- A product that is finite is the rounded product, and it is not negative if no factor is. -/
theorem units_of_mul {x y : Binary64} {w : ℤ}
    (h : (Number.float (x.mul y)).place? = some (.units w)) :
    ∃ u v, (Number.float x).place? = some (.units u) ∧ (Number.float y).place? = some (.units v) ∧
      w.natAbs = unitsOfCode (roundToCode (u.natAbs * v.natAbs) unitsPerOne) ∧
      (0 ≤ u → 0 ≤ v → 0 ≤ w) := by
  cases x with
  | nan => cases h
  | infinite s =>
    cases y with
    | nan => cases h
    | infinite t => exact absurd h (place?_infinite_ne_units _ _)
    | finite t b =>
      rw [mul] at h
      split at h
      · cases h
      · exact absurd h (place?_infinite_ne_units _ _)
  | finite s a =>
    cases y with
    | nan => cases h
    | infinite t =>
      rw [mul] at h
      split at h
      · cases h
      · exact absurd h (place?_infinite_ne_units _ _)
    | finite t b =>
      rw [mul] at h
      obtain rfl := units_of_ofRatio h
      refine ⟨_, _, rfl, rfl, by simp, fun hu hv => ?_⟩
      -- Factors of different signs are not negative only if one of them is zero.
      have hzero : ∀ n, n = 0 → 0 ≤ signedUnits true (roundToCode n unitsPerOne) := by
        rintro _ rfl
        rw [roundToCode_eq_zero (Nat.mul_zero 2 ▸ unitsPerOne_pos)]
        decide
      cases s with
      | false =>
        cases t with
        | false => exact Int.natCast_nonneg _
        | true =>
          have hb : unitsOfCode b = 0 := by simpa [signedUnits] using hv
          exact hzero _ (by rw [hb, Nat.mul_zero])
      | true =>
        cases t with
        | false =>
          have ha : unitsOfCode a = 0 := by simpa [signedUnits] using hu
          exact hzero _ (by rw [ha, Nat.zero_mul])
        | true => exact Int.natCast_nonneg _

end Binary64

/-! ## Arithmetic on places -/

namespace Number

theorem fitsSignificand_of_place? {x : Binary64} {u : ℤ}
    (h : (Number.float x).place? = some (.units u)) : FitsSignificand u := by
  cases x with
  | nan => cases h
  | infinite t => exact absurd h (Binary64.place?_infinite_ne_units _ _)
  | finite t b =>
    obtain rfl : Binary64.signedUnits t b = u := Place.units.inj (Option.some.inj h)
    exact fitsSignificand_iff.mpr ⟨b, (Binary64.natAbs_signedUnits t b).symm⟩

/-- An integer in floating point is finite. -/
theorem exists_finite_of_toFloat {n : ℤ} {x : Binary64} (h : (Number.int n).toFloat = .ok x) :
    ∃ s c, x = .finite s c ∧ Binary64.signedUnits s c
      = roundToSignificand (n * Binary64.unitsPerOne) := by
  have hnear := toFloat_int_eq_ok_iff.mp h
  rw [Binary64.ofInt?] at hnear
  cases hvalue : Binary64.ofUnits false (n * Binary64.unitsPerOne) with
  | nan =>
    rw [Binary64.ofUnits, Binary64.ofRatio] at hvalue
    split at hvalue <;> cases hvalue
  | infinite => rw [hvalue] at hnear; cases hnear
  | finite s c =>
    rw [hvalue] at hnear
    obtain rfl := Option.some.inj hnear
    exact ⟨s, c, rfl, Binary64.units_of_ofUnits (by rw [hvalue, place?])⟩

/-- A number in floating point stands at its rounded place, if it is finite. -/
theorem units_of_toFloat {a : Number} {x : Binary64} {u : ℤ} (h : a.toFloat = .ok x)
    (hx : (Number.float x).place? = some (.units u)) :
    ∃ v, a.place? = some (.units v) ∧ u = roundToSignificand v := by
  cases a with
  | int n =>
    obtain ⟨s, c, rfl, hunits⟩ := exists_finite_of_toFloat h
    obtain rfl : Binary64.signedUnits s c = u := Place.units.inj (Option.some.inj hx)
    exact ⟨_, rfl, hunits⟩
  | float y =>
    cases h
    exact ⟨u, hx, (roundToSignificand_eq_self_iff.mpr (fitsSignificand_of_place? hx)).symm⟩

/-- The two ways of an operation: exact on integers, and in floating point otherwise. -/
theorem combine_eq_ok {exact : ℤ → ℤ → ℤ} {rounded : Binary64 → Binary64 → Binary64}
    {a b c : Number} (h : combine exact rounded a b = .ok c) :
    (∃ m n, a = .int m ∧ b = .int n ∧ c = .int (exact m n)) ∨
      ∃ x y, a.toFloat = .ok x ∧ b.toFloat = .ok y ∧ c = .float (rounded x y) := by
  by_cases hints : ∃ m n, a = .int m ∧ b = .int n
  · obtain ⟨m, n, rfl, rfl⟩ := hints
    exact .inl ⟨m, n, rfl, rfl, (Except.ok.inj h).symm⟩
  · rw [combine] at h
    · obtain ⟨x, hx, h⟩ := bind_eq_ok_iff.mp h
      obtain ⟨y, hy, h⟩ := bind_eq_ok_iff.mp h
      exact .inr ⟨x, y, hx, hy, (Except.ok.inj h).symm⟩
    · intro m n ha hb
      exact hints ⟨m, n, ha, hb⟩

/-- Whether a number, if it is finite, is not negative. -/
def NotNegative (a : Number) : Prop := ∀ u, a.place? = some (.units u) → 0 ≤ u

theorem roundToSignificand_nonneg {u : ℤ} (h : 0 ≤ u) : 0 ≤ roundToSignificand u :=
  roundToSignificand_mono h

theorem notNegative_int_iff {n : ℤ} : NotNegative (.int n) ↔ 0 ≤ n := by
  have hpos : (0 : ℤ) < Binary64.unitsPerOne := Int.natCast_pos.mpr Binary64.unitsPerOne_pos
  constructor
  · intro h
    exact le_of_mul_le_mul_right ((Int.zero_mul _).trans_le (h _ rfl)) hpos
  · intro h u hu
    obtain rfl : n * Binary64.unitsPerOne = u := Place.units.inj (Option.some.inj hu)
    exact Int.mul_nonneg h hpos.le

theorem NotNegative.add {a b c : Number} (ha : a.NotNegative) (hb : b.NotNegative)
    (h : combine (· + ·) Binary64.add a b = .ok c) : c.NotNegative := by
  intro w hw
  obtain ⟨m, n, rfl, rfl, rfl⟩ | ⟨x, y, hx, hy, rfl⟩ := combine_eq_ok h
  · obtain rfl : (m + n) * Binary64.unitsPerOne = w := Place.units.inj (Option.some.inj hw)
    rw [Int.add_mul]
    exact Int.add_nonneg (ha _ rfl) (hb _ rfl)
  · obtain ⟨u, v, hu, hv, rfl⟩ := Binary64.units_of_add hw
    obtain ⟨u', hu', rfl⟩ := units_of_toFloat hx hu
    obtain ⟨v', hv', rfl⟩ := units_of_toFloat hy hv
    exact roundToSignificand_nonneg (Int.add_nonneg (roundToSignificand_nonneg (ha _ hu'))
      (roundToSignificand_nonneg (hb _ hv')))

theorem NotNegative.mul {a b c : Number} (ha : a.NotNegative) (hb : b.NotNegative)
    (h : combine (· * ·) Binary64.mul a b = .ok c) : c.NotNegative := by
  intro w hw
  obtain ⟨m, n, rfl, rfl, rfl⟩ | ⟨x, y, hx, hy, rfl⟩ := combine_eq_ok h
  · have hm : 0 ≤ m := notNegative_int_iff.mp ha
    have hn : 0 ≤ n := notNegative_int_iff.mp hb
    exact notNegative_int_iff.mpr (Int.mul_nonneg hm hn) w hw
  · obtain ⟨u, v, hu, hv, -, hsign⟩ := Binary64.units_of_mul hw
    obtain ⟨u', hu', rfl⟩ := units_of_toFloat hx hu
    obtain ⟨v', hv', rfl⟩ := units_of_toFloat hy hv
    exact hsign (roundToSignificand_nonneg (ha _ hu')) (roundToSignificand_nonneg (hb _ hv'))

/-- The distance from a number to one above it. -/
theorem notNegative_sub {a b c : Number} (hle : b.le a = true)
    (h : combine (· - ·) Binary64.sub a b = .ok c) : c.NotNegative := by
  intro w hw
  obtain ⟨m, n, rfl, rfl, rfl⟩ | ⟨x, y, hx, hy, rfl⟩ := combine_eq_ok h
  · obtain rfl : (m - n) * Binary64.unitsPerOne = w := Place.units.inj (Option.some.inj hw)
    rw [Int.sub_mul]
    exact Int.sub_nonneg.mpr ((le_iff_of_units rfl rfl).mp hle)
  · obtain ⟨u, v, hu, hv, rfl⟩ := Binary64.units_of_sub hw
    obtain ⟨u', hu', rfl⟩ := units_of_toFloat hx hu
    obtain ⟨v', hv', rfl⟩ := units_of_toFloat hy hv
    have hle := (le_iff_of_units hv' hu').mp hle
    exact roundToSignificand_nonneg (Int.sub_nonneg.mpr (roundToSignificand_mono hle))

/-- **A product with a draw below one stays below the integer.** Even where the integer is rounded
up, the value below the rounded one is below the integer. -/
theorem units_lt_of_mul {r c : Number} {k w : ℤ} (hk : 0 < k) (hr : r.NotNegative)
    (hr' : r.lt (.int 1) = true) (h : combine (· * ·) Binary64.mul r (.int k) = .ok c)
    (hw : c.place? = some (.units w)) : w < k * Binary64.unitsPerOne := by
  have hpos : (0 : ℤ) < Binary64.unitsPerOne := Int.natCast_pos.mpr Binary64.unitsPerOne_pos
  cases r with
  | int m =>
    obtain rfl : .int (m * k) = c := Except.ok.inj h
    obtain rfl : m * k * Binary64.unitsPerOne = w := Place.units.inj (Option.some.inj hw)
    have hm : 0 ≤ m := notNegative_int_iff.mp hr
    have hm' : m < 1 := by simpa [lt] using hr'
    obtain rfl : m = 0 := by omega
    rw [Int.zero_mul, Int.zero_mul]
    exact Int.mul_pos hk hpos
  | float x =>
    obtain ⟨_, hx, h⟩ := bind_eq_ok_iff.mp h
    obtain ⟨y, hy, h⟩ := bind_eq_ok_iff.mp h
    cases hx
    obtain rfl : .float (x.mul y) = c := Except.ok.inj h
    obtain ⟨u, v, hu, hv, hunits, -⟩ := Binary64.units_of_mul hw
    obtain ⟨v', hv', rfl⟩ := units_of_toFloat hy hv
    obtain rfl : k * Binary64.unitsPerOne = v' := Place.units.inj (Option.some.inj hv')
    have hlow : 0 ≤ u := hr u hu
    have hhigh : u < 1 * Binary64.unitsPerOne := (lt_iff_of_units hu rfl).mp hr'
    have hwidth : 1 * (Binary64.unitsPerOne : ℤ) ≤ k * Binary64.unitsPerOne :=
      Int.mul_le_mul_of_nonneg_right hk hpos.le
    obtain ⟨code, hcode⟩ := fitsSignificand_iff.mp (fitsSignificand_of_place? hu)
    rw [natAbs_roundToSignificand, ← hcode] at hunits
    have hlt := Binary64.unitsOfCode_roundToCode_mul_lt (c := code)
      (n := (k * Binary64.unitsPerOne).natAbs) (by omega) (by omega)
    omega

/-- No product with zero is anything else. -/
theorem units_of_zero_mul {r a c : Number} {w : ℤ} (hr : r.place? = some (.units 0))
    (h : combine (· * ·) Binary64.mul r a = .ok c) (hw : c.place? = some (.units w)) : w = 0 := by
  obtain ⟨m, n, rfl, rfl, rfl⟩ | ⟨x, y, hx, -, rfl⟩ := combine_eq_ok h
  · have hzero : m * (Binary64.unitsPerOne : ℤ) = 0 := Place.units.inj (Option.some.inj hr)
    obtain rfl : m * n * Binary64.unitsPerOne = w := Place.units.inj (Option.some.inj hw)
    rw [Int.mul_right_comm, hzero, Int.zero_mul]
  · obtain ⟨u, v, hu, -, hunits, -⟩ := Binary64.units_of_mul hw
    obtain ⟨u', hu', rfl⟩ := units_of_toFloat hx hu
    obtain rfl : u' = 0 := Place.units.inj (Option.some.inj (hu'.symm.trans hr))
    rw [show roundToSignificand 0 = 0 by decide, Int.natAbs_zero, Nat.zero_mul,
      Binary64.roundToCode_eq_zero (Nat.mul_zero 2 ▸ Binary64.unitsPerOne_pos)] at hunits
    exact Int.natAbs_eq_zero.mp hunits

/-- A number is at most what whole steps up from it lead to. -/
theorem le_of_add {low result : Number} {p : Place} {k : ℤ} (hk : 0 ≤ k)
    (hlow : low.place? = some p)
    (h : combine (· + ·) Binary64.add (.int k) low = .ok result) : low.le result = true := by
  have hpos : (0 : ℤ) ≤ Binary64.unitsPerOne := Int.natCast_nonneg _
  cases low with
  | int m =>
    obtain rfl : .int (k + m) = result := Except.ok.inj h
    rw [le_iff_of_units rfl rfl]
    exact Int.mul_le_mul_of_nonneg_right (by omega) hpos
  | float y =>
    obtain ⟨x, hx, h⟩ := bind_eq_ok_iff.mp h
    obtain ⟨_, hy, h⟩ := bind_eq_ok_iff.mp h
    cases hy
    obtain rfl : .float (x.add y) = result := Except.ok.inj h
    obtain ⟨s, c, rfl, hunits⟩ := exists_finite_of_toFloat hx
    cases y with
    | nan => cases hlow
    | infinite t => exact le_iff_place?.mpr ⟨p, p, hlow, hlow, .inr rfl⟩
    | finite t b =>
      have hsteps := roundToSignificand_nonneg (Int.mul_nonneg hk hpos)
      exact Binary64.le_ofUnits _ (by omega)

end Number

namespace Scalar

@[simp] theorem number?_ofNumber (a : Number) : (ofNumber a).number? = some a := by
  cases a <;> rfl

theorem ofNumber_injective : Function.Injective ofNumber := by
  intro a b h
  cases a <;> cases b <;> simp_all [ofNumber]

section Numeric

variable {a b value : Scalar} {m n : Number} (ha : a.number? = some m) (hb : b.number? = some n)

include ha hb

theorem numeric_eq_ok {operator : String} {operation : Number → Number → Except Fault Number}
    (h : numeric operator operation a b = .ok value) :
    ∃ c, operation m n = .ok c ∧ value = .ofNumber c := by
  rw [numeric, ha, hb] at h
  change ofNumber <$> operation m n = _ at h
  cases hc : operation m n with
  | error fault => rw [hc] at h; cases h
  | ok c => rw [hc] at h; exact ⟨c, rfl, (Except.ok.inj h).symm⟩

theorem add_eq_ok (h : a.add b = .ok value) :
    ∃ c, Number.combine (· + ·) Binary64.add m n = .ok c ∧ value = .ofNumber c := by
  cases a with
  | text => cases ha
  | _ => exact numeric_eq_ok ha hb h

theorem sub_eq_ok (h : a.sub b = .ok value) :
    ∃ c, Number.combine (· - ·) Binary64.sub m n = .ok c ∧ value = .ofNumber c :=
  numeric_eq_ok ha hb h

theorem mul_eq_ok (h : a.mul b = .ok value) :
    ∃ c, Number.combine (· * ·) Binary64.mul m n = .ok c ∧ value = .ofNumber c := by
  cases a with
  | text => cases ha
  | _ =>
    cases b with
    | text => cases hb
    | _ =>
      rw [mul] at h
      · exact numeric_eq_ok ha hb h
      all_goals exact fun _ htext => nomatch htext

end Numeric

theorem floor_eq_ok {m : Number} {k : ℤ} (h : (ofNumber m).floor = .ok k) :
    ∃ u, m.place? = some (.units u) ∧ k = u / Binary64.unitsPerOne := by
  have hpos : (Binary64.unitsPerOne : ℤ) ≠ 0 :=
    Int.natCast_ne_zero.mpr Binary64.unitsPerOne_pos.ne'
  cases m with
  | int n =>
    obtain rfl : n = k := Except.ok.inj h
    exact ⟨_, rfl, (Int.mul_ediv_cancel _ hpos).symm⟩
  | float x =>
    cases x with
    | finite s c => exact ⟨_, rfl, (Except.ok.inj h).symm⟩
    | _ => cases h

/-- The normal form of a number stands at its place. -/
theorem exists_normalize_ofNumber (a : Number) :
    ∃ b, (ofNumber a).normalize = .ofNumber b ∧ b.place? = a.place? := by
  cases a with
  | int n => exact ⟨.int n, rfl, rfl⟩
  | float x =>
    by_cases hwhole : x.isIntegral = true
    · cases x with
      | finite s c =>
        obtain ⟨n, hn⟩ : ∃ n, (Binary64.finite s c).truncate? = some n := ⟨_, rfl⟩
        refine ⟨.int n, by simp [ofNumber, normalize, hwhole, hn], ?_⟩
        rw [Number.place?, Number.place?, Binary64.truncate?_mul_unitsPerOne hwhole hn]
      | _ => cases hwhole
    · exact ⟨.float x, by simp [ofNumber, normalize, hwhole], rfl⟩

end Scalar

namespace Eval

theorem run_lift_eq_ok {α : Type} {result : Except Fault α} {state after : EvalState} {a : α}
    (h : (liftM result : Eval α).run state = (.ok a, after)) : result = .ok a ∧ after = state := by
  cases result with
  | ok b => cases h; exact ⟨rfl, rfl⟩
  | error fault => cases h

theorem run_lift_bind_eq_ok {α β : Type} {result : Except Fault α} {next : α → Eval β}
    {state after : EvalState} {b : β}
    (h : ((liftM result : Eval α) >>= next).run state = (.ok b, after)) :
    ∃ a, result = .ok a ∧ (next a).run state = (.ok b, after) := by
  obtain ⟨a, middle, hresult, hnext⟩ := run_bind_eq_ok h
  obtain ⟨hok, rfl⟩ := run_lift_eq_ok hresult
  exact ⟨a, hok, hnext⟩

/-- The value of a call is the normal form of what its function gives. -/
theorem exists_of_apply {env : Env} {name : String} {function : List Scalar → Eval Scalar}
    (hfunction : function? env name = some function) {args : List Scalar}
    {state after : EvalState} {value : Scalar}
    (h : (apply env name args).run state = (.ok value, after)) :
    ∃ result middle, (function args).run state = (.ok result, middle) ∧
      value = result.normalize := by
  rw [apply, hfunction] at h
  obtain ⟨result, middle, hresult, h⟩ := run_bind_eq_ok h
  obtain ⟨_, _, -, h⟩ := run_bind_eq_ok h
  cases h
  exact ⟨result, middle, hresult, rfl⟩

/-- How a random number comes about. -/
theorem exists_of_random {env : Env} {low high r : Number} {more : List Scalar}
    {state after : EvalState} {value : Scalar} (hdraw : (env.draw state.drawn).number? = some r)
    (h : (random env (.ofNumber low :: .ofNumber high :: more)).run state = (.ok value, after)) :
    ∃ distance width product steps result,
      Number.combine (· - ·) Binary64.sub high low = .ok distance ∧
      Number.combine (· + ·) Binary64.add distance (.int 1) = .ok width ∧
      Number.combine (· * ·) Binary64.mul r width = .ok product ∧
      (Scalar.ofNumber product).floor = .ok steps ∧
      Number.combine (· + ·) Binary64.add (.int steps) low = .ok result ∧
      value = .ofNumber result := by
  rw [random] at h
  obtain ⟨ordered, -, h⟩ := run_lift_bind_eq_ok h
  cases ordered with
  | true => cases h
  | false =>
    obtain ⟨draw, _, hdrawn, h⟩ := run_bind_eq_ok h
    cases hdrawn
    obtain ⟨difference, hdifference, h⟩ := run_lift_bind_eq_ok h
    obtain ⟨sum, hsum, h⟩ := run_lift_bind_eq_ok h
    obtain ⟨scaled, hscaled, h⟩ := run_lift_bind_eq_ok h
    obtain ⟨steps, hsteps, h⟩ := run_lift_bind_eq_ok h
    obtain ⟨hvalue, -⟩ := run_lift_eq_ok h
    obtain ⟨distance, hdistance, rfl⟩ := Scalar.sub_eq_ok (Scalar.number?_ofNumber _)
      (Scalar.number?_ofNumber _) hdifference
    obtain ⟨width, hwidth, rfl⟩ := Scalar.add_eq_ok (Scalar.number?_ofNumber _) rfl hsum
    obtain ⟨product, hproduct, rfl⟩ := Scalar.mul_eq_ok hdraw (Scalar.number?_ofNumber _) hscaled
    obtain ⟨result, hresult, rfl⟩ := Scalar.add_eq_ok rfl (Scalar.number?_ofNumber _) hvalue
    exact ⟨distance, width, product, steps, result, hdistance, hwidth, hproduct, hsteps, hresult,
      rfl⟩

end Eval

/-- Nothing is added to a number by no steps. -/
theorem Scalar.normalize_zero_add {low result : Number}
    (h : Number.combine (· + ·) Binary64.add (.int 0) low = .ok result) :
    (ofNumber result).normalize = (ofNumber low).normalize := by
  cases low with
  | int m =>
    obtain rfl : .int (0 + m) = result := Except.ok.inj h
    rw [Int.zero_add]
  | float y =>
    obtain ⟨x, hx, h⟩ := bind_eq_ok_iff.mp h
    obtain ⟨_, hy, h⟩ := bind_eq_ok_iff.mp h
    cases hy
    obtain rfl : .float (x.add y) = result := Except.ok.inj h
    obtain ⟨s, c, rfl, hunits⟩ := Number.exists_finite_of_toFloat hx
    cases y with
    | finite t b =>
      rw [Binary64.add, hunits, Int.zero_mul, show roundToSignificand 0 = 0 by decide, Int.zero_add]
      by_cases hzero : Binary64.unitsOfCode b = 0
      · have hzero' : Binary64.signedUnits t b = 0 := by
          rw [← Int.natAbs_eq_zero, Binary64.natAbs_signedUnits, hzero]
        rw [hzero', Binary64.ofUnits, if_pos rfl, Int.natAbs_zero,
          Binary64.ofRatio_eq_signedZero _ (by decide), Binary64.signedZero, ofNumber, ofNumber,
          normalize_finite (m := 0) (by rw [Nat.zero_mul]; rfl),
          normalize_finite (m := 0) (by rw [Nat.zero_mul, hzero])]
        simp
      · have hsign : decide (Binary64.signedUnits t b < 0) = t := by
          cases t <;> simp [Binary64.signedUnits]; omega
        have hne : Binary64.signedUnits t b ≠ 0 := by
          cases t <;> simp [Binary64.signedUnits, hzero]
        rw [Binary64.ofUnits, if_neg hne, hsign, Binary64.natAbs_signedUnits,
          Binary64.ofRatio_unitsOfCode]
    | _ => rfl

/-! ## Random numbers -/

section Steps

variable {low high r distance width product : Number} {steps : ℤ}
  (hdistance : Number.combine (· - ·) Binary64.sub high low = .ok distance)
  (hwidth : Number.combine (· + ·) Binary64.add distance (.int 1) = .ok width)
  (hproduct : Number.combine (· * ·) Binary64.mul r width = .ok product)
  (hsteps : (Scalar.ofNumber product).floor = .ok steps)

include hdistance hwidth hproduct hsteps

/-- The steps go up. -/
theorem steps_nonneg (hle : low.le high = true) (hr : r.NotNegative) : 0 ≤ steps := by
  obtain ⟨w, hw, rfl⟩ := Scalar.floor_eq_ok hsteps
  have hone : Number.NotNegative (.int 1) := Number.notNegative_int_iff.mpr Int.one_nonneg
  have hwide : width.NotNegative := (Number.notNegative_sub hle hdistance).add hone hwidth
  exact Int.ediv_nonneg (hr.mul hwide hproduct w hw) (Int.natCast_nonneg _)

/-- Between integers they do not lead beyond the upper bound. -/
theorem steps_le {m n : ℤ} (hlow : low = .int m) (hhigh : high = .int n) (hle : m ≤ n)
    (hr : r.NotNegative) (hr' : r.lt (.int 1) = true) : steps ≤ n - m := by
  subst hlow hhigh
  obtain rfl : .int (n - m) = distance := Except.ok.inj hdistance
  obtain rfl : .int (n - m + 1) = width := Except.ok.inj hwidth
  obtain ⟨w, hw, rfl⟩ := Scalar.floor_eq_ok hsteps
  have hlt := Number.units_lt_of_mul (by omega) hr hr' hproduct hw
  have hpos : (0 : ℤ) < Binary64.unitsPerOne := Int.natCast_pos.mpr Binary64.unitsPerOne_pos
  exact Int.le_of_lt_add_one (Int.ediv_lt_of_lt_mul hpos hlt)

omit hdistance hwidth in
/-- A draw of zero takes none. -/
theorem steps_eq_zero (hr : r.same (.int 0) = true) : steps = 0 := by
  obtain ⟨p, hplace, hzero⟩ := Number.same_iff_place?.mp hr
  obtain rfl : Place.units (0 * Binary64.unitsPerOne) = p := Option.some.inj hzero
  rw [Int.zero_mul] at hplace
  obtain ⟨w, hw, rfl⟩ := Scalar.floor_eq_ok hsteps
  rw [Number.units_of_zero_mul hplace hproduct hw, Int.zero_ediv]

end Steps

/-- **Random numbers are whole steps above the lower bound.** Let the arguments of `random` have the
values `low`, `high` and possibly more, with `low` not above `high`, and let the draw be a number
from zero up to but not including one. Whatever value comes out is a number that is not below `low`.
If `low` is an integer, it is one too; if both bounds are, however large, it is not above `high`
either. A draw of zero gives `low` itself, so that a bound that is not whole comes out as it is. -/
theorem random_within {env : Env} {depth : ℤ} {args : List Node} {low high r : Number}
    {more : List Scalar} {state middle after : EvalState} {value : Scalar}
    (hargs : (evaluateAll env (depth + 1) args).run state
      = (.ok (.ofNumber low :: .ofNumber high :: more), middle))
    (hle : low.le high = true) (hdraw : (env.draw middle.drawn).number? = some r)
    (hr : Number.le (.int 0) r = true) (hr' : r.lt (.int 1) = true)
    (hrun : (evaluate env depth (.call "random" args)).run state = (.ok value, after)) :
    ∃ result, value = .ofNumber result ∧ low.le result = true ∧
      (∀ m, low = .int m → ∃ k, result = .int k) ∧
      (∀ m n, low = .int m → high = .int n → result.le high = true) ∧
      (r.same (.int 0) = true → value = (Scalar.ofNumber low).normalize) := by
  have hguard : ¬maxEvalDepth < depth := by
    intro hlt
    rw [evaluate_of_lt env hlt] at hrun
    cases hrun
  rw [evaluate_call env hguard] at hrun
  obtain ⟨values, _, hvalues, hrun⟩ := Eval.run_bind_eq_ok hrun
  rw [hargs] at hvalues
  cases hvalues
  rw [if_neg (by decide)] at hrun
  have hfunction : Eval.function? env "random" = some (Eval.random env) := rfl
  obtain ⟨_, _, hrandom, rfl⟩ := Eval.exists_of_apply hfunction hrun
  obtain ⟨distance, width, product, steps, sum, hdistance, hwidth, hproduct, hsteps, hsum, rfl⟩ :=
    Eval.exists_of_random hdraw hrandom
  have hnonneg : r.NotNegative := by
    intro u hu
    have hzero := (Number.le_iff_of_units rfl hu).mp hr
    rwa [Int.zero_mul] at hzero
  obtain ⟨p, -, hp, -, -⟩ := Number.le_iff_place?.mp hle
  have hup := steps_nonneg hdistance hwidth hproduct hsteps hle hnonneg
  obtain ⟨result, hresult, hplace⟩ := Scalar.exists_normalize_ofNumber sum
  refine ⟨result, hresult, ?_, ?_, ?_, fun hsame => ?_⟩
  · have hlow := Number.le_of_add hup hp hsum
    rw [Number.le_iff_place?, ← hplace] at hlow
    exact Number.le_iff_place?.mpr hlow
  · rintro m rfl
    obtain rfl : .int (steps + m) = sum := Except.ok.inj hsum
    exact ⟨steps + m, Scalar.ofNumber_injective hresult.symm⟩
  · rintro m n rfl rfl
    obtain rfl : .int (steps + m) = sum := Except.ok.inj hsum
    have hmn : m ≤ n := by simpa [Number.le, Number.lt, Number.same, Int.le_iff_lt_or_eq] using hle
    have hsteps := steps_le hdistance hwidth hproduct hsteps rfl rfl hmn hnonneg hr'
    rw [Number.le_iff_of_units hplace rfl]
    exact Int.mul_le_mul_of_nonneg_right (by omega) (Int.natCast_nonneg _)
  · rw [steps_eq_zero hproduct hsteps hsame] at hsum
    exact Scalar.normalize_zero_add hsum

theorem eq_of_toOption {α : Type} {outcome : Except Fault α × EvalState} {a : α}
    (h : outcome.1.toOption = some a) : outcome = (.ok a, outcome.2) := by
  obtain ⟨result, after⟩ := outcome
  cases result with
  | ok b => rw [Option.some.inj h]
  | error fault => cases h

/-- Every draw is the last value below one. -/
def lastDrawEnv : Env := ⟨⟨[]⟩, fun _ => .float (.finite false ⟨4607182418800017407, by decide⟩)⟩

/-- `random(3, 18014398509481989)`, of which the width is rounded up. -/
def wideRandom : Node := .call "random" [.number (.int 3), .number (.int 18014398509481989)]

theorem random_within_wide : ∃ result after,
    (evaluate lastDrawEnv 0 wideRandom).run ⟨#[], 5⟩ = (.ok (.ofNumber result), after) ∧
      Number.le (.int 3) result = true ∧ result.le (.int 18014398509481989) = true := by
  have hvalue : ((evaluate lastDrawEnv 0 wideRandom).run ⟨#[], 5⟩).1.toOption
    = some (.int 18014398509481987) := by decide +kernel
  have hrun := eq_of_toOption hvalue
  have hargs : (evaluateAll lastDrawEnv (0 + 1)
      [.number (.int 3), .number (.int 18014398509481989)]).run ⟨#[], 5⟩
      = (.ok [.ofNumber (.int 3), .ofNumber (.int 18014398509481989)], ⟨#[], 5⟩) := rfl
  obtain ⟨result, hresult, hlow, -, hhigh, -⟩ := random_within hargs (by decide +kernel) rfl
    (by decide +kernel) (by decide +kernel) hrun
  exact ⟨result, _, hresult ▸ hrun, hlow, hhigh _ _ rfl rfl⟩

/-- Every draw is three quarters. -/
def threeQuartersEnv : Env :=
  ⟨⟨[]⟩, fun _ => .float (.finite false ⟨4604930618986332160, by decide⟩)⟩

/-- From one half to one it gives one and a half, which is neither whole nor within the bounds. -/
theorem random_half_exceeds : ∃ x : Binary64,
    ((evaluate threeQuartersEnv 0 (.call "random" [.call "div" [.number (.int 1),
      .number (.int 2)], .number (.int 1)])).run ⟨#[], 5⟩).1.toOption = some (.float x) ∧
      x.isIntegral = false ∧ Number.lt (.int 1) (.float x) = true :=
  ⟨.finite false ⟨4609434218613702656, by decide⟩, by decide +kernel⟩

end TileScript
