import TileScript.Proofs.Evaluation.Depth
import TileScript.Proofs.Number.Nearest

/-!
# Quotients and remainders of integers

Sums, differences and products of integers are exact. Quotients and remainders pass through floating
point and are turned back into integers: a remainder is that of the rounded terms, and a quotient
without remainder is rounded itself. Integers of at most 53 significant bits are not changed by
that, and beyond them the result can be another integer.

## Main statements

* `Binary64.normalize_remainder`: the remainder of two integers is that of the rounded ones.
* `Number.div_of_dvd`: a quotient without remainder is rounded once.
* `evaluate_mod_div`: what `mod` and `div` give for two integers.
-/

namespace TileScript

/-- Only zero is rounded to zero. -/
theorem roundToSignificand_ne_zero {n : ℤ} (h : n ≠ 0) : roundToSignificand n ≠ 0 := by
  have hone : Binary64.unitsOfCode 1 * 1 ≤ n.natAbs := Int.natAbs_pos.mpr h
  have hle := Binary64.unitsOfCode_strictMono.monotone (Binary64.le_roundToCode Nat.one_pos hone)
  rw [← natAbs_roundToSignificand] at hle
  exact Int.natAbs_pos.mp hle

/-- A remainder toward zero is one of magnitudes, with the sign of the dividend. -/
theorem tmod_natAbs (negative : Bool) (m : ℕ) (n : ℤ) :
    (if negative then -(m : ℤ) else m).tmod n
      = if negative then -((m % n.natAbs : ℕ) : ℤ) else (m % n.natAbs : ℕ) := by
  have hmod : (m : ℤ).tmod n = (m % n.natAbs : ℕ) := by
    rcases Int.natAbs_eq n with hn | hn
    · rw [hn, Int.natAbs_natCast, Int.ofNat_tmod]
    · rw [hn, Int.tmod_neg, Int.natAbs_neg, Int.natAbs_natCast, Int.ofNat_tmod]
  cases negative with
  | false => exact hmod
  | true => simp only [if_true, Int.neg_tmod, hmod]

namespace Binary64

/-- The remainder of two integers in floating point is that of the rounded integers. -/
theorem normalize_remainder {a b : ℤ} (hb : b ≠ 0) (ha : a.natAbs < 10 ^ 300)
    (hb' : b.natAbs < 10 ^ 300) :
    ∃ x y, ofInt? a = some x ∧ ofInt? b = some y ∧ x.isFinite = true ∧
      (Scalar.float (x.remainder y)).normalize
        = .int ((roundToSignificand a).tmod (roundToSignificand b)) := by
  obtain ⟨c, hc, hcunits⟩ := exists_ofInt? ha
  obtain ⟨d, hd, hdunits⟩ := exists_ofInt? hb'
  refine ⟨_, _, hc, hd, rfl, ?_⟩
  have hzero : d.val ≠ 0 := by
    intro h
    rw [h] at hdunits
    have hpos := Nat.mul_pos (Int.natAbs_pos.mpr (roundToSignificand_ne_zero hb)) unitsPerOne_pos
    exact hpos.ne hdunits
  -- The remainder is a magnitude itself, so the rounding after it does nothing.
  obtain ⟨rest, hle, hrest⟩ := exists_code_mod c hzero
  have hvalue := ofRatio_unitsOfCode (decide (a < 0)) ⟨rest, hle.trans_lt c.isLt⟩
  rw [hcunits, hdunits, Nat.mul_mod_mul_right] at hrest
  have hsigned : (if decide (a < 0) then -((roundToSignificand a).natAbs : ℤ)
      else (roundToSignificand a).natAbs) = roundToSignificand a :=
    signed_natAbs_roundToSignificand fun _ => decide_eq_true_iff
  rw [remainder, if_neg hzero, hcunits, hdunits, Nat.mul_mod_mul_right, ← hrest, hvalue,
    Scalar.normalize_finite hrest, ← tmod_natAbs, hsigned]

end Binary64

/-- A quotient without remainder is rounded once. -/
theorem Number.div_of_dvd {a b : ℤ} (hb : b ≠ 0) (ha : a.natAbs < 10 ^ 300) (h : b ∣ a) :
    ∃ x, Number.div (.int a) (.int b) = .ok (.float x) ∧
      (Scalar.float x).normalize = .int (roundToSignificand (a / b)) := by
  obtain ⟨q, rfl⟩ := h
  have hpos : 0 < b.natAbs := Int.natAbs_pos.mpr hb
  have hq : q.natAbs < 10 ^ 300 := by
    refine lt_of_le_of_lt ?_ ha
    rw [Int.natAbs_mul]
    exact Nat.le_mul_of_pos_left _ hpos
  obtain ⟨code, hcode, hunits⟩ :=
    Binary64.exists_ofRatio_int (decide (b * q < 0) != decide (b < 0)) hq
  have hround : Binary64.roundToCode ((b * q).natAbs * Binary64.unitsPerOne) b.natAbs
      = Binary64.roundToCode (q.natAbs * Binary64.unitsPerOne) 1 := by
    have hcancel := Binary64.roundToCode_mul_left hpos (q.natAbs * Binary64.unitsPerOne) 1
    rwa [Nat.mul_one, ← Nat.mul_assoc, ← Int.natAbs_mul] at hcancel
  have hsign : q ≠ 0 → ((decide (b * q < 0) != decide (b < 0)) = true ↔ q < 0) := by
    intro hq
    rcases lt_or_gt_of_ne hb with hneg | hpos
    · have hle : q < 0 ↔ q ≤ 0 := ⟨le_of_lt, fun h => lt_of_le_of_ne h hq⟩
      simp [mul_neg_iff, hneg, hneg.not_gt, hle]
    · simp [mul_neg_iff, hpos, hpos.not_gt]
  refine ⟨.finite (decide (b * q < 0) != decide (b < 0)) code, ?_, ?_⟩
  · rw [Number.div, Binary64.ofRatio, hround, ← Binary64.ofRatio, hcode]
    rfl
  · rw [Scalar.normalize_finite hunits, Int.mul_ediv_cancel_left _ hb,
      signed_natAbs_roundToSignificand hsign]

namespace Eval

theorem same_zero_eq_false {b : ℤ} (hb : b ≠ 0) : (Scalar.int b).same (.int 0) = false := by
  simpa [Scalar.same, Scalar.number?, Number.same] using hb

/-- The remainder of two integers. -/
theorem exists_modulus_int {a b : ℤ} (hb : b ≠ 0) (ha : a.natAbs < 10 ^ 300)
    (hb' : b.natAbs < 10 ^ 300) : ∃ x, modulus [.int a, .int b] = .ok (.float x) ∧
      (Scalar.float x).normalize = .int ((roundToSignificand a).tmod (roundToSignificand b)) := by
  obtain ⟨x, y, hx, hy, hfinite, hvalue⟩ := Binary64.normalize_remainder hb ha hb'
  refine ⟨x.remainder y, ?_, hvalue⟩
  have hxfloat : (Scalar.int a).toFloat = .ok x := Number.toFloat_int_eq_ok_iff.mpr hx
  have hyfloat : (Scalar.int b).toFloat = .ok y := Number.toFloat_int_eq_ok_iff.mpr hy
  rw [modulus, List.foldlM_cons, same_zero_eq_false hb, Scalar.remainder, hxfloat, hyfloat]
  cases x with
  | finite => rfl
  | _ => cases hfinite

/-- The quotient of two integers without remainder. -/
theorem exists_quotient_int {a b : ℤ} (hb : b ≠ 0) (ha : a.natAbs < 10 ^ 300) (h : b ∣ a) :
    ∃ x, quotient [.int a, .int b] = .ok (.float x) ∧
      (Scalar.float x).normalize = .int (roundToSignificand (a / b)) := by
  obtain ⟨x, hx, hvalue⟩ := Number.div_of_dvd hb ha h
  refine ⟨x, ?_, hvalue⟩
  have hdiv : (Scalar.int a).div (.int b) = .ok (.float x) := by
    change Scalar.ofNumber <$> Number.div (.int a) (.int b) = _
    rw [hx]
    rfl
  rw [quotient, List.foldlM_cons, same_zero_eq_false hb, hdiv]
  rfl

/-- A call on integers of at most 300 digits that gives a whole number in floating point. -/
theorem exists_run_call {env : Env} {depth : ℤ} (hdepth : depth ≤ maxEvalDepth) {name : String}
    (hname : name ≠ "ref") {operation : List Scalar → Eval Scalar}
    (hoperation : function? env name = some operation) {args : List Node} (values : List ℤ)
    {state middle : EvalState}
    (hargs : (evaluateAll env (depth + 1) args).run state = (.ok (values.map .int), middle))
    (hvalues : ∀ m ∈ values, m.natAbs < 10 ^ 300) {x : Binary64} {n : ℤ}
    (hcomputes : Computes [] (operation (values.map .int)) (.float x))
    (hvalue : (Scalar.float x).normalize = .int n) :
    ∃ trace, (evaluate env depth (.call name args)).run state =
      (.ok (.int n), ⟨trace, middle.drawn⟩) := by
  have hresult : n.natAbs < Scalar.writtenBound := by
    have hwritten := Scalar.written_normalize_float x
    rwa [hvalue, Scalar.written_int_iff] at hwritten
  have hall : areWritten (values ++ [n]) = true := by
    simp only [areWritten, List.all_append, List.all_cons, List.all_nil, Bool.and_true,
      Bool.and_eq_true, List.all_eq_true, decide_eq_true_eq]
    exact ⟨fun m hm => (hvalues m hm).trans_le (Scalar.ten_pow_le_writtenBound (by decide)),
      hresult⟩
  obtain ⟨trace, hrun⟩ := computes_apply_of_function hoperation hcomputes hvalue middle
  refine ⟨trace, ?_⟩
  rw [evaluate_call env hdepth.not_gt, run_bind, hargs]
  simp only [hname, if_false, hrun, hall, if_true]

end Eval

open Eval

section Calls

variable {env : Env} {depth : ℤ} (hdepth : depth ≤ maxEvalDepth) {x y : Node} {a b : ℤ}
  {state middle : EvalState}
  (hargs : (evaluateAll env (depth + 1) [x, y]).run state = (.ok [.int a, .int b], middle))
  (hb : b ≠ 0) (ha : a.natAbs < 10 ^ 300) (hb' : b.natAbs < 10 ^ 300)

include hdepth hargs hb ha hb'

/-- The remainder of two integers is that of the integers that floating point keeps. -/
theorem exists_run_mod : ∃ trace, (evaluate env depth (.call "mod" [x, y])).run state =
    (.ok (.int ((roundToSignificand a).tmod (roundToSignificand b))), ⟨trace, middle.drawn⟩) := by
  obtain ⟨r, hr, hvalue⟩ := exists_modulus_int hb ha hb'
  exact exists_run_call hdepth (by decide) rfl [a, b] hargs
    (List.forall_mem_cons.mpr ⟨ha, List.forall_mem_singleton.mpr hb'⟩) (.lift hr) hvalue

/-- The quotient of two integers without remainder is the integer that floating point keeps. -/
theorem exists_run_div (h : b ∣ a) :
    ∃ trace, (evaluate env depth (.call "div" [x, y])).run state =
      (.ok (.int (roundToSignificand (a / b))), ⟨trace, middle.drawn⟩) := by
  obtain ⟨q, hq, hvalue⟩ := exists_quotient_int hb ha h
  exact exists_run_call hdepth (by decide) rfl [a, b] hargs
    (List.forall_mem_cons.mpr ⟨ha, List.forall_mem_singleton.mpr hb'⟩) (.lift hq) hvalue

end Calls

/-- **Quotients and remainders of integers are rounded.** Take two expressions whose values are
integers `a` and `b` of at most 300 digits, with `b` not zero. Their remainder is the remainder
toward zero of the integers that floating point keeps in their place; if `b` divides `a`, their
quotient is the integer that floating point keeps in place of it. So the remainder is exact if both
integers have at most 53 significant bits, and the quotient is exact if and only if it has no more
itself. -/
theorem evaluate_mod_div (env : Env) {depth : ℤ} (hdepth : depth ≤ maxEvalDepth) {x y : Node}
    {a b : ℤ} {state middle : EvalState}
    (hargs : (evaluateAll env (depth + 1) [x, y]).run state = (.ok [.int a, .int b], middle))
    (hb : b ≠ 0) (ha : a.natAbs < 10 ^ 300) (hb' : b.natAbs < 10 ^ 300) :
    (∃ trace, (evaluate env depth (.call "mod" [x, y])).run state =
      (.ok (.int ((roundToSignificand a).tmod (roundToSignificand b))), ⟨trace, middle.drawn⟩)) ∧
    (FitsSignificand a → FitsSignificand b →
      (roundToSignificand a).tmod (roundToSignificand b) = a.tmod b) ∧
    (b ∣ a → ∃ trace, (evaluate env depth (.call "div" [x, y])).run state =
      (.ok (.int (roundToSignificand (a / b))), ⟨trace, middle.drawn⟩)) ∧
    (roundToSignificand (a / b) = a / b ↔ FitsSignificand (a / b)) := by
  refine ⟨exists_run_mod hdepth hargs hb ha hb', fun hfita hfitb => ?_,
    exists_run_div hdepth hargs hb ha hb', roundToSignificand_eq_self_iff⟩
  rw [roundToSignificand_eq_self_iff.mpr hfita, roundToSignificand_eq_self_iff.mpr hfitb]

/-- `sub(0, 9007199254740993)`, of which the number has 54 significant bits. -/
def oddExpression : Node := .call "sub" [.number (.int 0), .number (.int 9007199254740993)]

/-- Its negative is a multiple of three, and has a remainder by three. -/
theorem evaluate_mod_div_odd :
    (∃ trace, (evaluate longEnv 0 (.call "mod" [oddExpression, .number (.int 3)])).run ⟨#[], 7⟩ =
      (.ok (.int (-2)), ⟨trace, 7⟩)) ∧
    ∃ trace, (evaluate longEnv 0 (.call "div" [oddExpression, .number (.int 3)])).run ⟨#[], 7⟩ =
      (.ok (.int (-3002399751580331)), ⟨trace, 7⟩) := by
  have hvalues : Node.integers? longEnv.vars [oddExpression, .number (.int 3)] =
    some [-9007199254740993, 3] := rfl
  have hdepth : 0 + 1 + (Node.argumentHeight [oddExpression, .number (.int 3)] : ℤ)
    ≤ maxEvalDepth + 1 := by decide
  obtain ⟨trace, hargs⟩ := computes_evaluateAll longEnv _ hvalues hdepth ⟨#[], 7⟩
  rw [if_pos (by decide +kernel)] at hargs
  have hall := evaluate_mod_div longEnv (by decide) hargs (by decide) (by decide +kernel)
    (by decide +kernel)
  exact ⟨hall.1, hall.2.2.1 (by decide)⟩

/-- An odd integer without remainder by two, that is another integer when divided by one. -/
theorem mod_div_inexact :
    (∃ trace, (evaluate longEnv 0
        (.call "mod" [.number (.int 9007199254740993), .number (.int 2)])).run ⟨#[], 7⟩ =
      (.ok (.int 0), ⟨trace, 7⟩)) ∧ Int.tmod 9007199254740993 2 = 1 ∧
    ∃ trace, (evaluate longEnv 0
        (.call "div" [.number (.int 9007199254740993), .number (.int 1)])).run ⟨#[], 7⟩ =
      (.ok (.int 9007199254740992), ⟨trace, 7⟩) := by
  have hmod : (evaluateAll longEnv (0 + 1)
      [.number (.int 9007199254740993), .number (.int 2)]).run ⟨#[], 7⟩ =
      (.ok [.int 9007199254740993, .int 2], ⟨#[], 7⟩) := rfl
  have hdiv : (evaluateAll longEnv (0 + 1)
      [.number (.int 9007199254740993), .number (.int 1)]).run ⟨#[], 7⟩ =
      (.ok [.int 9007199254740993, .int 1], ⟨#[], 7⟩) := rfl
  exact ⟨exists_run_mod (by decide) hmod (by decide) (by decide +kernel) (by decide +kernel), rfl,
    exists_run_div (by decide) hdiv (by decide) (by decide +kernel) (by decide +kernel) (by decide)⟩

end TileScript
