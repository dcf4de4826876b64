import TileScript.Proofs.Evaluation.Random
import TileScript.Proofs.Table

/-!
# Values of expressions in normal form

Whatever an expression of the grammar evaluates to is a number in normal form that can be written,
as long as the variables are such numbers. The functions give numbers for numbers, whatever the
draws are; a call gives the normal form of what its function gives, and writes it into the trace.

## Main definitions

* `Scalar.IsNumeric`, `Scalar.IsNormal`: numbers, and numbers as programs store them.

## Main statements

* `Eval.gives_isNumeric_function`: functions of numbers give numbers.
* `gives_isNormal_evaluate`: values of expressions are in normal form.
-/

namespace TileScript

namespace Scalar

/-- An integer or a floating point number. -/
def IsNumeric (value : Scalar) : Prop := ∃ number, value = .ofNumber number

/-- A number as programs store it: an integer of at most 4300 digits, or a floating point number
that is not a finite whole one. -/
def IsNormal : Scalar → Prop
  | .int n => n.natAbs < writtenBound
  | .float x => x.isIntegral = false
  | .null | .bool _ | .text _ => False

theorem isNumeric_int (n : ℤ) : IsNumeric (.int n) := ⟨.int n, rfl⟩

theorem isNumeric_float (x : Binary64) : IsNumeric (.float x) := ⟨.float x, rfl⟩

theorem isNormal_zero : IsNormal (.int 0) := written_int_iff.mp written_zero

theorem IsNormal.isNumeric {value : Scalar} (h : value.IsNormal) : value.IsNumeric := by
  cases value with
  | int n => exact isNumeric_int n
  | float x => exact isNumeric_float x
  | null | bool | text => exact h.elim

theorem IsNormal.written {value : Scalar} (h : value.IsNormal) : value.Written := by
  cases value with
  | int n => exact written_int_iff.mpr h
  | _ => rfl

/-- The normal form of a number is in normal form if it can be written. -/
theorem IsNumeric.normalize {value : Scalar} (h : value.IsNumeric)
    (hwritten : value.normalize.Written) : value.normalize.IsNormal := by
  obtain ⟨_ | x, rfl⟩ := h
  · exact written_int_iff.mp hwritten
  · by_cases hwhole : x.isIntegral = true
    · cases htruncate : x.truncate? with
      | some n =>
        have hint : (Scalar.float x).normalize = .int n := by
          simp [Scalar.normalize, hwhole, htruncate]
        change (Scalar.float x).normalize.Written at hwritten
        change (Scalar.float x).normalize.IsNormal
        rw [hint] at hwritten ⊢
        exact written_int_iff.mp hwritten
      | none => cases x <;> cases htruncate <;> cases hwhole
    · have hsame : (Scalar.float x).normalize = .float x := by simp [Scalar.normalize, hwhole]
      change (Scalar.float x).normalize.IsNormal
      rw [hsame]
      exact Bool.eq_false_of_not_eq_true hwhole

theorem isNormal_normalize_float (x : Binary64) : (Scalar.float x).normalize.IsNormal :=
  (isNumeric_float x).normalize (written_normalize_float x)

theorem IsNormal.normalize {value : Scalar} (h : value.IsNormal) : value.normalize.IsNormal :=
  h.isNumeric.normalize h.written.normalize

/-! ## Arithmetic -/

section Arithmetic

variable {a b value : Scalar}

theorem isNumeric_of_numeric {operator : String}
    {operation : Number → Number → Except Fault Number}
    (h : numeric operator operation a b = .ok value) : value.IsNumeric := by
  rw [numeric] at h
  split at h
  · obtain ⟨c, -, h⟩ := bind_eq_ok_iff.mp h
    cases h
    exact ⟨c, rfl⟩
  · cases h

theorem IsNumeric.add (ha : a.IsNumeric) (h : a.add b = .ok value) : value.IsNumeric := by
  obtain ⟨_ | _, rfl⟩ := ha <;> exact isNumeric_of_numeric h

theorem isNumeric_sub (h : a.sub b = .ok value) : value.IsNumeric := isNumeric_of_numeric h

theorem IsNumeric.mul (ha : a.IsNumeric) (hb : b.IsNumeric) (h : a.mul b = .ok value) :
    value.IsNumeric := by
  obtain ⟨m, rfl⟩ := ha
  obtain ⟨n, rfl⟩ := hb
  obtain ⟨c, -, rfl⟩ := mul_eq_ok (number?_ofNumber m) (number?_ofNumber n) h
  exact ⟨c, rfl⟩

theorem isNumeric_div (h : a.div b = .ok value) : value.IsNumeric := isNumeric_of_numeric h

theorem isNumeric_remainder (h : a.remainder b = .ok value) : value.IsNumeric := by
  obtain ⟨x, -, h⟩ := bind_eq_ok_iff.mp h
  obtain ⟨y, -, h⟩ := bind_eq_ok_iff.mp h
  split at h
  · cases h
  · cases h
  · cases h
    exact isNumeric_float _

theorem isNumeric_neg (h : a.neg = .ok value) : value.IsNumeric := by
  rw [neg] at h
  split at h
  · cases h
    exact isNumeric_int _
  · cases h
    exact isNumeric_float _
  · cases h

end Arithmetic

end Scalar

/-! ## Functions -/

namespace Eval

open Scalar

/-- A fold whose steps keep a property has a result with it. -/
theorem foldlM_keeps {P Q : Scalar → Prop} {step : Scalar → Scalar → Except Fault Scalar}
    (hstep : ∀ {a b value}, P a → Q b → step a b = .ok value → P value) {args : List Scalar}
    (hargs : ∀ arg ∈ args, Q arg) {a value : Scalar} (ha : P a)
    (h : args.foldlM step a = .ok value) : P value := by
  induction args generalizing a with
  | nil => cases h; exact ha
  | cons b args ih =>
    rw [List.foldlM_cons] at h
    obtain ⟨hb, hrest⟩ := List.forall_mem_cons.mp hargs
    obtain ⟨c, hc, h⟩ := bind_eq_ok_iff.mp h
    exact ih hrest (hstep ha hb hc) h

theorem gives_lift {P : Scalar → Prop} {result : Except Fault Scalar}
    (h : ∀ value, result = .ok value → P value) : Gives P (liftM result : Eval Scalar) := by
  intro state value after hrun
  exact h value (run_lift_eq_ok hrun).1

section Functions

variable {args : List Scalar} {value : Scalar}

theorem isNumeric_sum (h : sum args = .ok value) : value.IsNumeric :=
  foldlM_keeps (Q := fun _ => True) (fun ha _ => ha.add) (fun _ _ => trivial) (isNumeric_int 0) h

variable (hargs : ∀ arg ∈ args, arg.IsNumeric)
include hargs

theorem isNumeric_difference (h : difference args = .ok value) : value.IsNumeric := by
  unfold difference at h
  split at h
  · cases h
    exact isNumeric_int 0
  · exact isNumeric_neg h
  · obtain ⟨ha, hrest⟩ := List.forall_mem_cons.mp hargs
    exact foldlM_keeps (fun _ _ => isNumeric_sub) hrest ha h

theorem isNumeric_product (h : product args = .ok value) : value.IsNumeric :=
  foldlM_keeps (fun ha hb => ha.mul hb) hargs (isNumeric_int 1) h

theorem isNumeric_quotient (h : quotient args = .ok value) : value.IsNumeric := by
  unfold quotient at h
  split at h
  · cases h
  · obtain ⟨ha, hrest⟩ := List.forall_mem_cons.mp hargs
    refine foldlM_keeps (fun _ _ hstep => ?_) hrest ha h
    split at hstep
    · cases hstep
    · exact isNumeric_div hstep

theorem isNumeric_modulus (h : modulus args = .ok value) : value.IsNumeric := by
  unfold modulus at h
  split at h
  · cases h
  · obtain ⟨ha, hrest⟩ := List.forall_mem_cons.mp hargs
    refine foldlM_keeps (fun _ _ hstep => ?_) hrest ha h
    split at hstep
    · cases hstep
    · exact isNumeric_remainder hstep

end Functions

/-- A random number is an integer added to the lower bound, whatever the draw is. -/
theorem gives_isNumeric_random (env : Env) (args : List Scalar) :
    Gives IsNumeric (random env args) := by
  unfold random
  split
  · next low high _ =>
    refine .bind (gives_true _) fun below _ => ?_
    have hend : ∀ steps : ℤ, Gives IsNumeric ((Scalar.int steps).add low : Eval Scalar) :=
      fun steps => gives_lift fun _ => (isNumeric_int steps).add
    split
    · exact .throw _
    · exact .bind (gives_true _) fun draw _ => .bind (gives_true _) fun width _ =>
        .bind (gives_true _) fun width _ => .bind (gives_true _) fun product _ =>
        .bind (gives_true _) fun steps _ => hend steps
  · exact .throw _

/-- **Functions of numbers give numbers.** -/
theorem gives_isNumeric_function {env : Env} {name : String}
    {function : List Scalar → Eval Scalar} (hfunction : function? env name = some function)
    {args : List Scalar} (hargs : ∀ arg ∈ args, arg.IsNumeric) :
    Gives IsNumeric (function args) := by
  unfold function? at hfunction
  split_ifs at hfunction <;> obtain rfl := Option.some.inj hfunction
  · exact gives_lift fun _ => isNumeric_sum
  · exact gives_lift fun _ => isNumeric_difference hargs
  · exact gives_lift fun _ => isNumeric_product hargs
  · exact gives_lift fun _ => isNumeric_quotient hargs
  · exact gives_lift fun _ => isNumeric_modulus hargs
  · exact gives_isNumeric_random env args

/-- A call gives a normal form, and writes it into the trace. -/
theorem gives_isNormal_apply (env : Env) (name : String) {args : List Scalar}
    (hargs : ∀ arg ∈ args, arg.IsNumeric) : Gives IsNormal (apply env name args) := by
  rw [apply]
  split
  · exact .bind (gives_true _) fun _ _ => .pure isNormal_zero
  · next function hfunction =>
    refine .bind (gives_isNumeric_function hfunction hargs) fun result hresult => ?_
    refine .bind (gives_trace _) fun _ hpieces => .pure (hresult.normalize ?_)
    exact hpieces _ (by simp)

theorem isNormal_lookup {env : Env} (hvars : env.vars.Each Scalar.IsNormal)
    (name : String) : (lookup env name).IsNormal := by
  rw [lookup]
  cases hvalue : env.vars.get? name with
  | none => exact isNormal_zero
  | some value => exact hvars.get? hvalue

end Eval

/-! ## Expressions -/

theorem gives_isNormal_coerceLabel (text : String) :
    Eval.Gives Scalar.IsNormal (coerceLabel text : Eval Scalar) := by
  refine Eval.gives_lift fun value hvalue => ?_
  rw [coerceLabel] at hvalue
  split at hvalue
  · obtain ⟨x, -, hvalue⟩ := bind_eq_ok_iff.mp hvalue
    cases hvalue
    exact Scalar.isNormal_normalize_float x
  · cases hvalue
    rfl

mutual

/-- **Values of expressions are in normal form**, if those of the variables are. -/
theorem gives_isNormal_evaluate {env : Env} (hvars : env.vars.Each Scalar.IsNormal)
    (depth : ℤ) (node : Node) (h : node.isExpression = true) :
    Eval.Gives Scalar.IsNormal (evaluate env depth node) := by
  cases node with
  | number value =>
    obtain ⟨n, hn, rfl⟩ := Scalar.exists_of_isNumeral (by simpa [Node.isExpression] using h)
    have hnormal : (Scalar.int n).normalize.IsNormal := by simpa [Scalar.normalize, Scalar.IsNormal]
    rw [evaluate]
    exact Eval.Gives.guard (.pure hnormal) (maxEvalDepth < depth) _
  | label name =>
    rw [evaluate]
    exact Eval.Gives.guard (gives_isNormal_coerceLabel name) (maxEvalDepth < depth) _
  | read name =>
    rw [evaluate]
    exact Eval.Gives.guard (.bind (Eval.gives_true _) fun _ _ =>
      .pure (Eval.isNormal_lookup hvars name)) (maxEvalDepth < depth) _
  | call name args =>
    have hname : name ≠ "ref" := by
      rintro rfl
      simp [Node.isExpression, Node.callNames] at h
    have hargs : Node.areExpressions args = true := by
      simp only [Node.isExpression, Bool.and_eq_true] at h
      exact h.2
    rw [evaluate]
    refine Eval.Gives.guard (.bind (gives_isNormal_evaluateAll hvars (depth + 1) args hargs)
      fun values hvalues => ?_) (maxEvalDepth < depth) _
    rw [if_neg hname]
    exact Eval.gives_isNormal_apply env name fun arg harg => (hvalues arg harg).isNumeric
  | _ => simp [Node.isExpression] at h

theorem gives_isNormal_evaluateAll {env : Env} (hvars : env.vars.Each Scalar.IsNormal)
    (depth : ℤ) (nodes : List Node) (h : Node.areExpressions nodes = true) :
    Eval.Gives (fun values => ∀ value ∈ values, value.IsNormal)
      (evaluateAll env depth nodes) := by
  cases nodes with
  | nil =>
    rw [evaluateAll]
    exact .pure (by simp)
  | cons node rest =>
    simp only [Node.areExpressions, Bool.and_eq_true] at h
    rw [evaluateAll]
    refine .bind (gives_isNormal_evaluate hvars depth node h.1) fun value hvalue => ?_
    refine .bind (gives_isNormal_evaluateAll hvars depth rest h.2) fun values hvalues => ?_
    exact .pure (List.forall_mem_cons.mpr ⟨hvalue, hvalues⟩)

end

end TileScript
