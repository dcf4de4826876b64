import TileScript.Proofs.Evaluation.Integers

/-!
# How deeply expressions may be nested

The depth at which an expression stands matters only to the bound on it. As long as the depth and
the height of the expression together keep to the bound, the bound is met nowhere, and evaluation is
the same function at every such depth. Beyond it evaluation fails: arguments are evaluated before
anything else is known of a call, so that nothing that a function does with them can help.

## Main definitions

* `IsShallow`, `Eval.IsShallow`: a result and a computation whose fault is not that of nesting.

## Main statements

* `evaluate_congr`: evaluation within the bound does not depend on the depth.
* `isShallow_evaluate`: evaluation within the bound does not have the fault of nesting.
* `gives_false_evaluate`: evaluation beyond the bound fails.
* `evaluate_depth_exact`: the bound is exact.
-/

namespace TileScript

/-! ## Faults that are not those of nesting -/

theorem Fault.eq_evaluationDepth {fault : Fault} (h : fault.kind = .recursion) :
    fault = .evaluationDepth := by
  cases fault with
  | evaluationDepth => rfl
  | _ => cases h

/-- The fault of the result, if there is one, is not that of nesting. -/
def IsShallow {α : Type} (result : Except Fault α) : Prop :=
  ∀ fault, result = .error fault → fault ≠ .evaluationDepth

namespace IsShallow

variable {α β : Type}

theorem ok (a : α) : IsShallow (.ok a) := fun _ h => nomatch h

theorem error {fault : Fault} (h : fault ≠ .evaluationDepth) :
    IsShallow (.error fault : Except Fault α) := by
  intro other hother
  rwa [← Except.error.inj hother]

theorem bind {result : Except Fault α} {next : α → Except Fault β} (h : IsShallow result)
    (hnext : ∀ a, IsShallow (next a)) : IsShallow (result >>= next) := by
  cases result with
  | ok a => exact hnext a
  | error fault => exact error (h fault rfl)

theorem map {result : Except Fault α} (h : IsShallow result) (f : α → β) :
    IsShallow (f <$> result) := by
  cases result with
  | ok a => exact ok (f a)
  | error fault => exact error (h fault rfl)

theorem foldlM {operation : β → α → Except Fault β} (h : ∀ b a, IsShallow (operation b a))
    (list : List α) (b : β) : IsShallow (list.foldlM operation b) := by
  induction list generalizing b with
  | nil => exact ok b
  | cons a list ih =>
    rw [List.foldlM_cons]
    exact bind (h b a) ih

end IsShallow

namespace Number

theorem isShallow_toFloat (m : Number) : IsShallow m.toFloat := by
  cases m with
  | int n =>
    rw [toFloat]
    cases Binary64.ofInt? n with
    | none => exact .error (by simp)
    | some x => exact .ok x
  | float x => exact .ok x

theorem isShallow_combine (exact : ℤ → ℤ → ℤ) (rounded : Binary64 → Binary64 → Binary64)
    (m n : Number) : IsShallow (combine exact rounded m n) := by
  unfold combine
  split
  · exact .ok _
  · exact .bind (isShallow_toFloat _) fun _ => .bind (isShallow_toFloat _) fun _ => .ok _

theorem isShallow_div (m n : Number) : IsShallow (m.div n) := by
  unfold div
  split
  · next m n =>
    cases (Binary64.ofRatio (decide (m < 0) != decide (n < 0))
      (m.natAbs * Binary64.unitsPerOne) n.natAbs).notInfinite? with
    | none => exact .error (by simp)
    | some x => exact .ok _
  · exact .bind (isShallow_toFloat _) fun _ => .bind (isShallow_toFloat _) fun _ => .ok _

end Number

namespace Scalar

theorem isShallow_numeric (operator : String) {operation : Number → Number → Except Fault Number}
    (h : ∀ m n, IsShallow (operation m n)) (a b : Scalar) :
    IsShallow (numeric operator operation a b) := by
  unfold numeric
  split
  · exact (h _ _).map _
  · exact .error (by simp)

theorem isShallow_add (a b : Scalar) : IsShallow (a.add b) := by
  unfold add
  split
  · exact .ok _
  · exact .error (by simp)
  · exact isShallow_numeric _ (Number.isShallow_combine _ _) _ _

theorem isShallow_sub (a b : Scalar) : IsShallow (a.sub b) :=
  isShallow_numeric _ (Number.isShallow_combine _ _) a b

theorem isShallow_repeatText (count : ℤ) (s : String) : IsShallow (repeatText count s) := by
  unfold repeatText
  split_ifs
  · exact .error (by simp)
  · exact .ok _
  · exact .error (by simp)
  · exact .error (by simp)
  · exact .ok _

theorem isShallow_mul (a b : Scalar) : IsShallow (a.mul b) := by
  unfold mul
  split
  · split
    · exact isShallow_repeatText _ _
    · exact .error (by simp)
  · split
    · exact isShallow_repeatText _ _
    · exact .error (by simp)
  · exact isShallow_numeric _ (Number.isShallow_combine _ _) _ _

theorem isShallow_div (a b : Scalar) : IsShallow (a.div b) :=
  isShallow_numeric _ Number.isShallow_div a b

theorem isShallow_toFloat (a : Scalar) : IsShallow a.toFloat := by
  unfold toFloat
  split
  · exact Number.isShallow_toFloat _
  · exact .error (by simp)

theorem isShallow_remainder (a b : Scalar) : IsShallow (a.remainder b) := by
  refine .bind (isShallow_toFloat a) fun x => .bind (isShallow_toFloat b) fun y => ?_
  split
  · exact .error (by simp)
  · exact .error (by simp)
  · exact .ok _

theorem isShallow_neg (a : Scalar) : IsShallow a.neg := by
  unfold neg
  split
  · exact .ok _
  · exact .ok _
  · exact .error (by simp)

theorem isShallow_floor (a : Scalar) : IsShallow a.floor := by
  unfold floor
  split
  · exact .ok _
  · exact .error (by simp)
  · exact .error (by simp)
  · exact .ok _
  · exact .error (by simp)

theorem isShallow_less (a b : Scalar) : IsShallow (a.less b) := by
  unfold less
  split
  · exact .ok _
  · split
    · exact .ok _
    · exact .error (by simp)

theorem isShallow_line (pieces : List Scalar) : IsShallow (line pieces) := by
  unfold line
  split
  · exact .ok _
  · exact .error (by simp)

end Scalar

theorem isShallow_readFloat (text : String) : IsShallow (Text.readFloat text) := by
  unfold Text.readFloat
  split
  · exact .error (by simp)
  · dsimp only
    split_ifs
    · exact .ok _
    · exact .ok _
    · split
      · exact .ok _
      · exact .error (by simp)

theorem isShallow_coerceLabel (text : String) : IsShallow (coerceLabel text) := by
  unfold coerceLabel
  split
  · exact .bind (isShallow_readFloat text) fun _ => .ok _
  · exact .ok _

namespace Eval

variable {α β : Type}

/-- No fault of the computation is that of nesting. -/
def IsShallow (computation : Eval α) : Prop :=
  ∀ state fault after, computation.run state = (.error fault, after) → fault ≠ .evaluationDepth

namespace IsShallow

theorem pure (a : α) : IsShallow (pure a : Eval α) := fun _ _ _ h => nomatch h

theorem throw {fault : Fault} (h : fault ≠ .evaluationDepth) :
    IsShallow (throw fault : Eval α) := by
  intro state other after hrun
  cases hrun
  exact h

theorem lift {result : Except Fault α} (h : TileScript.IsShallow result) :
    IsShallow (liftM result : Eval α) := by
  cases result with
  | ok a => exact pure a
  | error fault => exact throw (h fault rfl)

theorem bind {computation : Eval α} {next : α → Eval β} (h : IsShallow computation)
    (hnext : ∀ a, IsShallow (next a)) : IsShallow (computation >>= next) := by
  intro state fault after hrun
  rw [run_bind] at hrun
  cases hfirst : computation.run state with
  | mk result middle =>
    rw [hfirst] at hrun
    cases result with
    | ok a => exact hnext a middle fault after hrun
    | error cause =>
      cases hrun
      exact h state _ _ hfirst

theorem trace (pieces : List Scalar) : IsShallow (Eval.trace pieces) :=
  bind (lift (Scalar.isShallow_line pieces)) fun _ => fun _ _ _ h => nomatch h

theorem draw (env : Env) : IsShallow (Eval.draw env) := fun _ _ _ h => nomatch h

end IsShallow

theorem isShallow_difference (args : List Scalar) :
    TileScript.IsShallow (difference args) := by
  match args with
  | [] => exact .ok _
  | [a] => exact Scalar.isShallow_neg a
  | a :: b :: rest => exact .foldlM Scalar.isShallow_sub (b :: rest) a

theorem isShallow_quotient (args : List Scalar) : TileScript.IsShallow (quotient args) := by
  cases args with
  | nil => exact .error (by simp)
  | cons a rest =>
    refine .foldlM (fun a b => ?_) rest a
    split
    · exact .error (by simp)
    · exact Scalar.isShallow_div a b

theorem isShallow_modulus (args : List Scalar) : TileScript.IsShallow (modulus args) := by
  cases args with
  | nil => exact .error (by simp)
  | cons a rest =>
    refine .foldlM (fun a b => ?_) rest a
    split
    · exact .error (by simp)
    · exact Scalar.isShallow_remainder a b

theorem isShallow_random (env : Env) (args : List Scalar) : IsShallow (random env args) := by
  unfold random
  split
  · next low high _ =>
    have hvalue : IsShallow (do
        let draw ← draw env
        let width ← high.sub low
        let width ← width.add (.int 1)
        let product ← draw.mul width
        let steps ← product.floor
        (Scalar.int steps).add low) :=
      .bind (.draw env) fun _ => .bind (.lift (Scalar.isShallow_sub _ _)) fun _ =>
        .bind (.lift (Scalar.isShallow_add _ _)) fun _ =>
          .bind (.lift (Scalar.isShallow_mul _ _)) fun _ =>
            .bind (.lift (Scalar.isShallow_floor _)) fun _ => .lift (Scalar.isShallow_add _ _)
    refine .bind (.lift (Scalar.isShallow_less high low)) fun _ => ?_
    split
    · exact .bind (.throw (by simp)) fun _ => hvalue
    · exact hvalue
  · exact .throw (by simp)

theorem isShallow_function {env : Env} {name : String} {function : List Scalar → Eval Scalar}
    (h : function? env name = some function) (args : List Scalar) : IsShallow (function args) := by
  unfold function? at h
  split_ifs at h <;> obtain rfl := Option.some.inj h
  · exact .lift (.foldlM Scalar.isShallow_add args _)
  · exact .lift (isShallow_difference args)
  · exact .lift (.foldlM Scalar.isShallow_mul args _)
  · exact .lift (isShallow_quotient args)
  · exact .lift (isShallow_modulus args)
  · exact isShallow_random env args

theorem isShallow_apply (env : Env) (name : String) (args : List Scalar) :
    IsShallow (apply env name args) := by
  rw [apply]
  split
  · exact .bind (.trace _) fun _ => .pure _
  · next function hfunction =>
    exact .bind (isShallow_function hfunction args) fun _ => .bind (.trace _) fun _ => .pure _

theorem isShallow_reference (env : Env) (args : List Node) (values : List Scalar) :
    IsShallow (reference env args values) := by
  unfold reference
  split
  · exact .bind (.trace _) fun _ => .pure _
  · exact .pure _
  · exact .bind (.trace _) fun _ => .pure _
  · exact .pure _

end Eval

/-! ## Within the bound -/

open Node

theorem evaluate_of_lt (env : Env) {depth : ℤ} (h : maxEvalDepth < depth) (node : Node) :
    evaluate env depth node = throw .evaluationDepth := by
  unfold evaluate
  rw [if_pos h]
  rfl

theorem evaluate_call (env : Env) {depth : ℤ} (h : ¬maxEvalDepth < depth) (name : String)
    (args : List Node) :
    evaluate env depth (.call name args) =
      (evaluateAll env (depth + 1) args >>= fun values =>
        if name = "ref" then Eval.reference env args values else Eval.apply env name values) := by
  rw [evaluate, if_neg h]

mutual

/-- **Evaluation within the bound does not depend on the depth.** -/
theorem evaluate_congr (env : Env) (node : Node) {depth other : ℤ}
    (h : depth + node.height ≤ maxEvalDepth) (h' : other + node.height ≤ maxEvalDepth) :
    evaluate env depth node = evaluate env other node := by
  have hguard : ¬maxEvalDepth < depth := by omega
  have hguard' : ¬maxEvalDepth < other := by omega
  cases node with
  | call name args =>
    rw [height] at h h'
    rw [evaluate_call env hguard, evaluate_call env hguard',
      evaluateAll_congr env args (show depth + 1 + _ ≤ _ by omega)
        (show other + 1 + _ ≤ _ by omega)]
  | scalar value => cases value <;> simp only [evaluate, hguard, hguard', if_false]
  | _ => simp only [evaluate, hguard, hguard', if_false]

theorem evaluateAll_congr (env : Env) (nodes : List Node) {depth other : ℤ}
    (h : depth + argumentHeight nodes ≤ maxEvalDepth + 1)
    (h' : other + argumentHeight nodes ≤ maxEvalDepth + 1) :
    evaluateAll env depth nodes = evaluateAll env other nodes := by
  cases nodes with
  | nil => rw [evaluateAll, evaluateAll]
  | cons node rest =>
    rw [argumentHeight] at h h'
    rw [evaluateAll, evaluateAll,
      evaluate_congr env node (show depth + _ ≤ _ by omega) (show other + _ ≤ _ by omega),
      evaluateAll_congr env rest (show depth + _ ≤ _ by omega) (show other + _ ≤ _ by omega)]

end

mutual

/-- **Evaluation within the bound does not have the fault of nesting.** -/
theorem isShallow_evaluate (env : Env) (node : Node) {depth : ℤ}
    (h : depth + node.height ≤ maxEvalDepth) : Eval.IsShallow (evaluate env depth node) := by
  have hguard : ¬maxEvalDepth < depth := by omega
  cases node with
  | scalar value =>
    cases value with
    | text s =>
      rw [evaluate, if_neg hguard]
      exact .lift (isShallow_coerceLabel s)
    | _ =>
      simp only [evaluate, hguard, if_false]
      exact .pure _
  | number value =>
    rw [evaluate, if_neg hguard]
    exact .pure _
  | label name =>
    rw [evaluate, if_neg hguard]
    exact .lift (isShallow_coerceLabel name)
  | call name args =>
    rw [height] at h
    rw [evaluate_call env hguard]
    refine .bind (isShallow_evaluateAll env args (show depth + 1 + _ ≤ _ by omega)) fun values => ?_
    split
    · exact Eval.isShallow_reference env args values
    · exact Eval.isShallow_apply env name values
  | _ =>
    simp only [evaluate, hguard, if_false]
    exact .bind (.trace _) fun _ => .pure _

theorem isShallow_evaluateAll (env : Env) (nodes : List Node) {depth : ℤ}
    (h : depth + argumentHeight nodes ≤ maxEvalDepth + 1) :
    Eval.IsShallow (evaluateAll env depth nodes) := by
  cases nodes with
  | nil =>
    rw [evaluateAll]
    exact .pure _
  | cons node rest =>
    rw [argumentHeight] at h
    rw [evaluateAll]
    exact .bind (isShallow_evaluate env node (show depth + _ ≤ _ by omega)) fun _ =>
      .bind (isShallow_evaluateAll env rest (show depth + _ ≤ _ by omega)) fun _ => .pure _

end

/-! ## Beyond the bound -/

mutual

/-- **Evaluation beyond the bound fails**, by the fault of nesting or by one that comes before. -/
theorem gives_false_evaluate (env : Env) (node : Node) {depth : ℤ}
    (h : maxEvalDepth < depth + node.height) :
    Eval.Gives (fun _ => False) (evaluate env depth node) := by
  by_cases hguard : maxEvalDepth < depth
  · rw [evaluate_of_lt env hguard]
    exact .throw _
  · cases node with
    | call name args =>
      rw [height] at h
      rw [evaluate_call env hguard]
      have hargs : Eval.Gives (fun _ => False) (evaluateAll env (depth + 1) args) :=
        gives_false_evaluateAll env args (by omega) (by omega)
      exact .bind hargs fun _ hfalse => hfalse.elim
    | _ =>
      simp only [height] at h
      omega

/-- One of the arguments is too high. Those before it may fail for another reason. -/
theorem gives_false_evaluateAll (env : Env) (nodes : List Node) {depth : ℤ}
    (hdepth : depth ≤ maxEvalDepth + 1) (h : maxEvalDepth + 1 < depth + argumentHeight nodes) :
    Eval.Gives (fun _ => False) (evaluateAll env depth nodes) := by
  cases nodes with
  | nil =>
    rw [argumentHeight] at h
    omega
  | cons node rest =>
    rw [argumentHeight] at h
    rw [evaluateAll]
    by_cases hnode : maxEvalDepth < depth + node.height
    · exact .bind (gives_false_evaluate env node hnode) fun _ hfalse => hfalse.elim
    · have hrest := gives_false_evaluateAll env rest hdepth (by omega)
      exact .bind (Eval.gives_true _) fun _ _ => .bind hrest fun _ hfalse => hfalse.elim

end

/-- A computation without a result has a fault. -/
theorem Eval.Gives.exists_fault {α : Type} {computation : Eval α}
    (h : Eval.Gives (fun _ => False) computation) (state : EvalState) :
    ∃ fault after, computation.run state = (.error fault, after) := by
  cases hrun : computation.run state with
  | mk result after =>
    cases result with
    | ok a => exact (h state a after hrun).elim
    | error fault => exact ⟨fault, after, rfl⟩

/-- **The bound on nesting is exact.** Take any expression, at any depth and in any state. If its
depth and its height together are at most 32, then its evaluation has no fault of nesting, and it
has the same result, the same trace and the same draws as at every smaller depth, among them depth
zero. If they are more than 32, then it has a fault and no value, whatever functions occur in the
expression. -/
theorem evaluate_depth_exact (env : Env) (node : Node) (depth : ℤ) (state : EvalState) :
    (depth + node.height ≤ 32 →
      (∀ fault after, (evaluate env depth node).run state = (.error fault, after) →
        fault.kind.name ≠ "RecursionError") ∧
      ∀ other ≤ depth,
        (evaluate env other node).run state = (evaluate env depth node).run state) ∧
    (32 < depth + node.height →
      ∃ fault after, (evaluate env depth node).run state = (.error fault, after)) := by
  refine ⟨fun h => ⟨fun fault after hrun hname => ?_, fun other hother => ?_⟩, fun h => ?_⟩
  · refine isShallow_evaluate env node h state fault after hrun (Fault.eq_evaluationDepth ?_)
    generalize fault.kind = kind at hname
    cases kind <;> simp_all [FaultKind.name]
  · have hroom : other + node.height ≤ maxEvalDepth := le_trans (by omega) h
    rw [evaluate_congr env node hroom h]
  · exact (gives_false_evaluate env node h).exists_fault state

/-- Calls of `ref` and of a function that is not known, in turn, around a number. -/
def tower : ℕ → Node
  | 0 => .number (.int 7)
  | n + 1 => .call (if n % 2 = 0 then "pow" else "ref") [tower n]

theorem evaluate_depth_exact_tower :
    (tower 32).height = 32 ∧
    (∀ fault after, (evaluate longEnv 0 (tower 32)).run ⟨#[], 3⟩ = (.error fault, after) →
      fault.kind.name ≠ "RecursionError") ∧
    (evaluate longEnv 0 (tower 30)).run ⟨#[], 3⟩ = (evaluate longEnv 2 (tower 30)).run ⟨#[], 3⟩ ∧
    ∃ fault after, (evaluate longEnv 1 (tower 32)).run ⟨#[], 3⟩ = (.error fault, after) := by
  have hheight : (tower 32).height = 32 := by decide +kernel
  exact ⟨hheight, ((evaluate_depth_exact longEnv (tower 32) 0 _).1 (by simp [hheight])).1,
    ((evaluate_depth_exact longEnv (tower 30) 2 _).1 (by decide +kernel)).2 0 (by decide),
    (evaluate_depth_exact longEnv (tower 32) 1 _).2 (by simp [hheight])⟩

end TileScript
