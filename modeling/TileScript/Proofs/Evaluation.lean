import TileScript.Evaluation
import TileScript.Proofs.Number.Written
import TileScript.Proofs.Program.Grammar

/-!
# Values of expressions

Whatever an expression of the grammar evaluates to can be written. The numerals of a text have at
most 4300 digits, names stand for floating point numbers, and the value of a variable or of a call
stands in a line of the trace: a value that cannot be written is a fault there.

## Main definitions

* `Eval.Gives`: every result of a computation has a property.

## Main statements

* `gives_written_evaluate`: values of expressions can be written.
-/

namespace TileScript

/-- A chain goes on where its first part ended, unless that failed. -/
theorem run_bind {ε σ α β : Type} (action : ExceptT ε (StateM σ) α)
    (next : α → ExceptT ε (StateM σ) β) (state : σ) :
    (action >>= next).run state =
      match action.run state with
      | (.ok a, after) => (next a).run after
      | (.error stop, after) => (.error stop, after) := by
  change (ExceptT.bind action next).run state = _
  simp only [ExceptT.bind, ExceptT.run, ExceptT.mk, Bind.bind, StateT.bind]
  cases action state with
  | mk result after => cases result <;> rfl

namespace Eval

variable {α β : Type} {P : α → Prop}

/-- A chain that gives a result has given one at each of its parts. -/
theorem run_bind_eq_ok {computation : Eval α} {next : α → Eval β} {state after : EvalState}
    {b : β} (h : (computation >>= next).run state = (.ok b, after)) :
    ∃ a middle, computation.run state = (.ok a, middle) ∧ (next a).run middle = (.ok b, after) := by
  rw [run_bind] at h
  cases hfirst : computation.run state with
  | mk result middle =>
    rw [hfirst] at h
    cases result with
    | ok a => exact ⟨a, middle, rfl, h⟩
    | error fault => cases h

/-- Every result of the computation has the property. -/
def Gives (P : α → Prop) (computation : Eval α) : Prop :=
  ∀ state value after, computation.run state = (.ok value, after) → P value

theorem Gives.pure {a : α} (h : P a) : Gives P (pure a : Eval α) := by
  intro state value after hrun
  cases hrun
  exact h

theorem Gives.throw (fault : Fault) : Gives P (throw fault : Eval α) := by
  intro state value after hrun
  cases hrun

theorem Gives.bind {computation : Eval β} {next : β → Eval α} {Q : β → Prop}
    (h : Gives Q computation) (hnext : ∀ b, Q b → Gives P (next b)) :
    Gives P (computation >>= next) := by
  intro state value after hrun
  obtain ⟨b, middle, hfirst, hlast⟩ := run_bind_eq_ok hrun
  exact hnext b (h state b middle hfirst) middle value after hlast

theorem Gives.guard {body : Eval α} (h : Gives P body) (condition : Prop) [Decidable condition]
    (fault : Fault) :
    Gives P (if condition then (MonadExcept.throw fault : Eval Unit) >>= fun _ => body
      else body) := by
  split
  · exact .bind (Q := fun _ => False) (.throw fault) fun _ hfalse => hfalse.elim
  · exact h

theorem gives_true (computation : Eval α) : Gives (fun _ => True) computation :=
  fun _ _ _ _ => trivial

/-- What stands in a line of the trace can be written. -/
theorem gives_trace (pieces : List Scalar) :
    Gives (fun _ => ∀ piece ∈ pieces, piece.Written) (trace pieces) := by
  intro state value after hrun
  rw [trace] at hrun
  cases hline : Scalar.line pieces with
  | error fault =>
    rw [hline] at hrun
    cases hrun
  | ok text => exact Scalar.written_of_line hline

theorem gives_written_apply (env : Env) (name : String) (args : List Scalar) :
    Gives Scalar.Written (apply env name args) := by
  rw [apply]
  split
  · exact .bind (gives_trace _) fun _ _ => .pure Scalar.written_zero
  · refine .bind (gives_true _) fun result _ => .bind (gives_trace _) fun _ hpieces => .pure ?_
    exact hpieces _ (by simp)

end Eval

theorem written_of_coerceLabel {text : String} {value : Scalar}
    (h : coerceLabel text = .ok value) : value.Written := by
  rw [coerceLabel] at h
  split at h
  · obtain ⟨x, -, h⟩ := bind_eq_ok_iff.mp h
    cases h
    exact Scalar.written_normalize_float x
  · cases h
    exact Scalar.written_float .nan

theorem gives_written_coerceLabel (text : String) :
    Eval.Gives Scalar.Written (coerceLabel text : Eval Scalar) := by
  cases h : coerceLabel text with
  | error fault => exact .throw fault
  | ok value => exact .pure (written_of_coerceLabel h)

/-- **Values of expressions can be written.** -/
theorem gives_written_evaluate (env : Env) (depth : ℤ) {node : Node}
    (h : node.isExpression = true) : Eval.Gives Scalar.Written (evaluate env depth node) := by
  cases node with
  | number value =>
    obtain ⟨n, hn, rfl⟩ := Scalar.exists_of_isNumeral (by simpa [Node.isExpression] using h)
    rw [evaluate]
    exact Eval.Gives.guard (.pure (by simpa [Scalar.normalize] using hn)) (maxEvalDepth < depth) _
  | label name =>
    rw [evaluate]
    exact Eval.Gives.guard (gives_written_coerceLabel name) (maxEvalDepth < depth) _
  | read name =>
    rw [evaluate]
    refine Eval.Gives.guard (.bind (Eval.gives_trace _) fun _ hpieces => .pure ?_)
      (maxEvalDepth < depth) _
    exact hpieces _ (by simp)
  | call name args =>
    have hname : name ≠ "ref" := by
      rintro rfl
      simp [Node.isExpression, Node.callNames] at h
    rw [evaluate]
    refine Eval.Gives.guard (.bind (Eval.gives_true _) fun values _ => ?_) (maxEvalDepth < depth) _
    rw [if_neg hname]
    exact Eval.gives_written_apply env name values
  | _ => simp [Node.isExpression] at h

end TileScript
