import Mathlib.Algebra.BigOperators.Group.List.Basic
import TileScript.Proofs.Run.Ensures

/-!
# Values of integer expressions

Sums, differences and products of integers are computed exactly, however large the integers are.
The only bound is that of written integers: every variable that is read and every call leaves a line
in the trace, with the arguments and the result of the call, and an integer of more than 4300 digits
cannot stand there.

A computation on integers is described by the integers that it writes, its figures: it has its
result if all of them can be written, and the fault of one that cannot otherwise. The figures of two
computations in a row are those of the one and those of the other.

## Main definitions

* `Node.integer?`: the integer that an expression stands for.
* `Node.height`: how deeply an expression is nested.
* `Node.figures`: the integers that are written in its evaluation.
* `Eval.Computes`: what a computation on integers does.

## Main statements

* `Eval.Computes.bind`: computations in a row.
* `computes_evaluate`: the evaluation of an integer expression at any depth.
* `evaluate_integer`: integer expressions are evaluated exactly.
-/

namespace TileScript

/-! ## The integers of expressions -/

/-- The first integer less the others; one alone changes its sign. -/
def integerDifference : List ℤ → ℤ
  | [] => 0
  | [a] => -a
  | a :: rest => rest.foldl (· - ·) a

/-- The functions that give an integer for any integers. -/
def integerFunction? (name : String) : Option (List ℤ → ℤ) :=
  if name = "add" then some List.sum
  else if name = "sub" then some integerDifference
  else if name = "mul" then some List.prod
  else none

namespace Node

variable (vars : Table String Scalar)

mutual

/-- The integer that an expression stands for, if it is made of integers, of variables that are
integers or were never set, and of sums, differences and products. -/
def integer? : Node → Option ℤ
  | .scalar (.int n) => some n
  | .number (.int n) => some n
  | .read name =>
    match vars.get? name with
    | none => some 0
    | some (.int n) => some n
    | some _ => none
  | .call name args => do
    let function ← integerFunction? name
    let values ← integers? args
    return function values
  | _ => none

/-- The integers that several expressions stand for. -/
def integers? : List Node → Option (List ℤ)
  | [] => some []
  | node :: rest => do
    let value ← node.integer?
    let values ← integers? rest
    return value :: values

end

mutual

/-- How deeply an expression is nested: calls by one more than their arguments, unless they have
none. -/
def height : Node → ℕ
  | .call _ args => argumentHeight args
  | _ => 0

/-- One more than the height of the highest argument. -/
def argumentHeight : List Node → ℕ
  | [] => 0
  | node :: rest => max (node.height + 1) (argumentHeight rest)

end

mutual

/-- The integers that are written when an expression is evaluated: the values of variables, and the
arguments and results of calls. -/
def figures : Node → List ℤ
  | .read name => ((Node.read name).integer? vars).toList
  | .call name args =>
    argumentFigures args ++
      ((integers? vars args).getD [] ++ ((Node.call name args).integer? vars).toList)
  | _ => []

/-- Those of several expressions. -/
def argumentFigures : List Node → List ℤ
  | [] => []
  | node :: rest => node.figures ++ argumentFigures rest

end

end Node

/-! ## Computations on integers -/

/-- Whether all of the integers have at most 4300 digits. -/
def areWritten (figures : List ℤ) : Bool := figures.all fun n => n.natAbs < Scalar.writtenBound

theorem areWritten_append (l m : List ℤ) : areWritten (l ++ m) = (areWritten l && areWritten m) :=
  List.all_append

namespace Eval

variable {α β : Type}

/-- The computation has the result `a` if all figures can be written, and the fault of an integer
that cannot be written otherwise. No random draw is taken. -/
def Computes (figures : List ℤ) (computation : Eval α) (a : α) : Prop :=
  ∀ state, ∃ trace, computation.run state =
    (if areWritten figures then .ok a else .error .digitsToWrite, ⟨trace, state.drawn⟩)

namespace Computes

variable {p : Eval α} {a : α} {l m : List ℤ}

theorem pure (a : α) : Computes [] (pure a) a :=
  fun state => ⟨state.trace, rfl⟩

theorem lift {x : Except Fault α} (h : x = .ok a) : Computes [] (liftM x : Eval α) a := by
  subst h
  exact pure a

/-- **Computations in a row.** The first figure that cannot be written decides, so that both have
their results if and only if the figures of both can be written. -/
theorem bind {k : α → Eval β} {b : β} (hp : Computes l p a) (hk : Computes m (k a) b) :
    Computes (l ++ m) (p >>= k) b := by
  intro state
  obtain ⟨trace, hfirst⟩ := hp state
  rw [run_bind, hfirst, areWritten_append]
  cases areWritten l with
  | false => exact ⟨trace, rfl⟩
  | true =>
    obtain ⟨trace', hsecond⟩ := hk ⟨trace, state.drawn⟩
    exact ⟨trace', hsecond⟩

/-- A computation that ends with a result. -/
theorem bind_pure {f : α → β} (hp : Computes l p a) :
    Computes l (p >>= fun x => Pure.pure (f x)) (f a) := by
  have hall := hp.bind (k := fun x => Pure.pure (f x)) (.pure (f a))
  rwa [List.append_nil] at hall

/-- A line of the trace writes the integers that stand in it. -/
theorem trace {pieces : List Scalar}
    (h : (∀ piece ∈ pieces, piece.Written) ↔ areWritten l = true) :
    Computes l (Eval.trace pieces) () := by
  intro state
  by_cases hall : ∀ piece ∈ pieces, piece.Written
  · obtain ⟨line, hline⟩ := Scalar.exists_line? hall
    refine ⟨state.trace.push line, ?_⟩
    rw [if_pos (h.mp hall), Eval.trace, Scalar.line, hline]
    rfl
  · have hnot : ¬areWritten l = true := fun hl => hall (h.mpr hl)
    push Not at hall
    obtain ⟨piece, hpiece, hwritten⟩ := hall
    refine ⟨state.trace, ?_⟩
    rw [if_neg hnot, Eval.trace, Scalar.line_eq_error hpiece hwritten]
    rfl

end Computes

/-! ## The functions on integers -/

theorem foldlM_int {operation : Scalar → Scalar → Except Fault Scalar} {exact : ℤ → ℤ → ℤ}
    (h : ∀ a b, operation (.int a) (.int b) = .ok (.int (exact a b))) (values : List ℤ) (a : ℤ) :
    (values.map Scalar.int).foldlM operation (.int a) = .ok (.int (values.foldl exact a)) := by
  induction values generalizing a with
  | nil => rfl
  | cons b values ih =>
    rw [List.map_cons, List.foldlM_cons, h]
    exact ih (exact a b)

theorem sum_int (values : List ℤ) : sum (values.map Scalar.int) = .ok (.int values.sum) := by
  rw [List.sum_eq_foldl]
  exact foldlM_int (fun _ _ => rfl) values 0

theorem product_int (values : List ℤ) :
    product (values.map Scalar.int) = .ok (.int values.prod) := by
  rw [List.prod_eq_foldl]
  exact foldlM_int (fun _ _ => rfl) values 1

theorem difference_int (values : List ℤ) :
    difference (values.map Scalar.int) = .ok (.int (integerDifference values)) := by
  match values with
  | [] => rfl
  | [a] => rfl
  | a :: b :: rest => exact foldlM_int (fun _ _ => rfl) (b :: rest) a

theorem cases_of_integerFunction? {name : String} {function : List ℤ → ℤ}
    (h : integerFunction? name = some function) :
    name = "add" ∧ function = List.sum ∨ name = "sub" ∧ function = integerDifference ∨
      name = "mul" ∧ function = List.prod := by
  unfold integerFunction? at h
  split_ifs at h with hadd hsub hmul
  · exact .inl ⟨hadd, (Option.some.inj h).symm⟩
  · exact .inr (.inl ⟨hsub, (Option.some.inj h).symm⟩)
  · exact .inr (.inr ⟨hmul, (Option.some.inj h).symm⟩)

/-- The functions of the language are the functions of the same names on integers. -/
theorem exists_function? (env : Env) {name : String} {function : List ℤ → ℤ}
    (h : integerFunction? name = some function) (values : List ℤ) :
    ∃ operation, function? env name = some operation ∧
      Computes [] (operation (values.map Scalar.int)) (.int (function values)) := by
  rcases cases_of_integerFunction? h with ⟨rfl, rfl⟩ | ⟨rfl, rfl⟩ | ⟨rfl, rfl⟩
  · exact ⟨_, rfl, .lift (sum_int values)⟩
  · exact ⟨_, rfl, .lift (difference_int values)⟩
  · exact ⟨_, rfl, .lift (product_int values)⟩

theorem forall_mem_intersperse {values : List Scalar} (mark : String) :
    (∀ piece ∈ values.intersperse (.text mark), piece.Written) ↔
      ∀ value ∈ values, value.Written := by
  induction values with
  | nil => rfl
  | cons value values ih =>
    cases values with
    | nil => rfl
    | cons next values =>
      rw [List.intersperse_cons_cons, List.forall_mem_cons, List.forall_mem_cons, ih,
        List.forall_mem_cons]
      simp

/-- A call writes its arguments and its result, whatever the function does in between. -/
theorem computes_apply_of_function {env : Env} {name : String}
    {operation : List Scalar → Eval Scalar} (hoperation : function? env name = some operation)
    {values : List ℤ} {value : Scalar} {n : ℤ}
    (hcomputes : Computes [] (operation (values.map Scalar.int)) value)
    (hvalue : value.normalize = .int n) :
    Computes (values ++ [n]) (apply env name (values.map Scalar.int)) (.int n) := by
  have htrace : Computes (values ++ [n])
      (Eval.trace (.text name :: .text "(" :: (values.map Scalar.int).intersperse (.text ",") ++
        [.text ") = ", value.normalize])) () := by
    refine .trace ?_
    simp only [hvalue, List.cons_append, List.forall_mem_cons, List.forall_mem_append,
      forall_mem_intersperse]
    simp [areWritten]
  rw [apply, hoperation, ← hvalue]
  exact hcomputes.bind htrace.bind_pure

theorem computes_apply (env : Env) {name : String} {function : List ℤ → ℤ}
    (h : integerFunction? name = some function) (values : List ℤ) :
    Computes (values ++ [function values]) (apply env name (values.map Scalar.int))
      (.int (function values)) := by
  obtain ⟨operation, hoperation, hcomputes⟩ := exists_function? env h values
  exact computes_apply_of_function hoperation hcomputes rfl

end Eval

open Eval Node

/-! ## Integer expressions -/

/-- The value of a variable that is an integer or was never set. -/
theorem lookup_of_integer? {env : Env} {name : String} {n : ℤ}
    (h : (Node.read name).integer? env.vars = some n) : lookup env name = .int n := by
  rw [integer?] at h
  rw [lookup]
  cases hvalue : env.vars.get? name with
  | none =>
    rw [hvalue] at h
    obtain rfl := Option.some.inj h
    rfl
  | some value =>
    rw [hvalue] at h
    cases value with
    | int m =>
      obtain rfl := Option.some.inj h
      rfl
    | _ => cases h

mutual

/-- **The evaluation of an integer expression** at any depth that leaves room for it. -/
theorem computes_evaluate (env : Env) (node : Node) {n : ℤ}
    (h : node.integer? env.vars = some n) {depth : ℤ}
    (hdepth : depth + node.height ≤ maxEvalDepth) :
    Computes (node.figures env.vars) (evaluate env depth node) (.int n) := by
  -- Arguments are one deeper and at least one less high, so the room that is left stays enough.
  have hguard : ¬maxEvalDepth < depth := by omega
  cases node with
  | scalar value =>
    cases value with
    | int m =>
      obtain rfl := Option.some.inj h
      simpa only [evaluate, figures, hguard, if_false] using .pure _
    | _ => cases h
  | number value =>
    cases value with
    | int m =>
      obtain rfl := Option.some.inj h
      simpa only [evaluate, figures, hguard, if_false] using .pure _
    | _ => cases h
  | read name =>
    have htrace : Computes [n]
        (Eval.trace ["Variable lookup: ", .text name, " = ", lookup env name]) () :=
      .trace (by simp [lookup_of_integer? h, areWritten])
    rw [evaluate, if_neg hguard, figures, h, ← lookup_of_integer? h]
    exact htrace.bind_pure
  | call name args =>
    have hcall := h
    rw [integer?] at h
    obtain ⟨function, hfunction, h⟩ := Option.bind_eq_some_iff.mp h
    obtain ⟨values, hvalues, h⟩ := Option.bind_eq_some_iff.mp h
    obtain rfl := Option.some.inj h
    rw [height] at hdepth
    have hargs := computes_evaluateAll env args hvalues (show depth + 1 + _ ≤ _ by omega)
    have hname : name ≠ "ref" := by
      rintro rfl
      cases hfunction
    rw [evaluate, if_neg hguard, figures, hvalues, hcall]
    refine hargs.bind ?_
    rw [if_neg hname]
    exact computes_apply env hfunction values
  | _ => cases h

/-- The evaluation of several integer expressions. -/
theorem computes_evaluateAll (env : Env) (nodes : List Node) {values : List ℤ}
    (h : integers? env.vars nodes = some values) {depth : ℤ}
    (hdepth : depth + argumentHeight nodes ≤ maxEvalDepth + 1) :
    Computes (argumentFigures env.vars nodes) (evaluateAll env depth nodes)
      (values.map Scalar.int) := by
  cases nodes with
  | nil =>
    obtain rfl := Option.some.inj h
    simpa only [evaluateAll, argumentFigures] using .pure _
  | cons node rest =>
    rw [integers?] at h
    obtain ⟨value, hvalue, h⟩ := Option.bind_eq_some_iff.mp h
    obtain ⟨more, hmore, h⟩ := Option.bind_eq_some_iff.mp h
    obtain rfl := Option.some.inj h
    rw [argumentHeight] at hdepth
    have hnode := computes_evaluate env node hvalue (show depth + _ ≤ _ by omega)
    have hrest := computes_evaluateAll env rest hmore (show depth + _ ≤ _ by omega)
    rw [evaluateAll, argumentFigures]
    exact hnode.bind hrest.bind_pure

end

/-- **Integer expressions are evaluated exactly.** Take an expression made of integers, of variables
that are integers or were never set, and of sums, differences and products, nested at most 32 deep.
If every variable that is read and every argument and result of a call has at most 4300 digits, its
value is the integer that it stands for, and otherwise there is a fault. No random draw is taken. In
a run neither the variables nor the rest of the world change. -/
theorem evaluate_integer (env : Env) {node : Node} {n : ℤ} (h : node.integer? env.vars = some n)
    (hheight : node.height ≤ 32) :
    (∀ state : EvalState,
      ((∀ m ∈ node.figures env.vars, m.natAbs < Scalar.writtenBound) →
        ∃ trace, (evaluate env 0 node).run state = (.ok (.int n), ⟨trace, state.drawn⟩)) ∧
      ((∃ m ∈ node.figures env.vars, Scalar.writtenBound ≤ m.natAbs) →
        ∃ fault trace, fault.kind.name = "ValueError" ∧
          (evaluate env 0 node).run state = (.error fault, ⟨trace, state.drawn⟩))) ∧
    ∀ settings (state : RunState), state.world.vars = env.vars →
      ((Run.value settings node).run state).2.world = state.world ∧
        ((Run.value settings node).run state).2.drawn = state.drawn := by
  have hdepth : 0 + (node.height : ℤ) ≤ maxEvalDepth := by
    rw [maxEvalDepth]
    omega
  refine ⟨fun state => ⟨fun hwritten => ?_, fun hlong => ?_⟩, fun settings state hvars => ?_⟩
  · obtain ⟨trace, hrun⟩ := computes_evaluate env node h hdepth state
    have hall : areWritten (node.figures env.vars) = true := by simpa [areWritten] using hwritten
    exact ⟨trace, by rw [hrun, hall]; rfl⟩
  · obtain ⟨trace, hrun⟩ := computes_evaluate env node h hdepth state
    have hall : areWritten (node.figures env.vars) = false := by simpa [areWritten] using hlong
    exact ⟨.digitsToWrite, trace, rfl, by rw [hrun, hall]; rfl⟩
  · rw [Run.run_value]
    refine ⟨rfl, ?_⟩
    rw [← hvars] at h
    obtain ⟨trace, hrun⟩ :=
      computes_evaluate ⟨state.world.vars, settings.draw⟩ node h hdepth ⟨#[], state.drawn⟩
    rw [Run.evaluated, Run.evaluation, hrun]

/-- An integer of 4300 digits, the smallest. -/
def longInteger : ℤ := Nat.pow 10 4299

/-- One variable with the value `longInteger`. -/
def longEnv : Env := ⟨⟨[("long", .int longInteger)]⟩, fun _ => .int 0⟩

/-- `sub(mul(ref(long), 9), ref(never), sub(7))`, which has 4300 digits. -/
def longExpression : Node :=
  .call "sub" [.call "mul" [.read "long", .number (.int 9)], .read "never",
    .call "sub" [.number (.int 7)]]

/-- `add(mul(ref(long), 10), sub(ref(long)))`, of which the product has a digit more. -/
def tooLongExpression : Node :=
  .call "add" [.call "mul" [.read "long", .number (.int 10)], .call "sub" [.read "long"]]

theorem longExpression_exact :
    (∃ trace, (evaluate longEnv 0 longExpression).run ⟨#[], 3⟩ =
      (.ok (.int (9 * longInteger + 7)), ⟨trace, 3⟩)) ∧
    ∃ fault trace, fault.kind.name = "ValueError" ∧
      (evaluate longEnv 0 tooLongExpression).run ⟨#[], 3⟩ = (.error fault, ⟨trace, 3⟩) := by
  have hvalue : longExpression.integer? longEnv.vars = some (9 * longInteger + 7) := by
    decide +kernel
  have hwritten : ∀ m ∈ longExpression.figures longEnv.vars, m.natAbs < Scalar.writtenBound := by
    decide +kernel
  have hsum : tooLongExpression.integer? longEnv.vars = some (9 * longInteger) := by
    decide +kernel
  have hlong : ∃ m ∈ tooLongExpression.figures longEnv.vars, Scalar.writtenBound ≤ m.natAbs := by
    decide +kernel
  exact ⟨((evaluate_integer longEnv hvalue (by decide)).1 _).1 hwritten,
    ((evaluate_integer longEnv hsum (by decide)).1 _).2 hlong⟩

end TileScript
