import TileScript.Program.Node
import TileScript.Scalar.Arithmetic
import TileScript.Table
import TileScript.Text.Numeral

/-!
# Evaluation of expressions

An expression is reduced to a value, arguments from left to right before the function that takes
them. Reductions leave lines in a trace, and random draws are taken in turn from a sequence that is
fixed beforehand, so that evaluation is a function of its inputs. Lines and draws that precede a
fault remain.

## Main definitions

* `Eval`: computations that read draws, leave a trace and may fail.
* `coerceLabel`: the number that a text stands for.
* `evaluate`: the value of an expression at a given depth of nesting.
-/

namespace TileScript

/-- What evaluation reads: the variables and the sequence of random draws. -/
structure Env where
  vars : Table String Scalar
  draw : Nat → Scalar

/-- What evaluation leaves behind: the trace so far and the number of draws taken. -/
structure EvalState where
  trace : Array String
  drawn : Nat

/-- A computation that takes draws, leaves a trace and may fail. -/
abbrev Eval := ExceptT Fault (StateM EvalState)

namespace Eval

/-- Adds a line to the trace. A line that cannot be written is a fault. -/
def trace (pieces : List Scalar) : Eval Unit := do
  let line ← Scalar.line pieces
  modify fun state => { state with trace := state.trace.push line }

/-- Takes the next random draw. -/
def draw (env : Env) : Eval Scalar := do
  let state ← get
  set { state with drawn := state.drawn + 1 }
  return env.draw state.drawn

end Eval

/-- The number that a text stands for; not-a-number if it is no decimal numeral. -/
def coerceLabel (text : String) : Except Fault Scalar :=
  if Text.isDecimal text then do
    let x ← Text.readFloat text
    return (Scalar.float x).normalize
  else .ok (.float .nan)

namespace Eval

/-- The sum of the arguments. -/
def sum (args : List Scalar) : Except Fault Scalar := args.foldlM Scalar.add (.int 0)

/-- The first argument less the others; one alone changes its sign. -/
def difference : List Scalar → Except Fault Scalar
  | [] => .ok (.int 0)
  | [a] => a.neg
  | a :: rest => rest.foldlM Scalar.sub a

/-- The product of the arguments. -/
def product (args : List Scalar) : Except Fault Scalar := args.foldlM Scalar.mul (.int 1)

/-- The first argument divided by the others in turn. -/
def quotient : List Scalar → Except Fault Scalar
  | [] => .error (.noArguments "div")
  | a :: rest => rest.foldlM (fun a b =>
      if b.same (.int 0) then .error .divisionByZero else a.div b) a

/-- The remainder of the first argument by the others in turn. -/
def modulus : List Scalar → Except Fault Scalar
  | [] => .error (.noArguments "mod")
  | a :: rest => rest.foldlM (fun a b =>
      if b.same (.int 0) then .error .moduloByZero else a.remainder b) a

/-- A random whole number of steps above the lower bound. The draw is taken once the bounds are
known to be in order. -/
def random (env : Env) : List Scalar → Eval Scalar
  | low :: high :: _ => do
    if ← high.less low then throw (.boundsOutOfOrder low high)
    let draw ← draw env
    let width ← high.sub low
    let width ← width.add (.int 1)
    let product ← draw.mul width
    let steps ← product.floor
    (Scalar.int steps).add low
  | _ => throw .tooFewBounds

/-- The function of a name, if there is one. -/
def function? (env : Env) (name : String) : Option (List Scalar → Eval Scalar) :=
  if name = "add" then some fun args => sum args
  else if name = "sub" then some fun args => difference args
  else if name = "mul" then some fun args => product args
  else if name = "div" then some fun args => quotient args
  else if name = "mod" then some fun args => modulus args
  else if name = "random" then some (random env)
  else none

/-- The value of a variable; zero if it was never set. -/
def lookup (env : Env) (name : String) : Scalar := (env.vars.get? name).getD (.int 0)

/-- Applies a function to evaluated arguments; one that is not known gives zero. -/
def apply (env : Env) (name : String) (args : List Scalar) : Eval Scalar := do
  match function? env name with
  | none =>
    trace ["Unknown function: ", name, ", returning 0"]
    return .int 0
  | some function =>
    let result := (← function args).normalize
    trace (.text name :: .text "(" :: args.intersperse (.text ",") ++ [.text ") = ", result])
    return result

/-- The variable that the first argument names, or that argument's value if it names none. -/
def reference (env : Env) (args : List Node) (values : List Scalar) : Eval Scalar := do
  match args, values with
  | .label name :: _, _ =>
    let value := lookup env name
    trace ["ref(", name, ") = ", value]
    return value
  | .scalar (.text name) :: _, _ => return lookup env name
  | _ :: _, value :: _ =>
    trace ["ref(dynamic) = ", value]
    return value
  | _, _ => return .int 0

end Eval

/-- Expressions nested deeper than this are refused. -/
def maxEvalDepth : Int := 32

mutual

/-- The value of an expression that stands at the given depth. A missing one has no value. -/
def evaluate (env : Env) (depth : Int) (node : Node) : Eval Scalar := do
  if maxEvalDepth < depth then throw .evaluationDepth
  match node with
  | .scalar (.bool b) => return .int (if b then 1 else 0)
  | .scalar (.text s) => coerceLabel s
  | .scalar value => return value.normalize
  | .number value => return value.normalize
  | .label name => coerceLabel name
  | .read name =>
    let value := Eval.lookup env name
    Eval.trace ["Variable lookup: ", name, " = ", value]
    return value
  | .call name args =>
    let values ← evaluateAll env (depth + 1) args
    if name = "ref" then Eval.reference env args values else Eval.apply env name values
  | node =>
    Eval.trace ["Unknown node type: ", node.className, ", returning 0"]
    return .int 0

/-- The values of a list of expressions, from left to right. -/
def evaluateAll (env : Env) (depth : Int) : List Node → Eval (List Scalar)
  | [] => return []
  | node :: rest => do
    let value ← evaluate env depth node
    let values ← evaluateAll env depth rest
    return value :: values

end

end TileScript
