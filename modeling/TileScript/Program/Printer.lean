import TileScript.Fault
import TileScript.Program.Node

/-!
# From programs to text

The canonical text of a program: one statement a line, directions in full and every field spelled
out. The statements of a block stand after their header, each after a dot; a nested block adds no
mark of its own, so a block reaches as far as the lines that start with a dot.

## Main definitions

* `Node.expressionText`: an expression where a value is expected.
* `Node.lines`: the lines of a statement.
* `unparse`: the text of a program.
-/

namespace TileScript

namespace Node

/-- A tree on one line, or the fault of an integer in it that cannot be written. -/
def shown (node : Node) : Except Fault String :=
  match node.shown? with
  | some line => .ok line
  | none => .error .digitsToWrite

/-- A bare value as messages show it, any other node as one line. -/
def displayed (node : Node) : Except Fault String :=
  match node with
  | .scalar value => Scalar.line [value]
  | node => node.shown

/-- A call with its arguments in parentheses. -/
def callText (name : String) (args : List String) : String :=
  name ++ "(" ++ ", ".intercalate args ++ ")"

mutual

/-- An expression where a value is expected; a call stands in brackets there. -/
def expressionText : Node → Except Fault String
  | .number value => Scalar.line [value]
  | .label name => .ok name
  | .read name => .ok ("ref(" ++ name ++ ")")
  | .call name args => do
    let args ← expressionTexts args
    return "[" ++ callText name args ++ "]"
  | node => do
    let line ← node.shown
    .error (.notExpression line)

/-- The arguments of a call. -/
def expressionTexts : List Node → Except Fault (List String)
  | [] => .ok []
  | node :: rest => do
    let text ← expressionText node
    let texts ← expressionTexts rest
    return text :: texts

end

/-- An expression on a line of its own; a call needs no brackets there. -/
def computedText : Node → Except Fault String
  | .call name args => do
    let args ← expressionTexts args
    return callText name args
  | node => node.expressionText

/-- A field of a statement, left out if its node is missing. -/
def optionalField (name : String) (node : Node) : Except Fault (List String) :=
  if node.isAbsent then .ok []
  else do
    let text ← node.expressionText
    return [name ++ "=" ++ text]

/-- The line of a move. A direction that is no text cannot be written. -/
def moveLine (id x y : Node) (direction : Scalar) (state : Node) (swap : Scalar) :
    Except Fault String := do
  let id ← id.expressionText
  let x ← optionalField "x" x
  let y ← optionalField "y" y
  let state ← optionalField "set" state
  let swap := if swap.truthy then ["swap"] else []
  if direction.truthy then
    match direction with
    | .text name =>
      return " ".intercalate (["move id=" ++ id, name] ++ x ++ y ++ state ++ swap)
    | other => .error (.notJoinable other.kind)
  else return " ".intercalate (["move id=" ++ id] ++ x ++ y ++ state ++ swap)

/-- The line above the blocks of a condition. -/
def branchHeader (left : Node) (relation : Scalar) (right : Node) (key : Scalar) :
    Except Fault String := do
  let left ← left.expressionText
  let start := "if id=" ++ left ++ " is"
  if relation.same "assigned" then Scalar.line [start, " assigned ", key]
  else if relation.same "is" then do
    let right ← right.expressionText
    return start ++ " id=" ++ right
  else do
    let start ← Scalar.line [start, " ", relation]
    let right ← right.expressionText
    return start ++ " id=" ++ right

mutual

/-- The lines of a statement. -/
def lines : Node → Except Fault (List String)
  | .canvas width height => do
    let line ← Scalar.line ["canvas ", width, " ", height]
    return [line]
  | .define name value => do
    let value ← value.expressionText
    return ["ref=" ++ name ++ "(" ++ value ++ ")"]
  | .compute expr => do
    let text ← expr.computedText
    return [text]
  | .spawn id x y state => do
    let id ← id.expressionText
    let x ← x.expressionText
    let y ← y.expressionText
    let state ← state.expressionText
    return ["spawn id=" ++ id ++ " x=" ++ x ++ " y=" ++ y ++ " state=" ++ state]
  | .despawn id => do
    let id ← id.displayed
    return ["despawn id=" ++ id]
  | .move id x y direction state swap => do
    let line ← moveLine id x y direction state swap
    return [line]
  | .wait duration => do
    let line ← Scalar.line ["wait ", duration]
    return [line]
  | .loop delay count block => do
    let header ←
      if count = .null then Scalar.line ["repeat ", delay]
      else Scalar.line ["repeat ", delay, " ", count]
    let block ← blockLines block
    return header :: block
  | .branch left relation right key whenTrue whenFalse => do
    let header ← branchHeader left relation right key
    let trueLines ← blockLines whenTrue
    let falseLines ← blockLines whenFalse
    return header :: (if whenTrue.isEmpty then [] else "..true" :: trueLines)
      ++ (if whenFalse.isEmpty then [] else "..false" :: falseLines)
  | .assign key value => do
    match value with
    | .read name => return ["assign " ++ key ++ " to ref(" ++ name ++ ")"]
    | value => do
      let value ← value.expressionText
      return ["assign " ++ key ++ " to id=" ++ value]
  | node => do
    let line ← node.shown
    .error (.notStatement line)

/-- The lines of a block: the first line of each statement after a dot, the others as they are. -/
def blockLines : List Node → Except Fault (List String)
  | [] => .ok []
  | node :: rest => do
    let own ← node.lines
    let others ← blockLines rest
    match own with
    | [] => return others
    | first :: more => return (". " ++ first) :: more ++ others

end

/-- The lines of a program, without marks. -/
def programLines : List Node → Except Fault (List String)
  | [] => .ok []
  | node :: rest => do
    let own ← node.lines
    let others ← programLines rest
    return own ++ others

end Node

/-- The text of a program, each line with its end. -/
def unparse (program : List Node) : Except Fault String := do
  let lines ← Node.programLines program
  return String.join (lines.map (· ++ "\n"))

end TileScript
