import TileScript.Scalar

/-!
# Programs as trees

A program is a list of statements, and statements hold expressions and blocks of statements. Hosts
may hand over trees that no program text gives: any node or bare value may stand where an
expression belongs, expressions may stand among the statements, and counts, relations and
durations may be any value. One type of node covers them all.

## Main definitions

* `Node`: expressions, statements and bare values.
* `Node.className`: the name of a node's class, or of a bare value's kind.
* `Node.same`: equality of trees, with values compared by `Scalar.same`.
* `Node.shown?`: a tree on one line with all its fields.
-/

namespace TileScript

/-- A node of a program tree. -/
inductive Node where
  /-- A bare value; `.null` where a node is missing. -/
  | scalar (value : Scalar)
  /-- A number written in the program. -/
  | number (value : Scalar)
  /-- A bare word, which stands for itself and never for a variable. -/
  | label (name : String)
  /-- The value of a variable. -/
  | read (name : String)
  /-- A function applied to arguments. -/
  | call (name : String) (args : List Node)
  /-- Sets the size of the board. -/
  | canvas (width height : Scalar)
  /-- Sets a variable. -/
  | define (name : String) (value : Node)
  /-- Reports the value of an expression. -/
  | compute (expr : Node)
  /-- Puts an object on the board. -/
  | spawn (id x y state : Node)
  /-- Takes an object off the board. -/
  | despawn (id : Node)
  /-- Moves an object, by a step, to a place, or both; may set its state and swap tiles. -/
  | move (id x y : Node) (direction : Scalar) (state : Node) (swap : Scalar)
  /-- Waits for a number of milliseconds. -/
  | wait (duration : Scalar)
  /-- Runs a block a number of times, without end, or as often as the run's default says. -/
  | loop (delay count : Scalar) (block : List Node)
  /-- Runs one of two blocks, by the relation of two objects or by a key bound to an object. -/
  | branch (left : Node) (relation : Scalar) (right : Node) (key : Scalar)
      (whenTrue whenFalse : List Node)
  /-- Binds a key to an object. -/
  | assign (key : String) (value : Node)
deriving Inhabited

namespace Node

/-- A missing node. -/
def absent : Node := .scalar .null

/-- Whether a node is missing. -/
def isAbsent : Node → Bool
  | .scalar .null => true
  | _ => false

/-- The name of a node's class, or of a bare value's kind. -/
def className : Node → String
  | .scalar value => value.kind.name
  | .number _ => "Number"
  | .label _ => "LiteralLabel"
  | .read _ => "VariableRead"
  | .call .. => "FunctionCall"
  | .canvas .. => "Canvas"
  | .define .. => "RefAssign"
  | .compute _ => "ExprStatement"
  | .spawn .. => "Spawn"
  | .despawn _ => "Despawn"
  | .move .. => "Move"
  | .wait _ => "Wait"
  | .loop .. => "Repeat"
  | .branch .. => "If"
  | .assign .. => "Assign"

mutual

/-- Equality of trees. -/
def same : Node → Node → Bool
  | .scalar a, .scalar b => a.same b
  | .number a, .number b => a.same b
  | .label a, .label b => a == b
  | .read a, .read b => a == b
  | .call a as, .call b bs => a == b && sameAll as bs
  | .canvas w h, .canvas w' h' => w.same w' && h.same h'
  | .define a v, .define b w => a == b && v.same w
  | .compute a, .compute b => a.same b
  | .spawn i x y s, .spawn i' x' y' s' => i.same i' && x.same x' && y.same y' && s.same s'
  | .despawn a, .despawn b => a.same b
  | .move i x y d s w, .move i' x' y' d' s' w' =>
    i.same i' && x.same x' && y.same y' && d.same d' && s.same s' && w.same w'
  | .wait a, .wait b => a.same b
  | .loop d c b, .loop d' c' b' => d.same d' && c.same c' && sameAll b b'
  | .branch l r o k t f, .branch l' r' o' k' t' f' =>
    l.same l' && r.same r' && o.same o' && k.same k' && sameAll t t' && sameAll f f'
  | .assign a v, .assign b w => a == b && v.same w
  | _, _ => false

/-- Equality of lists of trees. -/
def sameAll : List Node → List Node → Bool
  | [], [] => true
  | a :: as, b :: bs => a.same b && sameAll as bs
  | _, _ => false

end

/-- A class name with its fields, each given by its name and shown value. -/
def showFields? (name : String) (fields : List (String × Option String)) : Option String := do
  let parts ← fields.mapM fun (field, value) => value.map fun value => field ++ "=" ++ value
  return name ++ "(" ++ ", ".intercalate parts ++ ")"

/-- Shown items as one list in brackets. -/
def listShown? (items : Option (List String)) : Option String :=
  items.map fun items => "[" ++ ", ".intercalate items ++ "]"

mutual

/-- A tree on one line. There is none if an integer in it is too long to be written. -/
def shown? : Node → Option String
  | .scalar value => value.quoted?
  | .number value => showFields? "Number" [("value", value.quoted?)]
  | .label name => showFields? "LiteralLabel" [("name", Text.quoted name)]
  | .read name => showFields? "VariableRead" [("name", Text.quoted name)]
  | .call name args =>
    showFields? "FunctionCall"
      [("name", Text.quoted name), ("args", listShown? (shownEach? args))]
  | .canvas width height =>
    showFields? "Canvas" [("width", width.quoted?), ("height", height.quoted?)]
  | .define name value =>
    showFields? "RefAssign" [("name", Text.quoted name), ("value", value.shown?)]
  | .compute expr => showFields? "ExprStatement" [("expr", expr.shown?)]
  | .spawn id x y state =>
    showFields? "Spawn"
      [("id", id.shown?), ("x", x.shown?), ("y", y.shown?), ("state", state.shown?)]
  | .despawn id => showFields? "Despawn" [("id", id.shown?)]
  | .move id x y direction state swap =>
    showFields? "Move"
      [("id", id.shown?), ("x", x.shown?), ("y", y.shown?), ("rel", direction.quoted?),
        ("set", state.shown?), ("swap", swap.quoted?)]
  | .wait duration => showFields? "Wait" [("duration", duration.quoted?)]
  | .loop delay count block =>
    showFields? "Repeat"
      [("delay", delay.quoted?), ("count", count.quoted?),
        ("block", listShown? (shownEach? block))]
  | .branch left relation right key whenTrue whenFalse =>
    showFields? "If"
      [("left_id", left.shown?), ("relation", relation.quoted?), ("right_id", right.shown?),
        ("assigned_key", key.quoted?),
        ("true_block", listShown? (shownEach? whenTrue)),
        ("false_block", listShown? (shownEach? whenFalse))]
  | .assign key value =>
    showFields? "Assign" [("key", Text.quoted key), ("value", value.shown?)]

/-- The lines of the trees of a list. -/
def shownEach? : List Node → Option (List String)
  | [] => some []
  | node :: rest => do
    let line ← node.shown?
    let lines ← shownEach? rest
    return line :: lines

end

end Node

end TileScript
