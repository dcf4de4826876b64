import TileScript.Program.Node
import TileScript.Proofs.Token.Spelling

/-!
# Trees of the grammar

The trees that program texts stand for, among all that hosts may hand over, and the lexemes of their
canonical text.

Only blocks have a condition that is not about single nodes: a loop, or a condition with a block of
its own, takes all the lines that start with a dot after it, so that it can only be the last of a
block.

## Main definitions

* `Node.isExpression`, `Node.isStatement`, `Node.isBlock`: the trees of the grammar.
* `Node.opens`: statements that take the dotted lines after them.
* `Node.expressionLexemes`, `Node.statementLexemes`, `Node.blockLexemes`, `Node.programLexemes`:
  the lexemes of the canonical text.
-/

namespace TileScript

/-- A natural number of at most 4300 digits. -/
def Scalar.isNumeral : Scalar → Bool
  | .int n => 0 ≤ n && n.natAbs < writtenBound
  | _ => false

/-- The lexeme of a natural number. -/
def Scalar.numeral : Scalar → Lexeme
  | .int n => .number n.natAbs
  | _ => .number 0

theorem Scalar.exists_of_isNumeral {value : Scalar} (h : value.isNumeral = true) :
    ∃ n : ℕ, n < writtenBound ∧ value = .int n := by
  cases value with
  | int n =>
    obtain ⟨hn, hbound⟩ : 0 ≤ n ∧ n.natAbs < writtenBound := by simpa [isNumeral] using h
    exact ⟨n.natAbs, hbound, by rw [Int.natAbs_of_nonneg hn]⟩
  | _ => simp [isNumeral] at h

namespace Node

/-! ## Expressions -/

/-- The functions of the language by the names that they have in trees. -/
def callNames : List String := ["add", "sub", "mul", "div", "mod", "random"]

mutual

/-- The expressions of the grammar. -/
def isExpression : Node → Bool
  | .number value => value.isNumeral
  | .label name => isName name
  | .read name => isName name
  | .call name args => callNames.contains name && areExpressions args
  | _ => false

/-- Whether all nodes of a list are expressions of the grammar. -/
def areExpressions : List Node → Bool
  | [] => true
  | node :: rest => node.isExpression && areExpressions rest

end

mutual

/-- The lexemes of an expression where a value is expected. -/
def expressionLexemes : Node → List Lexeme
  | .number value => [value.numeral]
  | .label name => [.word name]
  | .read name => [.word "ref", .openParen, .word name, .closeParen]
  | .call name args =>
    .openBracket :: .word name :: .openParen ::
      (argumentLexemes args ++ [.closeParen, .closeBracket])
  | _ => []

/-- The lexemes of the arguments of a call, with commas between them. -/
def argumentLexemes : List Node → List Lexeme
  | [] => []
  | node :: rest =>
    node.expressionLexemes ++ (if rest.isEmpty then [] else [.comma]) ++ argumentLexemes rest

end

/-- Expressions that stand as statements. -/
def isComputed : Node → Bool
  | .read name => isName name
  | .call name args => callNames.contains name && areExpressions args
  | _ => false

/-- The lexemes of an expression on a line of its own. -/
def computedLexemes : Node → List Lexeme
  | .call name args => .word name :: .openParen :: (argumentLexemes args ++ [.closeParen])
  | node => node.expressionLexemes

theorem eq_absent_of_isAbsent {node : Node} (h : node.isAbsent = true) : node = .absent := by
  unfold isAbsent at h
  split at h
  · rfl
  · simp at h

/-- A missing node or an expression. -/
def isOptional (node : Node) : Bool := node.isAbsent || node.isExpression

/-- The lexemes of a field, none if its node is missing. -/
def fieldLexemes (name : String) (node : Node) : List Lexeme :=
  if node.isAbsent then [] else .word name :: .equals :: node.expressionLexemes

/-! ## Statements -/

/-- The directions of moves by the names that they have in trees. -/
def directionNames : List String := ["left", "right", "up", "down", "over", "under"]

/-- The relations between two objects. -/
def spatialNames : List String := ["is", "on", "under", "over", "left", "right"]

/-- No direction or the name of one. -/
def isDirection : Scalar → Bool
  | .null => true
  | .text name => directionNames.contains name
  | _ => false

/-- The count of a loop: a number, `forever`, or none. -/
def isCount : Scalar → Bool
  | .null => true
  | .text name => name == "forever"
  | value => value.isNumeral

theorem cases_of_isDirection {direction : Scalar} (h : isDirection direction = true) :
    direction = .null ∨ ∃ name ∈ directionNames, direction = .text name := by
  cases direction with
  | null => exact .inl rfl
  | text name => exact .inr ⟨name, List.contains_iff_mem.mp h, rfl⟩
  | _ => cases h

theorem cases_of_isCount {count : Scalar} (h : isCount count = true) :
    count = .null ∨ count = .text "forever" ∨
      ∃ n : ℕ, n < Scalar.writtenBound ∧ count = .int n := by
  cases count with
  | null => exact .inl rfl
  | text name => exact .inr (.inl (by simpa [isCount] using h))
  | _ => exact .inr (.inr (Scalar.exists_of_isNumeral h))

/-- A relation with the object or the key that it needs, and nothing else. -/
def isCondition : Scalar → Node → Scalar → Bool
  | .text "assigned", right, .text key => right.isAbsent && isName key
  | .text name, right, .null => spatialNames.contains name && right.isExpression
  | _, _, _ => false

/-- The relation of a condition names a key or a second object. -/
theorem cases_of_isCondition {relation key : Scalar} {right : Node}
    (h : isCondition relation right key = true) :
    (∃ name, relation = .text "assigned" ∧ right = .absent ∧ key = .text name ∧
      isName name = true) ∨
    ∃ name ∈ spatialNames, relation = .text name ∧ right.isExpression = true ∧ key = .null := by
  unfold isCondition at h
  split at h
  · next right name =>
    rw [Bool.and_eq_true] at h
    exact .inl ⟨name, rfl, eq_absent_of_isAbsent h.1, rfl, h.2⟩
  · rw [Bool.and_eq_true] at h
    exact .inr ⟨_, List.contains_iff_mem.mp h.1, rfl, h.2, rfl⟩
  · simp at h

/-- Statements without blocks. -/
def isSimple : Node → Bool
  | .canvas width height => width.isNumeral && height.isNumeral
  | .define name value => isName name && value.isExpression
  | .compute expr => expr.isComputed
  | .spawn id x y state =>
    id.isExpression && x.isExpression && y.isExpression && state.isExpression
  | .despawn (.scalar id) => id.isNumeral
  | .move id x y direction state (.bool _) =>
    id.isExpression && x.isOptional && y.isOptional && isDirection direction && state.isOptional
  | .wait duration => duration.isNumeral
  | .assign key value => isName key && value.isExpression
  | _ => false

/-- A removal names its object by a bare number. -/
theorem exists_of_isSimple_despawn {id : Node} (h : (Node.despawn id).isSimple = true) :
    ∃ value : Scalar, value.isNumeral = true ∧ id = .scalar value := by
  cases id with
  | scalar value => exact ⟨value, h, rfl⟩
  | _ => cases h

/-- What the fields of a move are. -/
theorem exists_of_isSimple_move {id x y state : Node} {direction swap : Scalar}
    (h : (Node.move id x y direction state swap).isSimple = true) :
    ∃ swaps : Bool, swap = .bool swaps ∧ id.isExpression = true ∧ x.isOptional = true ∧
      y.isOptional = true ∧ isDirection direction = true ∧ state.isOptional = true := by
  cases swap with
  | bool swaps =>
    simp only [isSimple, Bool.and_eq_true] at h
    obtain ⟨⟨⟨⟨hid, hx⟩, hy⟩, hdirection⟩, hstate⟩ := h
    exact ⟨swaps, rfl, hid, hx, hy, hdirection, hstate⟩
  | _ => cases h

/-- Statements that take the dotted lines after them: loops, and conditions with a block. -/
def opens : Node → Bool
  | .loop .. => true
  | .branch _ _ _ _ whenTrue whenFalse => !(whenTrue.isEmpty && whenFalse.isEmpty)
  | _ => false

mutual

/-- The statements of the grammar. -/
def isStatement : Node → Bool
  | .loop delay count block => delay.isNumeral && isCount count && isBlock block
  | .branch left relation right key whenTrue whenFalse =>
    left.isExpression && isCondition relation right key && isBlock whenTrue && isBlock whenFalse
  | node => node.isSimple

/-- The blocks of the grammar. -/
def isBlock : List Node → Bool
  | [] => true
  | node :: rest => node.isStatement && (rest.isEmpty || !node.opens) && isBlock rest

end

/-- The programs of the grammar. -/
def isProgram (program : List Node) : Bool := program.all isStatement

/-- The lexemes of a direction. -/
def directionLexemes : Scalar → List Lexeme
  | .text name => [.word name]
  | _ => []

/-- The lexemes of a statement without blocks. -/
def simpleLexemes : Node → List Lexeme
  | .canvas width height => [.word "canvas", width.numeral, height.numeral]
  | .define name value =>
    .word "ref" :: .equals :: .word name :: .openParen :: (value.expressionLexemes ++ [.closeParen])
  | .compute expr => expr.computedLexemes
  | .spawn id x y state =>
    .word "spawn" :: .word "id" :: .equals :: (id.expressionLexemes ++
      .word "x" :: .equals :: (x.expressionLexemes ++
      .word "y" :: .equals :: (y.expressionLexemes ++
      .word "state" :: .equals :: state.expressionLexemes)))
  | .despawn (.scalar id) => [.word "despawn", .word "id", .equals, id.numeral]
  | .move id x y direction state swap =>
    .word "move" :: .word "id" :: .equals :: (id.expressionLexemes ++
      (directionLexemes direction ++ (fieldLexemes "x" x ++ (fieldLexemes "y" y ++
      (fieldLexemes "set" state ++ if swap.truthy then [.word "swap"] else [])))))
  | .wait duration => [.word "wait", duration.numeral]
  | .assign key (.read name) =>
    [.word "assign", .word key, .word "to", .word "ref", .openParen, .word name, .closeParen]
  | .assign key value =>
    .word "assign" :: .word key :: .word "to" :: .word "id" :: .equals :: value.expressionLexemes
  | _ => []

/-- The lexemes of a loop's count. -/
def countLexemes : Scalar → List Lexeme
  | .null => []
  | .text name => [.word name]
  | value => [value.numeral]

/-- The lexemes of a loop's first line. -/
def loopLexemes (delay count : Scalar) : List Lexeme :=
  .word "repeat" :: delay.numeral :: countLexemes count

/-- The lexemes of a relation with its object or key. -/
def relationLexemes : Scalar → Node → Scalar → List Lexeme
  | .text "assigned", _, .text key => [.word "assigned", .word key]
  | .text "is", right, _ => .word "id" :: .equals :: right.expressionLexemes
  | .text name, right, _ => .word name :: .word "id" :: .equals :: right.expressionLexemes
  | _, _, _ => []

/-- The lexemes of a condition's first line. -/
def branchLexemes (left : Node) (relation : Scalar) (right : Node) (key : Scalar) : List Lexeme :=
  .word "if" :: .word "id" :: .equals :: (left.expressionLexemes ++
    .word "is" :: relationLexemes relation right key)

/-- The word of a block's label. -/
def labelWord (label : Bool) : String := if label then "true" else "false"

mutual

/-- The lexemes of a statement. -/
def statementLexemes : Node → List Lexeme
  | .loop delay count block => loopLexemes delay count ++ blockLexemes block
  | .branch left relation right key whenTrue whenFalse =>
    branchLexemes left relation right key ++
      (if whenTrue.isEmpty then []
        else .dots 2 :: .word (labelWord true) :: blockLexemes whenTrue) ++
      if whenFalse.isEmpty then []
        else .dots 2 :: .word (labelWord false) :: blockLexemes whenFalse
  | node => node.simpleLexemes

/-- The lexemes of a block, each statement after a dot. -/
def blockLexemes : List Node → List Lexeme
  | [] => []
  | node :: rest => .dots 1 :: (node.statementLexemes ++ blockLexemes rest)

end

theorem isSimple_of_isStatement {node : Node} (h : node.isStatement = true)
    (hloop : ∀ delay count block, node ≠ .loop delay count block)
    (hbranch : ∀ left relation right key whenTrue whenFalse,
      node ≠ .branch left relation right key whenTrue whenFalse) : node.isSimple = true := by
  rwa [isStatement] at h
  · exact hloop
  · exact hbranch

theorem isStatement_of_isSimple {node : Node} (h : node.isSimple = true) :
    node.isStatement = true := by
  cases node <;> simp_all [isStatement, isSimple]

theorem isStatement_of_mem {nodes : List Node} (h : isBlock nodes = true) {node : Node}
    (hnode : node ∈ nodes) : node.isStatement = true := by
  induction nodes with
  | nil => cases hnode
  | cons first rest ih =>
    simp only [isBlock, Bool.and_eq_true] at h
    rcases List.mem_cons.mp hnode with rfl | hrest
    · exact h.1.1
    · exact ih h.2 hrest

theorem statementLexemes_of_isSimple {node : Node} (h : node.isSimple = true) :
    node.statementLexemes = node.simpleLexemes := by
  rw [statementLexemes]
  · rintro delay count block rfl
    simp [isSimple] at h
  · rintro left relation right key whenTrue whenFalse rfl
    simp [isSimple] at h

/-- The lexemes of a program. -/
def programLexemes (program : List Node) : List Lexeme := program.flatMap statementLexemes

end Node

end TileScript
