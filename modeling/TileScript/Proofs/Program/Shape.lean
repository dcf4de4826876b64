import TileScript.Proofs.Program.RoundTrip

/-!
# The shape of parsed programs

Hosts may hand over any tree, but the trees of program texts have a shape, at every depth: calls are
of the functions of the language, by one name each; conditions have a key or a second object, and
never both; the numbers in them are natural; and in every block only the last statement takes dotted
lines.

## Main definitions

* `Node.children`, `Node.Occurs`: the nodes of a tree at all depths.
* `Node.HasShape`: what the shape says of a node.

## Main statements

* `Node.hasShape_of_isPart`, `Node.isPart_of_mem_children`: the parts of the grammar have the shape,
  and they consist of parts of the grammar.
* `shape_of_parseSource`: every node of a program that comes from a text has the shape.
-/

namespace TileScript

/-- A natural number that a text can spell. -/
def Scalar.IsNatural (value : Scalar) : Prop := ∃ n : ℕ, n < writtenBound ∧ value = .int n

namespace Node

/-! ## Nodes at all depths -/

/-- The nodes right below a node, missing ones among them. -/
def children : Node → List Node
  | .call _ args => args
  | .define _ value => [value]
  | .compute expr => [expr]
  | .spawn id x y state => [id, x, y, state]
  | .despawn id => [id]
  | .move id x y _ state _ => [id, x, y, state]
  | .loop _ _ block => block
  | .branch left _ right _ whenTrue whenFalse => left :: right :: (whenTrue ++ whenFalse)
  | .assign _ value => [value]
  | _ => []

/-- The node stands in a list of trees, at some depth. -/
inductive Occurs (node : Node) : List Node → Prop where
  | here {nodes : List Node} (h : node ∈ nodes) : Occurs node nodes
  | inside {parent : Node} {nodes : List Node} (hparent : parent ∈ nodes)
    (h : Occurs node parent.children) : Occurs node nodes

/-! ## Shape -/

/-- Only the last statement of a block takes the dotted lines after it. -/
def OpensLast (block : List Node) : Prop := ∀ node ∈ block.dropLast, node.opens = false

/-- A relation with a key if it is about one, and else with a second object. -/
def IsRelation (relation : Scalar) (right : Node) (key : Scalar) : Prop :=
  (relation = .text "assigned" ∧ right.isAbsent = true ∧ ∃ name, key = .text name) ∨
  ((∃ name ∈ spatialNames, relation = .text name) ∧ right.isAbsent = false ∧ key = .null)

/-- What the shape of programs says of a single node. -/
def HasShape : Node → Prop
  | .scalar value => value = .null ∨ value.IsNatural
  | .number value => value.IsNatural
  | .label name | .read name => isName name = true
  | .call name _ => name ∈ callNames
  | .canvas width height => width.IsNatural ∧ height.IsNatural
  | .define name _ => isName name = true
  | .compute expr => (∃ name, expr = .read name) ∨ ∃ name args, expr = .call name args
  | .spawn id x y state =>
    id.isAbsent = false ∧ x.isAbsent = false ∧ y.isAbsent = false ∧ state.isAbsent = false
  | .despawn id => ∃ value : Scalar, value.IsNatural ∧ id = .scalar value
  | .move id _ _ direction _ swap => id.isAbsent = false ∧
    (direction = .null ∨ ∃ name ∈ directionNames, direction = .text name) ∧ ∃ b, swap = .bool b
  | .wait duration => duration.IsNatural
  | .loop delay count block => delay.IsNatural ∧
    (count = .null ∨ count = .text "forever" ∨ count.IsNatural) ∧ OpensLast block
  | .branch left relation right key whenTrue whenFalse => left.isAbsent = false ∧
    IsRelation relation right key ∧ OpensLast whenTrue ∧ OpensLast whenFalse
  | .assign key value => isName key = true ∧ value.isAbsent = false

/-- The parts of programs of the grammar: statements, expressions, missing nodes, and the bare
numbers of removals. -/
def IsPart (node : Node) : Prop :=
  node.isStatement = true ∨ node.isOptional = true ∨
    ∃ value : Scalar, value.isNumeral = true ∧ node = .scalar value

theorem isPart_of_isExpression {node : Node} (h : node.isExpression = true) : node.IsPart :=
  .inr (.inl (by rw [isOptional, h, Bool.or_true]))

theorem isAbsent_eq_false {node : Node} (h : node.isExpression = true) : node.isAbsent = false := by
  cases node <;> simp_all [isExpression, isAbsent]

theorem isExpression_of_isComputed {node : Node} (h : node.isComputed = true) :
    node.isExpression = true ∧
      ((∃ name, node = .read name) ∨ ∃ name args, node = .call name args) := by
  cases node <;> simp_all [isComputed, isExpression]

theorem opensLast_of_isBlock {block : List Node} (h : isBlock block = true) : OpensLast block := by
  induction block with
  | nil => simp [OpensLast]
  | cons node rest ih =>
    simp only [isBlock, Bool.and_eq_true] at h
    cases rest with
    | nil => simp [OpensLast]
    | cons next rest =>
      have hrest := ih h.2
      simp_all [OpensLast]

/-- A statement of the grammar has the shape. -/
theorem hasShape_of_isStatement {node : Node} (h : node.isStatement = true) : node.HasShape := by
  cases node with
  | loop delay count block =>
    simp only [isStatement, Bool.and_eq_true] at h
    obtain ⟨⟨hdelay, hcount⟩, hblock⟩ := h
    exact ⟨Scalar.exists_of_isNumeral hdelay, cases_of_isCount hcount, opensLast_of_isBlock hblock⟩
  | branch left relation right key whenTrue whenFalse =>
    simp only [isStatement, Bool.and_eq_true] at h
    obtain ⟨⟨⟨hleft, hcondition⟩, htrue⟩, hfalse⟩ := h
    refine ⟨isAbsent_eq_false hleft, ?_, opensLast_of_isBlock htrue, opensLast_of_isBlock hfalse⟩
    obtain ⟨name, rfl, rfl, rfl, -⟩ | ⟨name, hname, rfl, hright, rfl⟩ :=
      cases_of_isCondition hcondition
    · exact .inl ⟨rfl, rfl, name, rfl⟩
    · exact .inr ⟨⟨name, hname, rfl⟩, isAbsent_eq_false hright, rfl⟩
  | canvas width height =>
    simp only [isStatement, isSimple, Bool.and_eq_true] at h
    exact ⟨Scalar.exists_of_isNumeral h.1, Scalar.exists_of_isNumeral h.2⟩
  | define name value =>
    simp only [isStatement, isSimple, Bool.and_eq_true] at h
    exact h.1
  | compute expr => exact (isExpression_of_isComputed (by simpa [isStatement, isSimple] using h)).2
  | spawn id x y state =>
    simp only [isStatement, isSimple, Bool.and_eq_true] at h
    obtain ⟨⟨⟨hid, hx⟩, hy⟩, hstate⟩ := h
    exact ⟨isAbsent_eq_false hid, isAbsent_eq_false hx, isAbsent_eq_false hy,
      isAbsent_eq_false hstate⟩
  | despawn id =>
    obtain ⟨value, hvalue, rfl⟩ :=
      exists_of_isSimple_despawn (isSimple_of_isStatement h (by simp) (by simp))
    exact ⟨value, Scalar.exists_of_isNumeral hvalue, rfl⟩
  | move id x y direction state swap =>
    obtain ⟨swaps, rfl, hid, -, -, hdirection, -⟩ :=
      exists_of_isSimple_move (isSimple_of_isStatement h (by simp) (by simp))
    exact ⟨isAbsent_eq_false hid, cases_of_isDirection hdirection, swaps, rfl⟩
  | wait duration =>
    exact Scalar.exists_of_isNumeral (by simpa [isStatement, isSimple] using h)
  | assign key value =>
    simp only [isStatement, isSimple, Bool.and_eq_true] at h
    exact ⟨h.1, isAbsent_eq_false h.2⟩
  | _ => simp [isStatement, isSimple] at h

/-- An expression of the grammar has the shape. -/
theorem hasShape_of_isExpression {node : Node} (h : node.isExpression = true) :
    node.HasShape := by
  cases node with
  | number value => exact Scalar.exists_of_isNumeral (by simpa [isExpression] using h)
  | label name => simpa [isExpression, HasShape] using h
  | read name => simpa [isExpression, HasShape] using h
  | call name args =>
    simp only [isExpression, Bool.and_eq_true] at h
    exact List.contains_iff_mem.mp h.1
  | _ => simp [isExpression] at h

theorem hasShape_of_isPart {node : Node} (h : node.IsPart) : node.HasShape := by
  obtain hstatement | hoptional | ⟨value, hvalue, rfl⟩ := h
  · exact hasShape_of_isStatement hstatement
  · rw [isOptional, Bool.or_eq_true] at hoptional
    obtain habsent | hexpression := hoptional
    · obtain rfl := eq_absent_of_isAbsent habsent
      exact .inl rfl
    · exact hasShape_of_isExpression hexpression
  · exact .inr (Scalar.exists_of_isNumeral hvalue)

/-! ## Parts of parts -/

/-- The parts of a statement of the grammar. -/
theorem isPart_of_mem_statement {node child : Node} (h : node.isStatement = true)
    (hchild : child ∈ node.children) : child.IsPart := by
  cases node with
  | loop delay count block =>
    simp only [isStatement, Bool.and_eq_true] at h
    exact .inl (isStatement_of_mem h.2 hchild)
  | branch left relation right key whenTrue whenFalse =>
    simp only [isStatement, Bool.and_eq_true] at h
    obtain ⟨⟨⟨hleft, hcondition⟩, htrue⟩, hfalse⟩ := h
    simp only [children, List.mem_cons, List.mem_append] at hchild
    obtain rfl | rfl | hmem | hmem := hchild
    · exact isPart_of_isExpression hleft
    · obtain ⟨-, -, rfl, -⟩ | ⟨-, -, -, hright, -⟩ := cases_of_isCondition hcondition
      · exact .inr (.inl rfl)
      · exact isPart_of_isExpression hright
    · exact .inl (isStatement_of_mem htrue hmem)
    · exact .inl (isStatement_of_mem hfalse hmem)
  | define name value =>
    simp only [isStatement, isSimple, Bool.and_eq_true] at h
    obtain rfl := List.mem_singleton.mp hchild
    exact isPart_of_isExpression h.2
  | compute expr =>
    obtain rfl := List.mem_singleton.mp hchild
    exact isPart_of_isExpression
      (isExpression_of_isComputed (by simpa [isStatement, isSimple] using h)).1
  | spawn id x y state =>
    simp only [isStatement, isSimple, Bool.and_eq_true] at h
    obtain ⟨⟨⟨hid, hx⟩, hy⟩, hstate⟩ := h
    simp only [children, List.mem_cons, List.not_mem_nil, or_false] at hchild
    obtain rfl | rfl | rfl | rfl := hchild
    all_goals exact isPart_of_isExpression ‹_›
  | despawn id =>
    obtain rfl := List.mem_singleton.mp hchild
    exact .inr (.inr (exists_of_isSimple_despawn (isSimple_of_isStatement h (by simp) (by simp))))
  | move id x y direction state swap =>
    obtain ⟨-, -, hid, hx, hy, -, hstate⟩ :=
      exists_of_isSimple_move (isSimple_of_isStatement h (by simp) (by simp))
    simp only [children, List.mem_cons, List.not_mem_nil, or_false] at hchild
    obtain rfl | rfl | rfl | rfl := hchild
    · exact isPart_of_isExpression hid
    all_goals exact .inr (.inl ‹_›)
  | assign key value =>
    simp only [isStatement, isSimple, Bool.and_eq_true] at h
    obtain rfl := List.mem_singleton.mp hchild
    exact isPart_of_isExpression h.2
  | call name args => simp [isStatement, isSimple] at h
  | _ => cases hchild

/-- The parts of programs of the grammar consist of such parts. -/
theorem isPart_of_mem_children {node child : Node} (h : node.IsPart)
    (hchild : child ∈ node.children) : child.IsPart := by
  obtain hstatement | hoptional | ⟨value, -, rfl⟩ := h
  · exact isPart_of_mem_statement hstatement hchild
  · rw [isOptional, Bool.or_eq_true] at hoptional
    obtain habsent | hexpression := hoptional
    · obtain rfl := eq_absent_of_isAbsent habsent
      cases hchild
    · cases node with
      | call name args =>
        simp only [isExpression, Bool.and_eq_true] at hexpression
        exact isPart_of_isExpression (Parser.areExpressions_iff.mp hexpression.2 child hchild)
      | number | label | read => cases hchild
      | _ => simp [isExpression] at hexpression
  · cases hchild

/-- Every node at any depth is a part of the grammar if those at the top are. -/
theorem Occurs.isPart {node : Node} {nodes : List Node} (h : node.Occurs nodes)
    (hnodes : ∀ top ∈ nodes, top.IsPart) : node.IsPart := by
  induction h with
  | here hmem => exact hnodes _ hmem
  | inside hparent _ ih =>
    exact ih fun child hchild => isPart_of_mem_children (hnodes _ hparent) hchild

end Node

/-! ## Parsed programs -/

open TileScript.Node

/-- **The shape of parsed programs.** A program that comes from a text is one of the grammar, and
every node in it, at any depth, has the shape that `HasShape` says: a call is of one of the six
functions by their names in trees; what is computed is a variable or a call; a move goes in one of
the six directions or in none; a condition has a key and no second object if it is about a key, and
else a second object and no key; all numbers are natural; and in each block a loop, or a condition
with a block of its own, is the last statement. -/
theorem shape_of_parseSource {source : String} {depth : ℕ} {program : List Node}
    (h : parseSource depth source = .ok program) :
    isProgram program = true ∧ ∀ node : Node, node.Occurs program → node.HasShape := by
  obtain ⟨hprogram, -⟩ := settles_of_parseSource h
  refine ⟨hprogram, fun node hnode => hasShape_of_isPart (hnode.isPart fun top htop => ?_)⟩
  exact .inl (List.all_eq_true.mp hprogram top htop)

/-- A loop around a call under another name, and around a condition on a key that moves an object by
the key of a direction. -/
def nestedSource : String :=
  "repeat 5 forever\n. rand 1 [rand 2 3]\n. if id=1 is assigned w\n..true\n. move id=1 w\n"

/-- The program of `nestedSource`. -/
def nestedProgram : List Node :=
  [.loop (.int 5) "forever"
    [.compute (.call "random"
        [.number (.int 1), .call "random" [.number (.int 2), .number (.int 3)]]),
      .branch (.number (.int 1)) "assigned" .absent "w"
        [.move (.number (.int 1)) .absent .absent "up" .absent (.bool false)] []]]

theorem parseSource_nestedSource : parseSource nestingLimit nestedSource = .ok nestedProgram :=
  parseSource_of_sameAll (by decide +kernel) (by decide +kernel)

theorem shape_of_nestedSource :
    parseSource nestingLimit nestedSource = .ok nestedProgram ∧
      ∀ node : Node, node.Occurs nestedProgram → node.HasShape :=
  ⟨parseSource_nestedSource, (shape_of_parseSource parseSource_nestedSource).2⟩

end TileScript
