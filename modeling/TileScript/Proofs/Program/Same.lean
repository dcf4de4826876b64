import TileScript.Proofs.Program.Grammar

/-!
# Equality of trees of the grammar

Trees are compared field by field, and numbers by their value, so that `1`, `1.0` and `true` are the
same. In trees of the grammar a field has values of one kind only, and there the comparison is
equality.

## Main statements

* `Node.sameAll_iff`: programs of the grammar are the same if and only if they are equal.
-/

namespace TileScript

/-- A value whose kind its field settles: an integer, a text or nothing. -/
def Scalar.isPlain : Scalar → Bool
  | .null | .int _ | .text _ => true
  | _ => false

theorem Scalar.same_iff_of_isPlain {a b : Scalar} (ha : a.isPlain = true) (hb : b.isPlain = true) :
    a.same b = true ↔ a = b := by
  cases a <;> cases b <;> simp_all [isPlain, same, number?, Number.same]

theorem Scalar.isPlain_of_isNumeral {value : Scalar} (h : value.isNumeral = true) :
    value.isPlain = true := by
  cases value <;> simp_all [isPlain, isNumeral]

namespace Node

mutual

/-- All values of the tree are plain; only the mark of a swap is a truth value. -/
def isPlain : Node → Bool
  | .scalar value | .number value | .wait value => value.isPlain
  | .label _ | .read _ => true
  | .call _ args => arePlain args
  | .canvas width height => width.isPlain && height.isPlain
  | .define _ value | .assign _ value | .compute value | .despawn value => value.isPlain
  | .spawn id x y state => id.isPlain && x.isPlain && y.isPlain && state.isPlain
  | .move id x y direction state (.bool _) =>
    id.isPlain && x.isPlain && y.isPlain && direction.isPlain && state.isPlain
  | .loop delay count block => delay.isPlain && count.isPlain && arePlain block
  | .branch left relation right key whenTrue whenFalse =>
    left.isPlain && relation.isPlain && right.isPlain && key.isPlain && arePlain whenTrue &&
      arePlain whenFalse
  | _ => false

/-- All values of the trees are plain. -/
def arePlain : List Node → Bool
  | [] => true
  | node :: rest => node.isPlain && arePlain rest

end

mutual

theorem same_iff_of_isPlain (a b : Node) (ha : a.isPlain = true) (hb : b.isPlain = true) :
    a.same b = true ↔ a = b := by
  cases a with
  | scalar value | number value | wait value =>
    cases b <;> simp_all [same, isPlain, Scalar.same_iff_of_isPlain]
  | label name | read name => cases b <;> simp [same]
  | call name args =>
    cases b with
    | call name' args' =>
      rw [isPlain] at ha hb
      simp [same, sameAll_iff_of_arePlain args args' ha hb]
    | _ => simp [same]
  | canvas width height =>
    cases b <;> simp_all [same, isPlain, Scalar.same_iff_of_isPlain]
  | define name value =>
    cases b with
    | define name' value' =>
      rw [isPlain] at ha hb
      simp [same, same_iff_of_isPlain value value' ha hb]
    | _ => simp [same]
  | assign key value =>
    cases b with
    | assign key' value' =>
      rw [isPlain] at ha hb
      simp [same, same_iff_of_isPlain value value' ha hb]
    | _ => simp [same]
  | compute value =>
    cases b with
    | compute value' =>
      rw [isPlain] at ha hb
      simp [same, same_iff_of_isPlain value value' ha hb]
    | _ => simp [same]
  | despawn value =>
    cases b with
    | despawn value' =>
      rw [isPlain] at ha hb
      simp [same, same_iff_of_isPlain value value' ha hb]
    | _ => simp [same]
  | spawn id x y state =>
    cases b with
    | spawn id' x' y' state' =>
      simp only [isPlain, Bool.and_eq_true] at ha hb
      simp [same, same_iff_of_isPlain id id' ha.1.1.1 hb.1.1.1,
        same_iff_of_isPlain x x' ha.1.1.2 hb.1.1.2, same_iff_of_isPlain y y' ha.1.2 hb.1.2,
        same_iff_of_isPlain state state' ha.2 hb.2, and_assoc]
    | _ => simp [same]
  | move id x y direction state swap =>
    cases b with
    | move id' x' y' direction' state' swap' =>
      cases swap with
      | bool swap =>
        cases swap' with
        | bool swap' =>
          simp only [isPlain, Bool.and_eq_true] at ha hb
          have hswap : (Scalar.bool swap).same (.bool swap') = true ↔ swap = swap' := by
            cases swap <;> cases swap' <;> decide
          simp [same, same_iff_of_isPlain id id' ha.1.1.1.1 hb.1.1.1.1,
            same_iff_of_isPlain x x' ha.1.1.1.2 hb.1.1.1.2,
            same_iff_of_isPlain y y' ha.1.1.2 hb.1.1.2,
            Scalar.same_iff_of_isPlain ha.1.2 hb.1.2,
            same_iff_of_isPlain state state' ha.2 hb.2, hswap, and_assoc]
        | _ => simp [isPlain] at hb
      | _ => simp [isPlain] at ha
    | _ => simp [same]
  | loop delay count block =>
    cases b with
    | loop delay' count' block' =>
      simp only [isPlain, Bool.and_eq_true] at ha hb
      simp [same, Scalar.same_iff_of_isPlain ha.1.1 hb.1.1,
        Scalar.same_iff_of_isPlain ha.1.2 hb.1.2, sameAll_iff_of_arePlain block block' ha.2 hb.2,
        and_assoc]
    | _ => simp [same]
  | branch left relation right key whenTrue whenFalse =>
    cases b with
    | branch left' relation' right' key' whenTrue' whenFalse' =>
      simp only [isPlain, Bool.and_eq_true] at ha hb
      simp [same, same_iff_of_isPlain left left' ha.1.1.1.1.1 hb.1.1.1.1.1,
        Scalar.same_iff_of_isPlain ha.1.1.1.1.2 hb.1.1.1.1.2,
        same_iff_of_isPlain right right' ha.1.1.1.2 hb.1.1.1.2,
        Scalar.same_iff_of_isPlain ha.1.1.2 hb.1.1.2,
        sameAll_iff_of_arePlain whenTrue whenTrue' ha.1.2 hb.1.2,
        sameAll_iff_of_arePlain whenFalse whenFalse' ha.2 hb.2, and_assoc]
    | _ => simp [same]

theorem sameAll_iff_of_arePlain (as bs : List Node) (ha : arePlain as = true)
    (hb : arePlain bs = true) : sameAll as bs = true ↔ as = bs := by
  cases as with
  | nil => cases bs <;> simp [sameAll]
  | cons a as =>
    cases bs with
    | nil => simp [sameAll]
    | cons b bs =>
      rw [arePlain, Bool.and_eq_true] at ha hb
      rw [sameAll, Bool.and_eq_true, same_iff_of_isPlain a b ha.1 hb.1,
        sameAll_iff_of_arePlain as bs ha.2 hb.2, List.cons.injEq]

end

/-! ## Trees of the grammar -/

mutual

theorem isPlain_of_isExpression (node : Node) (h : node.isExpression = true) :
    node.isPlain = true := by
  cases node with
  | number value =>
    rw [isExpression] at h
    rw [isPlain, Scalar.isPlain_of_isNumeral h]
  | label name => rw [isPlain]
  | read name => rw [isPlain]
  | call name args =>
    rw [isExpression, Bool.and_eq_true] at h
    rw [isPlain, arePlain_of_areExpressions args h.2]
  | _ => simp [isExpression] at h

theorem arePlain_of_areExpressions (nodes : List Node) (h : areExpressions nodes = true) :
    arePlain nodes = true := by
  cases nodes with
  | nil => rw [arePlain]
  | cons node rest =>
    rw [areExpressions, Bool.and_eq_true] at h
    rw [arePlain, isPlain_of_isExpression node h.1, arePlain_of_areExpressions rest h.2,
      Bool.and_self]

end

theorem isPlain_of_isOptional {node : Node} (h : node.isOptional = true) : node.isPlain = true := by
  rw [isOptional, Bool.or_eq_true] at h
  rcases h with h | h
  · rw [eq_absent_of_isAbsent h]
    rfl
  · exact isPlain_of_isExpression node h

theorem isPlain_of_isSimple {node : Node} (h : node.isSimple = true) : node.isPlain = true := by
  cases node with
  | canvas width height =>
    rw [isSimple, Bool.and_eq_true] at h
    simp [isPlain, Scalar.isPlain_of_isNumeral h.1, Scalar.isPlain_of_isNumeral h.2]
  | define name value =>
    rw [isSimple, Bool.and_eq_true] at h
    rw [isPlain, isPlain_of_isExpression value h.2]
  | compute expr =>
    rw [isSimple] at h
    cases expr with
    | read name => simp [isPlain]
    | call name args =>
      rw [isComputed, Bool.and_eq_true] at h
      simp [isPlain, arePlain_of_areExpressions args h.2]
    | _ => simp [isComputed] at h
  | spawn id x y state =>
    simp only [isSimple, Bool.and_eq_true] at h
    simp [isPlain, isPlain_of_isExpression, h]
  | despawn id =>
    obtain ⟨value, hvalue, rfl⟩ := exists_of_isSimple_despawn h
    simp [isPlain, Scalar.isPlain_of_isNumeral hvalue]
  | move id x y direction state swap =>
    obtain ⟨swaps, rfl, hid, hx, hy, hdirection, hstate⟩ := exists_of_isSimple_move h
    have hplain : direction.isPlain = true := by
      rcases cases_of_isDirection hdirection with rfl | ⟨name, -, rfl⟩ <;> rfl
    simp [isPlain, isPlain_of_isExpression, isPlain_of_isOptional, hplain, hid, hx, hy, hstate]
  | wait duration =>
    rw [isSimple] at h
    rw [isPlain, Scalar.isPlain_of_isNumeral h]
  | assign key value =>
    rw [isSimple, Bool.and_eq_true] at h
    rw [isPlain, isPlain_of_isExpression value h.2]
  | _ => simp [isSimple] at h

mutual

theorem isPlain_of_isStatement (node : Node) (h : node.isStatement = true) :
    node.isPlain = true := by
  cases node with
  | loop delay count block =>
    simp only [isStatement, Bool.and_eq_true] at h
    have hcount : count.isPlain = true := by
      rcases cases_of_isCount h.1.2 with rfl | rfl | ⟨n, -, rfl⟩ <;> rfl
    simp [isPlain, Scalar.isPlain_of_isNumeral h.1.1, hcount, arePlain_of_isBlock block h.2]
  | branch left relation right key whenTrue whenFalse =>
    simp only [isStatement, Bool.and_eq_true] at h
    have hheader : relation.isPlain = true ∧ right.isPlain = true ∧ key.isPlain = true := by
      rcases cases_of_isCondition h.1.1.2 with
        ⟨name, rfl, rfl, rfl, -⟩ | ⟨name, -, rfl, hright, rfl⟩
      · exact ⟨rfl, rfl, rfl⟩
      · exact ⟨rfl, isPlain_of_isExpression right hright, rfl⟩
    simp [isPlain, isPlain_of_isExpression left h.1.1.1, hheader,
      arePlain_of_isBlock whenTrue h.1.2, arePlain_of_isBlock whenFalse h.2]
  | _ => exact isPlain_of_isSimple (isSimple_of_isStatement h (by simp) (by simp))

theorem arePlain_of_isBlock (nodes : List Node) (h : isBlock nodes = true) :
    arePlain nodes = true := by
  cases nodes with
  | nil => rw [arePlain]
  | cons node rest =>
    simp only [isBlock, Bool.and_eq_true] at h
    rw [arePlain, isPlain_of_isStatement node h.1.1, arePlain_of_isBlock rest h.2, Bool.and_self]

end

theorem arePlain_of_isProgram {program : List Node} (h : isProgram program = true) :
    arePlain program = true := by
  induction program with
  | nil => rw [arePlain]
  | cons node program ih =>
    simp only [isProgram, List.all_cons, Bool.and_eq_true] at h
    rw [arePlain, isPlain_of_isStatement node h.1, ih h.2, Bool.and_self]

/-- **Programs of the grammar are the same if and only if they are equal.** -/
theorem sameAll_iff {p q : List Node} (hp : isProgram p = true) (hq : isProgram q = true) :
    sameAll p q = true ↔ p = q :=
  sameAll_iff_of_arePlain p q (arePlain_of_isProgram hp) (arePlain_of_isProgram hq)

end Node

end TileScript
