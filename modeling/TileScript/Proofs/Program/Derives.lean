import TileScript.Proofs.Program.Reads

/-!
# How labels attach

Canonical texts carry no nesting depth. A dotted line belongs to the statement before it that takes
dotted lines, and a label belongs to the last condition that can still take it, so the text of a
condition inside the true block of another one takes the false block of the outer condition.

The derivations of this file are the readings of canonical texts. Each statement takes all that it
can, and a condition has a list of labelled blocks in which the label `false` may come again; the
last block counts. The parser finds the derivation, every program of the grammar has one, and a
label that comes after a condition extends its derivation.

## Main definitions

* `Node.endsInBranch`: a label after the statement would be taken for one of its own.
* `Node.dangles`: a false block somewhere comes after a true block that ends in a condition.
* `Derives`: the readings of canonical texts.

## Main statements

* `Derives.grow`: a false block after a condition is part of the condition.
* `Derives.wellFormed`: whatever is derived is of the grammar and does not dangle.
* `exists_derives_statement`, `exists_derives_block`: the statements and the blocks of the grammar
  have a derivation, which gives the tree itself if it does not dangle.
-/

namespace TileScript

open Filter TileScript.Node TileScript.Parser

namespace Node

mutual

/-- Whether the statement is a condition, or a loop whose block ends in one. -/
def endsInBranch : Node → Bool
  | .loop _ _ block => blockEndsInBranch block
  | .branch .. => true
  | _ => false

/-- Whether the last statement of a block ends in a condition. -/
def blockEndsInBranch : List Node → Bool
  | [] => false
  | [node] => node.endsInBranch
  | _ :: node :: rest => blockEndsInBranch (node :: rest)

end

mutual

/-- Whether the statement has, at any depth, a condition with a false block whose true block ends in
a condition. -/
def dangles : Node → Bool
  | .loop _ _ block => someDangles block
  | .branch _ _ _ _ whenTrue whenFalse =>
    (!whenFalse.isEmpty && blockEndsInBranch whenTrue) || someDangles whenTrue ||
      someDangles whenFalse
  | _ => false

/-- Whether some statement of a list dangles. -/
def someDangles : List Node → Bool
  | [] => false
  | node :: rest => node.dangles || someDangles rest

end

end Node

/-! ## The blocks of a condition -/

namespace Parser

variable {label : Bool} {block : List Node} {blocks : List (Bool × List Node)}

theorem lastBlock_eq_nil (label : Bool) (h : ∀ b ∈ blocks, b.1 ≠ label) :
    lastBlock label blocks = [] := by
  have hfind : blocks.reverse.find? (·.1 == label) = none := by
    simpa [List.find?_eq_none] using fun label' block hmem => h (label', block) hmem
  rw [lastBlock, hfind]
  rfl

theorem lastBlock_mem (h : (label, block) ∈ blocks) : (label, lastBlock label blocks) ∈ blocks := by
  cases hfind : blocks.reverse.find? (·.1 == label) with
  | none =>
    have hne := List.find?_eq_none.mp hfind _ (List.mem_reverse.mpr h)
    exact absurd (beq_self_eq_true label) hne
  | some b =>
    have hmem := List.mem_reverse.mp (List.mem_of_find?_eq_some hfind)
    have hlabel : b.1 = label := by simpa using List.find?_some hfind
    rw [lastBlock, hfind, ← hlabel]
    exact hmem

/-- What holds of the labelled blocks and of the empty one holds of the last under a label. -/
theorem lastBlock_induction {P : List Node → Prop} (label : Bool) (hnil : P [])
    (hblocks : ∀ b ∈ blocks, P b.2) : P (lastBlock label blocks) := by
  by_cases hmem : ∃ block, (label, block) ∈ blocks
  · obtain ⟨block, hmem⟩ := hmem
    exact hblocks _ (lastBlock_mem hmem)
  · rw [lastBlock_eq_nil label]
    · exact hnil
    · rintro ⟨_, block⟩ hb rfl
      exact hmem ⟨block, hb⟩

end Parser

/-! ## Derivations -/

/-- What a stretch of a program text may be: a statement, the statements of a block, or the labelled
blocks of a condition. -/
inductive Construct where
  | statement (node : Node)
  | block (nodes : List Node)
  | labels (blocks : List (Bool × List Node))

/-- The lexemes of a canonical text, or of a part of it, and what they are read as. -/
inductive Derives : List Lexeme → Construct → Prop where
  | simple {node : Node} (hnode : node.isSimple = true) :
    Derives node.simpleLexemes (.statement node)
  | loop {delay count : Scalar} {l : List Lexeme} {block : List Node}
    (hdelay : delay.isNumeral = true) (hcount : isCount count = true)
    (hblock : Derives l (.block block)) :
    Derives (loopLexemes delay count ++ l) (.statement (.loop delay count block))
  | branch {left right : Node} {relation key : Scalar} {l : List Lexeme}
    {blocks : List (Bool × List Node)} (hleft : left.isExpression = true)
    (hcondition : isCondition relation right key = true) (hblocks : Derives l (.labels blocks)) :
    Derives (branchLexemes left relation right key ++ l)
      (.statement
        (.branch left relation right key (lastBlock true blocks) (lastBlock false blocks)))
  | blockNil : Derives [] (.block [])
  /-- A statement that takes dotted lines is the last of its block. -/
  | blockCons {node : Node} {rest : List Node} {l m : List Lexeme}
    (hnode : Derives l (.statement node)) (hrest : Derives m (.block rest))
    (hopens : rest ≠ [] → node.opens = false) :
    Derives (.dots 1 :: (l ++ m)) (.block (node :: rest))
  | labelsNil : Derives [] (.labels [])
  /-- A block that ends in a condition is the last of the outer condition. -/
  | labelsCons (label : Bool) {block : List Node} {rest : List (Bool × List Node)}
    {l m : List Lexeme} (hblock : Derives l (.block block)) (hrest : Derives m (.labels rest))
    (hne : block ≠ []) (hends : rest ≠ [] → blockEndsInBranch block = false)
    (hfalse : ∀ b ∈ rest, b.1 = false) :
    Derives (.dots 2 :: .word (labelWord label) :: (l ++ m)) (.labels ((label, block) :: rest))

namespace Derives

variable {l m : List Lexeme}

theorem labels_ne_nil {blocks : List (Bool × List Node)} (h : Derives l (.labels blocks)) :
    ∀ b ∈ blocks, b.2 ≠ [] := by
  generalize hc : Construct.labels blocks = c at h
  induction h generalizing blocks with
  | labelsNil =>
    obtain rfl := Construct.labels.inj hc
    simp
  | labelsCons label hblock hrest hne hends hfalse ihblock ihrest =>
    obtain rfl := Construct.labels.inj hc
    simpa [hne] using ihrest rfl
  | _ => cases hc

/-- A condition without labelled blocks has two empty blocks, and only such a one has. -/
theorem opens_branch {left right : Node} {relation key : Scalar}
    {blocks : List (Bool × List Node)} (h : Derives l (.labels blocks)) :
    (Node.branch left relation right key (lastBlock true blocks) (lastBlock false blocks)).opens =
      !blocks.isEmpty := by
  cases blocks with
  | nil => rfl
  | cons b rest =>
    obtain ⟨label, block⟩ := b
    have hne : lastBlock label ((label, block) :: rest) ≠ [] :=
      h.labels_ne_nil _ (lastBlock_mem List.mem_cons_self)
    cases label <;> simp [opens, hne]

/-- A false block after a true one means that the true one does not end in a condition. -/
theorem not_endsInBranch {blocks : List (Bool × List Node)} (h : Derives l (.labels blocks))
    (hfalse : lastBlock false blocks ≠ []) : blockEndsInBranch (lastBlock true blocks) = false := by
  cases h with
  | labelsNil => rfl
  | @labelsCons label block rest l m hblock hrest hne hends hlabels =>
    cases label with
    | false =>
      rw [lastBlock_eq_nil true (by simpa using hlabels)]
      rfl
    | true =>
      have hrest : rest ≠ [] := by
        rintro rfl
        exact hfalse rfl
      have hlast : lastBlock true ((true, block) :: rest) = block := by
        rcases List.mem_cons.mp (lastBlock_mem (List.mem_cons_self : (true, block) ∈ _)) with
          heq | hmem
        · exact (Prod.mk.inj heq).2
        · exact absurd (hlabels _ hmem) (by simp)
      rw [hlast]
      exact hends hrest

/-! ## Growth -/

/-- What a false block after the lexemes makes of a construct. -/
def Grows (l m : List Lexeme) : Construct → Prop
  | .statement node => node.endsInBranch = true → ∃ node', Derives (l ++ m) (.statement node')
  | .block nodes =>
    blockEndsInBranch nodes = true → ∃ nodes', nodes' ≠ [] ∧ Derives (l ++ m) (.block nodes')
  | .labels blocks =>
    ∃ blocks', blocks' ≠ [] ∧ ((∀ b ∈ blocks, b.1 = false) → ∀ b ∈ blocks', b.1 = false) ∧
      Derives (l ++ m) (.labels blocks')

/-- **A false block after a condition is part of the condition**, or of one inside it. -/
theorem grow {c : Construct} {block : List Node} (h : Derives l c)
    (hblock : Derives m (.block block)) (hne : block ≠ []) :
    Grows l (.dots 2 :: .word (labelWord false) :: m) c := by
  induction h with
  | @simple node hnode =>
    intro hends
    cases node <;> simp [endsInBranch, isSimple] at hends hnode
  | loop hdelay hcount _ ih =>
    intro hends
    rw [endsInBranch] at hends
    obtain ⟨nodes, -, hnodes⟩ := ih hends
    exact ⟨_, by simpa using loop hdelay hcount hnodes⟩
  | branch hleft hcondition _ ih =>
    intro _
    obtain ⟨blocks, -, -, hblocks⟩ := ih
    exact ⟨_, by simpa using branch hleft hcondition hblocks⟩
  | blockNil => 
    intro hends
    simp [blockEndsInBranch] at hends
  | @blockCons node rest l' m' hnode hrest hopens ihnode ihrest =>
    intro hends
    cases rest with
    | nil =>
      cases hrest
      obtain ⟨node', hnode'⟩ := ihnode (by simpa [blockEndsInBranch] using hends)
      exact ⟨[node'], by simp, by simpa using blockCons hnode' blockNil (by simp)⟩
    | cons other rest =>
      obtain ⟨nodes, hnodes, hrest'⟩ := ihrest (by simpa [blockEndsInBranch] using hends)
      exact ⟨node :: nodes, by simp, by
        simpa using blockCons hnode hrest' fun _ => hopens (by simp)⟩
  | labelsNil =>
    refine ⟨[(false, block)], by simp, by simp, ?_⟩
    simpa using labelsCons false hblock labelsNil hne (by simp) (by simp)
  | @labelsCons label nodes rest l' m' hnodes hrest hne' hends hfalse ihnodes ihrest =>
    by_cases hends' : blockEndsInBranch nodes = true
    · -- No label comes after such a block, so the new one goes inside it.
      obtain rfl : rest = [] := by
        by_contra hrest
        simp [hends hrest] at hends'
      cases hrest
      obtain ⟨nodes', hne'', hnodes'⟩ := ihnodes hends'
      refine ⟨[(label, nodes')], by simp, by simp, ?_⟩
      simpa using labelsCons label hnodes' labelsNil hne'' (by simp) (by simp)
    · obtain ⟨blocks, hblocks, hlabels, hrest'⟩ := ihrest
      refine ⟨(label, nodes) :: blocks, by simp, ?_, ?_⟩
      · intro hall
        simp only [List.forall_mem_cons] at hall ⊢
        exact ⟨hall.1, hlabels hall.2⟩
      · simpa using labelsCons label hnodes hrest' hne' (fun _ => by simpa using hends')
          (hlabels hfalse)

/-! ## Derived trees -/

/-- A construct of the grammar that does not dangle. -/
def WellFormed : Construct → Prop
  | .statement node => node.isStatement = true ∧ node.dangles = false
  | .block nodes => isBlock nodes = true ∧ someDangles nodes = false
  | .labels blocks => ∀ b ∈ blocks, isBlock b.2 = true ∧ someDangles b.2 = false

/-- **Derived trees are of the grammar and do not dangle.** -/
theorem wellFormed {c : Construct} (h : Derives l c) : WellFormed c := by
  induction h with
  | @simple node hnode =>
    refine ⟨isStatement_of_isSimple hnode, ?_⟩
    cases node <;> simp [dangles, isSimple] at hnode ⊢
  | loop hdelay hcount _ ih =>
    obtain ⟨hblock, hdangles⟩ := ih
    exact ⟨by simp [isStatement, hdelay, hcount, hblock], by rw [dangles, hdangles]⟩
  | @branch left right relation key l blocks hleft hcondition hblocks ih =>
    have hnil : WellFormed (.block []) := ⟨by rw [isBlock], by rw [someDangles]⟩
    obtain ⟨htrue, htrueDangles⟩ : WellFormed (.block (lastBlock true blocks)) :=
      lastBlock_induction (P := fun nodes => WellFormed (.block nodes)) true hnil ih
    obtain ⟨hfalse, hfalseDangles⟩ : WellFormed (.block (lastBlock false blocks)) :=
      lastBlock_induction (P := fun nodes => WellFormed (.block nodes)) false hnil ih
    refine ⟨by simp [isStatement, hleft, hcondition, htrue, hfalse], ?_⟩
    rw [dangles, htrueDangles, hfalseDangles, Bool.or_false, Bool.or_false, Bool.and_eq_false_iff]
    by_cases hne : lastBlock false blocks = []
    · exact .inl (by rw [hne]; rfl)
    · exact .inr (hblocks.not_endsInBranch hne)
  | blockNil => exact ⟨by rw [isBlock], by rw [someDangles]⟩
  | @blockCons node rest l' m' hnode hrest hopens ihnode ihrest =>
    refine ⟨?_, by rw [someDangles, ihnode.2, ihrest.2, Bool.or_false]⟩
    rw [isBlock, ihnode.1, ihrest.1, Bool.true_and, Bool.and_true]
    cases rest with
    | nil => rfl
    | cons other rest => simp [hopens]
  | labelsNil => simp [WellFormed]
  | labelsCons label hblock hrest hne hends hfalse ihblock ihrest =>
    exact List.forall_mem_cons.mpr ⟨ihblock, ihrest⟩

/-! ## Derivations of programs of the grammar -/

/-- The two blocks of a condition under their labels. If the true block ends in a condition, the
false block becomes part of it. -/
theorem exists_labels {whenTrue whenFalse : List Node} (htrue : Derives l (.block whenTrue))
    (hfalse : Derives m (.block whenFalse)) :
    ∃ blocks, Derives
        ((if whenTrue.isEmpty then [] else .dots 2 :: .word (labelWord true) :: l) ++
          if whenFalse.isEmpty then [] else .dots 2 :: .word (labelWord false) :: m)
        (.labels blocks) ∧
      blocks.isEmpty = (whenTrue.isEmpty && whenFalse.isEmpty) ∧
      (whenFalse = [] ∨ blockEndsInBranch whenTrue = false →
        lastBlock true blocks = whenTrue ∧ lastBlock false blocks = whenFalse) := by
  by_cases htrueNil : whenTrue = [] <;> by_cases hfalseNil : whenFalse = []
  · subst htrueNil hfalseNil
    exact ⟨[], labelsNil, rfl, fun _ => ⟨rfl, rfl⟩⟩
  · subst htrueNil
    have h := labelsCons false hfalse labelsNil hfalseNil (by simp) (by simp)
    exact ⟨_, by simpa [hfalseNil] using h, by simp [hfalseNil], fun _ => ⟨rfl, rfl⟩⟩
  · subst hfalseNil
    have h := labelsCons true htrue labelsNil htrueNil (by simp) (by simp)
    exact ⟨_, by simpa [htrueNil] using h, by simp [htrueNil], fun _ => ⟨rfl, rfl⟩⟩
  · by_cases hends : blockEndsInBranch whenTrue = true
    · obtain ⟨grown, hne, hgrown⟩ := htrue.grow hfalse hfalseNil hends
      have h := labelsCons true hgrown labelsNil hne (by simp) (by simp)
      exact ⟨_, by simpa [htrueNil, hfalseNil] using h, by simp [htrueNil],
        by simp [hfalseNil, hends]⟩
    · have h := labelsCons true htrue
        (labelsCons false hfalse labelsNil hfalseNil (by simp) (by simp))
        htrueNil (fun _ => by simpa using hends) (by simp)
      exact ⟨_, by simpa [htrueNil, hfalseNil] using h, by simp [htrueNil], fun _ => ⟨rfl, rfl⟩⟩

end Derives

namespace Node

mutual

/-- A statement of the grammar has a derivation. -/
theorem exists_derives_statement (node : Node) (h : node.isStatement = true) :
    ∃ node', Derives node.statementLexemes (.statement node') ∧ node'.opens = node.opens ∧
      (node.dangles = false → node' = node) := by
  cases node with
  | loop delay count block =>
    simp only [isStatement, Bool.and_eq_true] at h
    obtain ⟨block', hblock, -, hdangles⟩ := exists_derives_block block h.2
    refine ⟨.loop delay count block', ?_, rfl, ?_⟩
    · rw [statementLexemes]
      exact .loop h.1.1 h.1.2 hblock
    · rw [dangles]
      intro h
      rw [hdangles h]
  | branch left relation right key whenTrue whenFalse =>
    simp only [isStatement, Bool.and_eq_true] at h
    obtain ⟨whenTrue', htrue, htrueEmpty, htrueDangles⟩ := exists_derives_block whenTrue h.1.2
    obtain ⟨whenFalse', hfalse, hfalseEmpty, hfalseDangles⟩ := exists_derives_block whenFalse h.2
    obtain ⟨blocks, hblocks, hempty, hlast⟩ := htrue.exists_labels hfalse
    rw [htrueEmpty, hfalseEmpty] at hblocks hempty
    refine ⟨.branch left relation right key (lastBlock true blocks) (lastBlock false blocks),
      ?_, ?_, ?_⟩
    · rw [statementLexemes, List.append_assoc]
      exact .branch h.1.1.1 h.1.1.2 hblocks
    · rw [hblocks.opens_branch, hempty, opens]
    · simp only [dangles, Bool.or_eq_false_iff, Bool.and_eq_false_iff]
      rintro ⟨⟨hends, hinTrue⟩, hinFalse⟩
      rw [htrueDangles hinTrue, hfalseDangles hinFalse] at hlast
      obtain ⟨htrueEq, hfalseEq⟩ := hlast (by simpa using hends)
      rw [htrueEq, hfalseEq]
  | _ =>
    have hsimple := isSimple_of_isStatement h (by simp) (by simp)
    exact ⟨_, statementLexemes_of_isSimple hsimple ▸ .simple hsimple, rfl, fun _ => rfl⟩

/-- A block of the grammar has a derivation. -/
theorem exists_derives_block (nodes : List Node) (h : isBlock nodes = true) :
    ∃ nodes', Derives (blockLexemes nodes) (.block nodes') ∧ nodes'.isEmpty = nodes.isEmpty ∧
      (someDangles nodes = false → nodes' = nodes) := by
  cases nodes with
  | nil => exact ⟨[], by rw [blockLexemes]; exact .blockNil, rfl, fun _ => rfl⟩
  | cons node rest =>
    simp only [isBlock, Bool.and_eq_true] at h
    obtain ⟨node', hnode, hopens, hdangles⟩ := exists_derives_statement node h.1.1
    obtain ⟨rest', hrest, hempty, hrestDangles⟩ := exists_derives_block rest h.2
    refine ⟨node' :: rest', ?_, rfl, ?_⟩
    · rw [blockLexemes]
      refine .blockCons hnode hrest fun hne => ?_
      have hor := h.1.2
      rw [← hempty, ← hopens] at hor
      simpa [hne] using hor
    · rw [someDangles, Bool.or_eq_false_iff]
      rintro ⟨hfirst, hothers⟩
      rw [hdangles hfirst, hrestDangles hothers]

end

end Node

end TileScript
