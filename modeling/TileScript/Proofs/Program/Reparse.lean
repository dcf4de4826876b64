import TileScript.Proofs.Program.Derives

/-!
# What the parser makes of canonical texts

The parser reads the lexemes of a canonical text as they are derived, with every bound on nesting
that is large enough. What may come after a part of the text depends on the part: a statement that
takes dotted lines is not followed by one, and a statement that ends in a condition is not followed
by a label.

## Main definitions

* `Construct.MayFollow`: the lexemes that may come after a construct.

## Main statements

* `Derives.eventually_isRead`: the parser reads lexemes as they are derived.
* `exists_parseWithin`: a program of the grammar is read back from its lexemes as a program that is
  of the grammar and does not dangle; a program that does not dangle is read back as it is.
-/

namespace TileScript

open Filter TileScript.Node TileScript.Parser

/-- Whether the label of a block is ahead. -/
def isLabel (rest : List Lexeme) : Bool :=
  [.dots 2, .word "true"].isPrefixOf rest || [.dots 2, .word "false"].isPrefixOf rest

theorem blockLabelAhead_eq (tokens : List Token) :
    blockLabelAhead tokens = isLabel (tokens.map Token.lexeme) := by
  rw [blockLabelAhead, startsWith_eq, startsWith_eq, isLabel]

theorem isLabel_dots {n : ℕ} {rest : List Lexeme} (h : n ≠ 2) :
    isLabel (.dots n :: rest) = false := by
  simp [isLabel, List.isPrefixOf_cons_cons, h.symm]

theorem isLabel_labelWord (label : Bool) (rest : List Lexeme) :
    isLabel (.dots 2 :: .word (labelWord label) :: rest) = true := by
  cases label <;> rfl

namespace Construct

/-- Whether dotted lines after the construct are its own. -/
def takesDots : Construct → Bool
  | .statement node => node.opens
  | .block _ => true
  | .labels blocks => !blocks.isEmpty

/-- Whether labels after the construct are its own. -/
def takesLabels : Construct → Bool
  | .statement node => node.endsInBranch
  | .block nodes => blockEndsInBranch nodes
  | .labels _ => true

/-- What may come after a construct: a fresh start, and nothing that the construct would take. -/
structure MayFollow (c : Construct) (rest : List Lexeme) : Prop where
  isFresh : isFresh rest = true
  noDot : c.takesDots = true → rest.head? ≠ some (.dots 1)
  noLabel : c.takesLabels = true → isLabel rest = false

/-- The construct is read from the lexemes with the given bound on nesting. -/
def IsRead (depth : ℕ) (lexemes : List Lexeme) : Construct → Prop
  | .statement node =>
    Reads (Parser.statement depth) lexemes (some node) (MayFollow (.statement node))
  | .block nodes =>
    ReadsMany (startsWith [.dots 1]) (fun tokens => Parser.statement depth tokens.tail) lexemes
      (nodes.map some) (MayFollow (.block nodes))
  | .labels blocks =>
    ReadsMany blockLabelAhead (labelledBlock (Parser.block (Parser.statement depth))) lexemes blocks
      (MayFollow (.labels blocks))

end Construct

/-! ## Headers -/

theorem Parser.reads_loopCount {count : Scalar} (h : isCount count = true) :
    Reads loopCount (countLexemes count) count fun rest => isFresh rest = true := by
  rcases cases_of_isCount h with rfl | rfl | ⟨n, -, rfl⟩
  · intro tokens rest htokens hrest
    obtain rfl := List.map_eq_nil_iff.mp htokens
    cases rest with
    | nil => rfl
    | cons token rest =>
      obtain ⟨lexeme, line, column⟩ := token
      cases lexeme with
      | number n => simp [isFresh] at hrest
      | word name =>
        have hname : name ≠ "forever" := by
          rintro rfl
          simp [isFresh, statementWords, callNames] at hrest
        simp [loopCount, startsWith, hname]
      | _ => rfl
  · exact Reads.pure.of_step fun _ _ _ _ _ _ => rfl
  · exact Reads.pure.of_step fun _ _ _ _ _ _ => rfl

namespace Parser

theorem reads_relation {name : String} (h : relationNames.contains name = true) :
    Reads relation [.word name] name fun _ => True := by
  refine Reads.pure.of_step fun line column tokens rest _ _ => ?_
  have hid : name ≠ "id" := by
    rintro rfl
    revert h
    decide
  have hahead :
      startsWith [.word "id", .equals] (⟨.word name, line, column⟩ :: tokens) = false := by
    simp [startsWith, hid]
  simp only [relation, hahead, h, Bool.false_eq_true, if_false, if_true]
  rfl

theorem reads_identity :
    Reads relation [] "is" fun rest => [.word "id", .equals].isPrefixOf rest = true := by
  intro tokens rest htokens hrest
  obtain rfl := List.map_eq_nil_iff.mp htokens
  simp [relation, startsWith_eq, hrest]

theorem reads_object {β : Type} {value : Parser Node} {right : Node} {k : Node → Parser β} {b : β}
    {l : List Lexeme} {F : List Lexeme → Prop}
    (hright : Reads value right.expressionLexemes right NoParen) (hk : Reads (k right) l b F)
    (hF : ∀ rest, F rest → NoParen (l ++ rest)) :
    Reads (do keyword "id"; symbol .equals; let right ← value; k right)
      (.word "id" :: .equals :: (right.expressionLexemes ++ l)) b F :=
  (reads_keyword "id").cons <| (reads_symbol .equals).cons <| hright.bind hk hF

/-- The rest of a condition, given that its parts are read. -/
theorem reads_branch {value : Parser Node} {block : Parser (List Node)} {left right : Node}
    {relation key : Scalar} {l : List Lexeme} {blocks : List (Bool × List Node)}
    {F : List Lexeme → Prop} (hcondition : isCondition relation right key = true)
    (hleft : Reads value left.expressionLexemes left NoParen)
    (hright : right.isExpression = true → Reads value right.expressionLexemes right NoParen)
    (hblocks : Reads (many blockLabelAhead (labelledBlock block)) l blocks F)
    (hF : ∀ rest, F rest → NoParen (l ++ rest)) :
    Reads (branch value block) ((branchLexemes left relation right key).tail ++ l)
      (.branch left relation right key (lastBlock true blocks) (lastBlock false blocks)) F := by
  have hlexemes : (branchLexemes left relation right key).tail ++ l =
      .word "id" :: .equals :: (left.expressionLexemes ++
        .word "is" :: (relationLexemes relation right key ++ l)) := by
    simp [branchLexemes]
  rw [hlexemes]
  refine reads_object hleft ((reads_keyword "is").cons ?_) fun _ _ => noParen_cons _ (by decide)
  rcases cases_of_isCondition hcondition with
    ⟨name, rfl, rfl, rfl, hname⟩ | ⟨name, hmem, rfl, hexpression, rfl⟩
  · exact (reads_relation (by decide)).cons <| (reads_word name).cons <|
      Reads.pure.bind hblocks.bind_pure hF
  · simp only [spatialNames, List.mem_cons, List.not_mem_nil, or_false] at hmem
    rcases hmem with rfl | rfl | rfl | rfl | rfl | rfl
    · exact reads_identity.bind (reads_object (hright hexpression)
        (Reads.pure.bind hblocks.bind_pure hF) hF) fun _ _ => rfl
    all_goals
      exact (reads_relation (by decide)).cons <| reads_object (hright hexpression)
        (Reads.pure.bind hblocks.bind_pure hF) hF

end Parser

/-! ## Derivations -/

theorem exists_word_simple {node : Node} (h : node.isSimple = true) :
    ∃ name tail, node.simpleLexemes = .word name :: tail ∧ statementWords.contains name = true := by
  cases node with
  | compute expr =>
    cases expr with
    | read name =>
      have hlexemes :
          (Node.compute (.read name)).simpleLexemes = (Node.read name).expressionLexemes := by
        rw [simpleLexemes, computedLexemes]
        simp
      rw [hlexemes]
      exact ⟨_, _, rfl, rfl⟩
    | call name args =>
      rw [isSimple, isComputed, Bool.and_eq_true] at h
      have hmem : name ∈ statementWords := List.mem_append_right _ (List.contains_iff_mem.mp h.1)
      exact ⟨name, _, rfl, List.contains_iff_mem.mpr hmem⟩
    | _ => simp [isSimple, isComputed] at h
  | despawn id =>
    obtain ⟨value, -, rfl⟩ := exists_of_isSimple_despawn h
    exact ⟨_, _, rfl, rfl⟩
  | assign key value => cases value <;> exact ⟨_, _, rfl, rfl⟩
  | canvas | define | spawn | move | wait => exact ⟨_, _, rfl, rfl⟩
  | _ => simp [isSimple] at h

namespace Derives

variable {l m rest : List Lexeme} {c : Construct}

/-- A statement starts with its word. -/
theorem exists_word {node : Node} (h : Derives l (.statement node)) :
    ∃ name tail, l = .word name :: tail ∧ statementWords.contains name = true := by
  cases h with
  | simple hnode => exact exists_word_simple hnode
  | loop => exact ⟨_, _, rfl, rfl⟩
  | branch => exact ⟨_, _, rfl, rfl⟩

theorem isFresh_append (h : Derives l c) (hrest : isFresh rest = true) :
    isFresh (l ++ rest) = true := by
  cases c with
  | statement node =>
    obtain ⟨name, tail, rfl, hname⟩ := h.exists_word
    exact hname
  | block nodes =>
    cases h with
    | blockNil => exact hrest
    | blockCons => rfl
  | labels blocks =>
    cases h with
    | labelsNil => exact hrest
    | labelsCons => rfl

theorem reads_block {nodes : List Node} {depth : ℕ} (h : (Construct.block nodes).IsRead depth l) :
    Reads (block (statement depth)) l nodes (Construct.block nodes).MayFollow := by
  have hall := h.many.bind_pure (f := List.filterMap id)
  rw [List.filterMap_map, Function.id_comp, List.filterMap_some] at hall
  exact hall

/-- A statement of a block may be followed by the statements after it. -/
theorem mayFollow_statement {node : Node} {nodes : List Node} (hnodes : Derives m (.block nodes))
    (hopens : nodes ≠ [] → node.opens = false)
    (h : (Construct.block (node :: nodes)).MayFollow rest) :
    (Construct.statement node).MayFollow (m ++ rest) := by
  cases hnodes with
  | blockNil =>
    refine ⟨h.isFresh, fun _ => h.noDot rfl, fun hends => h.noLabel ?_⟩
    rwa [Construct.takesLabels, blockEndsInBranch]
  | blockCons =>
    refine ⟨rfl, fun hdots => ?_, fun _ => isLabel_dots (by decide)⟩
    rw [Construct.takesDots, hopens (by simp)] at hdots
    cases hdots

/-- A labelled block may be followed by the labels after it. -/
theorem mayFollow_block {label : Bool} {nodes : List Node} {blocks : List (Bool × List Node)}
    (hblocks : Derives m (.labels blocks)) (hends : blocks ≠ [] → blockEndsInBranch nodes = false)
    (h : (Construct.labels ((label, nodes) :: blocks)).MayFollow rest) :
    (Construct.block nodes).MayFollow (m ++ rest) := by
  cases hblocks with
  | labelsNil => exact ⟨h.isFresh, fun _ => h.noDot rfl, fun _ => h.noLabel rfl⟩
  | labelsCons =>
    refine ⟨rfl, fun _ => by simp, fun hlabels => ?_⟩
    rw [Construct.takesLabels, hends (by simp)] at hlabels
    cases hlabels

theorem mayFollow_tail {node : Node} {nodes : List Node}
    (h : (Construct.block (node :: nodes)).MayFollow rest) :
    (Construct.block nodes).MayFollow rest := by
  refine ⟨h.isFresh, fun _ => h.noDot rfl, fun hlabels => h.noLabel ?_⟩
  cases nodes with
  | nil => simp [Construct.takesLabels, blockEndsInBranch] at hlabels
  | cons other nodes => rwa [Construct.takesLabels, blockEndsInBranch]

/-- What may follow a condition may follow its labelled blocks. -/
theorem mayFollow_labels (left right : Node) (relation key : Scalar)
    {blocks : List (Bool × List Node)} (hblocks : Derives m (.labels blocks))
    (h : (Construct.statement (.branch left relation right key (lastBlock true blocks)
      (lastBlock false blocks))).MayFollow rest) : (Construct.labels blocks).MayFollow rest := by
  refine ⟨h.isFresh, fun hdots => h.noDot ?_, fun _ => h.noLabel ?_⟩
  · rwa [Construct.takesDots, hblocks.opens_branch]
  · rw [Construct.takesLabels, endsInBranch]

/-- **The parser reads lexemes as they are derived.** -/
theorem eventually_isRead (h : Derives l c) : ∀ᶠ depth in atTop, c.IsRead depth l := by
  induction h with
  | simple hnode =>
    filter_upwards [reads_simple hnode] with depth hreads
    exact hreads.mono fun _ h => h.isFresh
  | @loop delay count l nodes hdelay hcount hblock ih =>
    refine eventually_of_succ ?_
    filter_upwards [ih] with depth hread
    obtain ⟨n, -, rfl⟩ := Scalar.exists_of_isNumeral hdelay
    have hnodes : Reads (block (statement depth)) l nodes
        (Construct.statement (.loop (.int n) count nodes)).MayFollow :=
      (reads_block hread).mono fun rest h =>
        ⟨h.isFresh, fun _ => h.noDot rfl, fun hends => h.noLabel (by
          rwa [Construct.takesLabels, endsInBranch])⟩
    have hloop : Reads (Parser.loop (block (statement depth)))
        (.number n :: (countLexemes count ++ l))
        (.loop (.int n) count nodes) (Construct.statement (.loop (.int n) count nodes)).MayFollow :=
      (reads_number n).cons <| (reads_loopCount hcount).bind hnodes.bind_pure
        fun rest h => hblock.isFresh_append h.isFresh
    exact hloop.map.of_step fun _ _ _ _ _ _ => rfl
  | @branch left right relation key l blocks hleft hcondition hblocks ih =>
    refine eventually_of_succ ?_
    filter_upwards [ih, reads_value left hleft, reads_value_of_isExpression right]
      with depth hread hleft hright
    have hlabels := hread.mono fun rest => mayFollow_labels left right relation key hblocks
    have hbranch := reads_branch hcondition hleft hright hlabels.many fun rest h =>
      noParen_of_isFresh (hblocks.isFresh_append h.isFresh)
    exact hbranch.map.of_step fun _ _ _ _ _ _ => rfl
  | blockNil =>
    refine .of_forall fun depth => .nil fun tokens htokens => ?_
    have hhead := htokens.noDot rfl
    cases tokens with
    | nil => rfl
    | cons token tokens => simpa [startsWith] using hhead
  | @blockCons node nodes l m hnode hrest hopens ihnode ihrest =>
    filter_upwards [ihnode, ihrest] with depth hnode hnodes
    have hitem : Reads (fun tokens => statement depth tokens.tail) (.dots 1 :: l) (some node)
        (Construct.statement node).MayFollow :=
      hnode.of_step fun _ _ _ _ _ _ => rfl
    refine .cons hitem (hnodes.mono fun _ h => mayFollow_tail h) (by simp) ?_
      fun _ h => mayFollow_statement hrest hopens h
    intro tokens rest htokens
    simp [startsWith_eq, htokens]
  | labelsNil =>
    refine .of_forall fun depth => .nil fun tokens htokens => ?_
    rw [blockLabelAhead_eq]
    exact htokens.noLabel rfl
  | @labelsCons label nodes blocks l m hblock hrest hne hends hfalse ihblock ihrest =>
    filter_upwards [ihblock, ihrest] with depth hnodes hblocks
    have hitem : Reads (labelledBlock (block (statement depth)))
        (.dots 2 :: .word (labelWord label) :: l) (label, nodes)
        (Construct.block nodes).MayFollow := by
      have hlabel : decide (labelWord label = "true") = label := by cases label <;> rfl
      have hall : Reads (labelledBlock (block (statement depth)))
          (.dots 2 :: .word (labelWord label) :: l) (decide (labelWord label = "true"), nodes)
          (Construct.block nodes).MayFollow :=
        (reads_symbol (.dots 2)).cons <| (reads_word (labelWord label)).cons <|
          (reads_block hnodes).bind_pure
      rwa [hlabel] at hall
    refine .cons hitem (hblocks.mono fun _ h => ⟨h.isFresh, fun _ => h.noDot rfl, h.noLabel⟩)
      (by simp) ?_ fun _ h => mayFollow_block hrest hends h
    intro tokens rest htokens
    rw [blockLabelAhead_eq, htokens]
    exact isLabel_labelWord label _

end Derives

/-! ## Programs -/

/-- Every construct may be followed by the statements of a program. -/
theorem mayFollow_programLexemes {program : List Node} (h : isProgram program = true)
    (c : Construct) : c.MayFollow (programLexemes program) := by
  cases program with
  | nil => exact ⟨rfl, fun _ => by simp [programLexemes], fun _ => rfl⟩
  | cons node program =>
    simp only [isProgram, List.all_cons, Bool.and_eq_true] at h
    obtain ⟨node', hnode, -⟩ := exists_derives_statement node h.1
    obtain ⟨name, tail, hlexemes, hname⟩ := hnode.exists_word
    rw [programLexemes, List.flatMap_cons, hlexemes]
    exact ⟨hname, fun _ => by simp, fun _ => rfl⟩

theorem reads_statementOrSkip {node : Node} {l : List Lexeme} {depth : ℕ}
    (h : (Construct.statement node).IsRead depth l) :
    Reads (statementOrSkip depth) l (some node) (Construct.statement node).MayFollow := by
  have hall : Reads (statementOrSkip depth) (l ++ []) (some node)
      (Construct.statement node).MayFollow := h.bind Reads.pure fun _ h => h
  rwa [List.append_nil] at hall

/-- A program of the grammar is read back as a program of the grammar that does not dangle. -/
theorem exists_readsMany {program : List Node} (h : isProgram program = true) :
    ∃ program', isProgram program' = true ∧ someDangles program' = false ∧
      (someDangles program = false → program' = program) ∧
      ∀ᶠ depth in atTop, ReadsMany (fun tokens => !tokens.isEmpty) (statementOrSkip depth)
        (programLexemes program) (program'.map some) fun rest => rest = [] := by
  induction program with
  | nil =>
    refine ⟨[], rfl, by rw [someDangles], fun _ => rfl, .of_forall fun depth => .nil ?_⟩
    simp
  | cons node program ih =>
    simp only [isProgram, List.all_cons, Bool.and_eq_true] at h
    obtain ⟨node', hnode, -, hsame⟩ := exists_derives_statement node h.1
    obtain ⟨program', hprogram, hdangles, hsames, hreads⟩ := ih h.2
    obtain ⟨hstatement, hdangle⟩ := hnode.wellFormed
    refine ⟨node' :: program', ?_, ?_, ?_, ?_⟩
    · rw [isProgram, List.all_cons, hstatement]
      exact hprogram
    · rw [someDangles, hdangle, hdangles, Bool.or_false]
    · rw [someDangles, Bool.or_eq_false_iff]
      rintro ⟨hfirst, hothers⟩
      rw [hsame hfirst, hsames hothers]
    · filter_upwards [hnode.eventually_isRead, hreads] with depth hread hreads
      obtain ⟨name, tail, hlexemes, -⟩ := hnode.exists_word
      refine .cons (reads_statementOrSkip hread) hreads (by simp [hlexemes]) ?_ ?_
      · intro tokens rest htokens
        cases tokens with
        | nil => simp [hlexemes] at htokens
        | cons token tokens => rfl
      · rintro _ rfl
        rw [List.append_nil]
        exact mayFollow_programLexemes h.2 _

/-- **A program of the grammar is read back** from tokens with its lexemes as a program of the
grammar that does not dangle, and as it is if it does not dangle itself. -/
theorem exists_parseWithin {program : List Node} (h : isProgram program = true) :
    ∃ program', isProgram program' = true ∧ someDangles program' = false ∧
      (someDangles program = false → program' = program) ∧
      ∀ᶠ depth in atTop, ∀ tokens, tokens.map Token.lexeme = programLexemes program →
        parseWithin depth tokens = .ok program' := by
  obtain ⟨program', hprogram, hdangles, hsame, hreads⟩ := exists_readsMany h
  refine ⟨program', hprogram, hdangles, hsame, ?_⟩
  filter_upwards [hreads] with depth hreads tokens htokens
  have hmany := hreads.many tokens [] htokens rfl
  rw [List.append_nil] at hmany
  rw [parseWithin, hmany]
  simp [List.filterMap_map]

end TileScript
