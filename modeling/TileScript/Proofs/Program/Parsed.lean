import TileScript.Proofs.Program.Derives

/-!
# Parsed programs are of the grammar

Whatever the tokens of a text are, a program that the parser makes of them is a program of the
grammar. The proof goes along the parser: each part of it takes tokens off the front, and gives a
node of the kind that belongs there. A statement that takes dotted lines stops where no dot is
ahead, so that it is the last of its block.

## Main definitions

* `Parser.Gives`: what holds of the result and of the tokens that are left, if there is a result.

## Main statements

* `Parser.givesExpressions`: values are expressions of the grammar.
* `Parser.gives_statement`: statements are statements of the grammar.
* `isProgram_of_parseWithin`: programs of texts are programs of the grammar.
-/

namespace TileScript

open TileScript.Node

namespace Parser

variable {α β : Type}

/-- If there is a result, then tokens are left from the end of the given ones, and the result and
the tokens that are left satisfy `post`. The given tokens are taken to come from a text. -/
def Gives (tokens : List Token) (outcome : Except Refusal (α × List Token))
    (post : α → List Token → Prop) : Prop :=
  (∀ token ∈ tokens, token.lexeme.isSpelled = true) →
    ∀ a rest, outcome = .ok (a, rest) → rest <:+ tokens ∧ post a rest

namespace Gives

variable {p : Parser α} {tokens rest : List Token} {a : α} {P Q : α → List Token → Prop}
  {outcome : Except Refusal (α × List Token)}

theorem mono (h : Gives tokens outcome P) (hP : ∀ a rest, P a rest → Q a rest) :
    Gives tokens outcome Q := by
  intro hspelled a rest hresult
  obtain ⟨hsuffix, hpost⟩ := h hspelled a rest hresult
  exact ⟨hsuffix, hP a rest hpost⟩

theorem ok (hsuffix : rest <:+ tokens) (hpost : Q a rest) : Gives tokens (.ok (a, rest)) Q := by
  intro _ a' rest' hresult
  obtain ⟨rfl, rfl⟩ := Prod.mk.inj (Except.ok.inj hresult)
  exact ⟨hsuffix, hpost⟩

theorem with_suffix (h : Gives tokens outcome Q) :
    Gives tokens outcome fun a rest => rest <:+ tokens ∧ Q a rest := by
  intro hspelled a rest hresult
  obtain ⟨hsuffix, hpost⟩ := h hspelled a rest hresult
  exact ⟨hsuffix, hsuffix, hpost⟩

theorem error {refusal : Refusal} : Gives tokens (.error refusal) Q := nofun

/-- One token is taken off. -/
theorem next {token : Token} (hpost : token.lexeme.isSpelled = true → Q a tokens) :
    Gives (token :: tokens) (.ok (a, tokens)) Q := by
  intro hspelled
  exact ok (List.suffix_cons token tokens) (hpost (hspelled token List.mem_cons_self)) hspelled

/-- Tokens at the front are passed over. -/
theorem of_suffix {later : List Token} (h : Gives later outcome Q) (hlater : later <:+ tokens) :
    Gives tokens outcome Q := by
  intro hspelled a rest hresult
  obtain ⟨hsuffix, hpost⟩ := h (fun t ht => hspelled t (hlater.subset ht)) a rest hresult
  exact ⟨hsuffix.trans hlater, hpost⟩

theorem cons {token : Token} (h : Gives tokens outcome Q) : Gives (token :: tokens) outcome Q :=
  h.of_suffix (List.suffix_cons token tokens)

/-- A sequence: the second part starts where the first has stopped. -/
theorem bind {k : α → Parser β} {R : β → List Token → Prop} (hp : Gives tokens (p tokens) Q)
    (hk : ∀ a rest, Q a rest → Gives rest (k a rest) R) : Gives tokens ((p >>= k) tokens) R := by
  intro hspelled b rest hresult
  obtain ⟨⟨a, middle⟩, hfirst, hsecond⟩ := bind_eq_ok_iff.mp hresult
  obtain ⟨hmiddle, hpost⟩ := hp hspelled a middle hfirst
  have hmiddleSpelled : ∀ token ∈ middle, token.lexeme.isSpelled = true :=
    fun token htoken => hspelled token (hmiddle.subset htoken)
  obtain ⟨hrest, hpost⟩ := hk a middle hpost hmiddleSpelled b rest hsecond
  exact ⟨hrest.trans hmiddle, hpost⟩

theorem ite {c : Prop} [Decidable c] {other : Except Refusal (α × List Token)}
    (h : c → Gives tokens outcome Q) (h' : ¬c → Gives tokens other Q) :
    Gives tokens (if c then outcome else other) Q := by
  split
  · next hc => exact h hc
  · next hc => exact h' hc

theorem pure (hpost : Q a tokens) : Gives tokens ((Pure.pure a : Parser α) tokens) Q :=
  ok (List.suffix_refl tokens) hpost

theorem map {f : α → β} {R : β → List Token → Prop} (hp : Gives tokens (p tokens) Q)
    (hf : ∀ a rest, Q a rest → R (f a) rest) : Gives tokens ((f <$> p) tokens) R :=
  hp.bind fun a rest hpost => ok (List.suffix_refl rest) (hf a rest hpost)

end Gives

/-! ## Single tokens -/

variable (tokens : List Token)

theorem gives_word : Gives tokens (word tokens) fun name _ => isName name = true := by
  unfold word
  split
  · exact .next fun hspelled => hspelled
  · exact .error

theorem isNumeral_of_isSpelled {n : ℕ} (h : (Lexeme.number n).isSpelled = true) :
    (Scalar.int n).isNumeral = true := by
  simpa [Scalar.isNumeral, Lexeme.isSpelled] using h

theorem gives_number : Gives tokens (number tokens) fun n _ => (Scalar.int n).isNumeral = true := by
  unfold number
  split
  · exact .next isNumeral_of_isSpelled
  · exact .error

theorem gives_keyword (name : String) : Gives tokens (keyword name tokens) fun _ _ => True := by
  unfold keyword
  split
  · exact .ok (List.tail_suffix tokens) trivial
  · exact .error

theorem gives_symbol (lexeme : Lexeme) : Gives tokens (symbol lexeme tokens) fun _ _ => True := by
  unfold symbol
  split
  · exact .ok (List.tail_suffix tokens) trivial
  · exact .error

theorem gives_accept (lexeme : Lexeme) : Gives tokens (accept lexeme tokens) fun _ _ => True := by
  unfold accept
  split
  · exact .ok (List.tail_suffix tokens) trivial
  · exact .ok (List.suffix_refl tokens) trivial

theorem gives_skipCommas : Gives tokens (skipCommas tokens) fun _ _ => True :=
  .ok (List.dropWhile_suffix _) trivial

/-- What each of the repeated parts gives. -/
theorem gives_many {more : List Token → Bool} {item : Parser α} {P : α → Prop}
    (hitem : ∀ tokens, Gives tokens (item tokens) fun a _ => P a) :
    Gives tokens (many more item tokens) fun as _ => ∀ a ∈ as, P a := by
  have hwithin : ∀ budget tokens,
      Gives tokens (manyWithin more item budget tokens) fun as _ => ∀ a ∈ as, P a := by
    intro budget
    induction budget with
    | nil => exact fun tokens => .pure (by simp)
    | cons token budget ih =>
      intro tokens
      simp only [manyWithin]
      split
      · refine (hitem tokens).bind fun a rest ha => (ih rest).bind fun as rest has => .pure ?_
        exact List.forall_mem_cons.mpr ⟨ha, has⟩
      · exact .ok (List.suffix_refl tokens) (by simp)
  exact hwithin tokens tokens

/-! ## Expressions -/

theorem gives_variableRead : Gives tokens (variableRead tokens) fun node _ =>
    node.isExpression = true ∧ node.isComputed = true := by
  refine (gives_keyword tokens "ref").bind fun _ rest _ =>
    (gives_symbol rest .openParen).bind fun _ rest _ =>
    (gives_word rest).bind fun name rest hname =>
    (gives_symbol rest .closeParen).bind fun _ rest _ => .pure ?_
  simp [isExpression, isComputed, hname]

theorem areExpressions_iff {nodes : List Node} :
    areExpressions nodes = true ↔ ∀ node ∈ nodes, node.isExpression = true := by
  induction nodes with
  | nil => simp [areExpressions]
  | cons node nodes ih => simp [areExpressions, ih]

/-- The first word of a call is the name of a function. -/
theorem gives_functionName (h : functionAhead tokens = true) :
    Gives tokens (word tokens) fun name _ => callNames.contains (canonicalName name) = true := by
  unfold functionAhead at h
  split at h
  · next name line column rest =>
    have hall : functionNames.all (fun name => callNames.contains (canonicalName name)) = true := by
      decide
    exact .ok (List.suffix_cons _ _) (List.all_eq_true.mp hall name (List.contains_iff_mem.mp h))
  · cases h

/-- A call whose arguments are expressions is one. -/
theorem gives_call {depth : ℕ} (stopLine : Option ℕ) (h : functionAhead tokens = true)
    (hargument : ∀ tokens, Gives tokens (argument depth tokens) fun node _ =>
      node.isExpression = true) :
    Gives tokens (call (depth + 1) stopLine tokens) fun node _ =>
      node.isExpression = true ∧ node.isComputed = true := by
  have hitem : ∀ tokens, Gives tokens ((do let arg ← argument depth; skipCommas; return arg) tokens)
      fun node _ => node.isExpression = true := fun tokens =>
    (hargument tokens).bind fun arg rest harg => (gives_skipCommas rest).bind fun _ rest _ =>
      .pure harg
  refine (gives_functionName tokens h).bind fun name rest hname =>
    (gives_accept rest .openParen).bind fun parens rest _ =>
    (gives_many rest hitem).bind fun args rest hargs => ?_
  have hcall : (Node.call (canonicalName name) args).isExpression = true ∧
      (Node.call (canonicalName name) args).isComputed = true := by
    simp only [isExpression, isComputed, hname, areExpressions_iff.mpr hargs, Bool.and_self,
      and_self]
  cases parens with
  | true => exact (gives_symbol rest .closeParen).bind fun _ rest _ => .pure hcall
  | false => exact .pure hcall

/-- What the parsers of expressions give with a given bound. -/
structure GivesExpressions (depth : ℕ) : Prop where
  value : ∀ tokens, Gives tokens (value depth tokens) fun node _ => node.isExpression = true
  bracketed : ∀ tokens, Gives tokens (bracketed depth tokens) fun node _ => node.isExpression = true
  call : ∀ stopLine tokens, functionAhead tokens = true →
    Gives tokens (call depth stopLine tokens) fun node _ =>
      node.isExpression = true ∧ node.isComputed = true
  argument : ∀ tokens, Gives tokens (argument depth tokens) fun node _ => node.isExpression = true

theorem givesExpressions (depth : ℕ) : GivesExpressions depth := by
  induction depth with
  | zero => exact ⟨fun _ => .error, fun _ => .error, fun _ _ _ => .error, fun _ => .error⟩
  | succ depth ih =>
    have hclosed : ∀ tokens, Gives tokens
        ((do let expr ← bracketed depth; symbol .closeBracket; return expr) tokens)
        fun node _ => node.isExpression = true := fun tokens =>
      (ih.bracketed tokens).bind fun expr rest hexpr =>
        (gives_symbol rest .closeBracket).bind fun _ rest _ => .pure hexpr
    refine ⟨fun tokens => ?_, fun tokens => ?_, fun stopLine tokens h => ?_, fun tokens => ?_⟩
    · cases tokens with
      | nil => exact .error
      | cons token rest =>
        obtain ⟨lexeme, line, column⟩ := token
        cases lexeme with
        | openBracket => exact (hclosed rest).cons
        | number n => exact .next fun h => by simpa [isExpression] using isNumeral_of_isSpelled h
        | word name =>
          simp only [value]
          split
          · exact (gives_variableRead _).mono fun _ _ h => h.1
          · exact .next fun h => by rw [isExpression]; exact h
        | _ => exact .error
    · cases tokens with
      | nil => exact .error
      | cons token rest =>
        obtain ⟨lexeme, line, column⟩ := token
        cases lexeme with
        | openBracket => exact (hclosed rest).cons
        | number n => exact .next fun h => by simpa [isExpression] using isNumeral_of_isSpelled h
        | word name =>
          simp only [bracketed]
          split
          · next hname =>
            exact (ih.call none (⟨.word name, line, column⟩ :: rest) hname).mono fun _ _ h => h.1
          split
          · exact (gives_variableRead _).mono fun _ _ h => h.1
          · exact .next fun h => by rw [isExpression]; exact h
        | _ => exact .error
    · exact gives_call tokens stopLine h ih.argument
    · simp only [argument]
      split
      · next h =>
        rw [Bool.and_eq_true] at h
        exact (ih.call none tokens h.1).mono fun _ _ h => h.1
      · exact ih.value tokens

/-! ## Statements without blocks -/

section Statements

variable {value : Parser Node}

theorem gives_canvas : Gives tokens (canvas tokens) fun node _ => node.isSimple = true := by
  refine (gives_number tokens).bind fun width rest hwidth =>
    (gives_number rest).bind fun height rest hheight => .pure ?_
  rw [isSimple, hwidth, hheight, Bool.and_self]

theorem gives_despawn : Gives tokens (despawn tokens) fun node _ => node.isSimple = true := by
  refine (gives_keyword tokens "id").bind fun _ rest _ =>
    (gives_symbol rest .equals).bind fun _ rest _ =>
    (gives_number rest).bind fun id rest hid => .pure ?_
  rwa [isSimple]

theorem gives_wait : Gives tokens (wait tokens) fun node _ => node.isSimple = true := by
  unfold wait
  split
  · exact .next fun h => by rw [isSimple]; exact isNumeral_of_isSpelled h
  · exact .error

variable (hvalue : ∀ tokens, Gives tokens (value tokens) fun node _ => node.isExpression = true)
include hvalue

theorem gives_define : Gives tokens (define value tokens) fun node _ => node.isSimple = true := by
  refine (gives_symbol tokens .equals).bind fun _ rest _ =>
    (gives_word rest).bind fun name rest hname =>
    (gives_symbol rest .openParen).bind fun _ rest _ =>
    (hvalue rest).bind fun node rest hnode =>
    (gives_symbol rest .closeParen).bind fun _ rest _ => .pure ?_
  rw [isSimple, hname, hnode, Bool.and_self]

theorem gives_assign : Gives tokens (assign value tokens) fun node _ => node.isSimple = true := by
  refine (gives_word tokens).bind fun key rest hkey =>
    (gives_keyword rest "to").bind fun _ rest _ => ?_
  refine Gives.bind (Q := fun node _ => node.isExpression = true) ?_ fun node rest hnode => .pure ?_
  · split
    · exact (gives_variableRead rest).mono fun _ _ h => h.1
    split
    · exact (hvalue (rest.drop 2)).of_suffix (List.drop_suffix 2 rest)
    · exact .error
  · rw [isSimple, hkey, hnode, Bool.and_self]

omit hvalue in
theorem isExpression_zero : (Node.number (.int 0)).isExpression = true := by
  simp [isExpression, Scalar.isNumeral, Scalar.writtenBound_pos]

theorem gives_spawn : Gives tokens (spawn value tokens) fun node _ => node.isSimple = true := by
  have hfield : ∀ tokens, Gives tokens (field value tokens) fun entry _ =>
      entry.2.isExpression = true := fun tokens =>
    (gives_word tokens).bind fun name rest _ => (gives_symbol rest .equals).bind fun _ rest _ =>
      (hvalue rest).bind fun node rest hnode => .pure hnode
  refine (gives_many tokens hfield).bind fun fields rest hfields => .pure ?_
  have hget : ∀ name, ((lastField? name fields).getD (.number (.int 0))).isExpression = true := by
    intro name
    cases hlast : lastField? name fields with
    | none => exact isExpression_zero
    | some node =>
      obtain ⟨entry, hfind, rfl⟩ := Option.map_eq_some_iff.mp hlast
      exact hfields entry (List.mem_reverse.mp (List.mem_of_find?_eq_some hfind))
  simp only [isSimple, hget, Bool.and_self]

/-- A part of a move of the right kind. -/
def MovePart.isPart : MovePart → Bool
  | .id node | .x node | .y node | .state node => node.isExpression
  | .direction name => directionNames.contains name
  | .swap => true

theorem gives_movePart : Gives tokens (movePart value tokens) fun part _ => part.isPart = true := by
  refine (gives_word tokens).bind fun name rest _ => ?_
  split
  · exact (gives_symbol rest .equals).bind fun _ rest _ => (hvalue rest).map fun _ _ h => h
  split
  · exact (gives_symbol rest .equals).bind fun _ rest _ => (hvalue rest).map fun _ _ h => h
  split
  · exact (gives_symbol rest .equals).bind fun _ rest _ => (hvalue rest).map fun _ _ h => h
  split
  · exact (gives_accept rest .equals).bind fun _ rest _ => (hvalue rest).map fun _ _ h => h
  cases hlookup : directions.lookup name with
  | none => exact .pure rfl
  | some direction =>
    obtain ⟨before, after, hdirections, -⟩ := List.lookup_eq_some_iff.mp hlookup
    have hall : directions.all (fun entry => directionNames.contains entry.2) = true := by decide
    exact .pure (List.all_eq_true.mp hall (name, direction) (by rw [hdirections]; simp))

omit hvalue in
theorem isSimple_addMovePart {id x y state : Node} {direction : Scalar} {swap : Bool}
    {part : MovePart} (hpart : part.isPart = true)
    (h : (Node.move id x y direction state (.bool swap)).isSimple = true) :
    ∃ id' x' y' direction' state' swap',
      addMovePart (.move id x y direction state (.bool swap)) part =
        .move id' x' y' direction' state' (.bool swap') ∧
      (Node.move id' x' y' direction' state' (.bool swap')).isSimple = true := by
  cases part <;>
    exact ⟨_, _, _, _, _, _, rfl, by simp_all [isSimple, isOptional, isDirection, MovePart.isPart]⟩

theorem gives_move : Gives tokens (move value tokens) fun node _ => node.isSimple = true := by
  refine (gives_many tokens fun tokens => gives_movePart tokens hvalue).bind
    fun parts rest hparts => .pure ?_
  have hfold : ∀ (parts : List MovePart) (id x y : Node) (direction : Scalar) (state : Node)
      (swap : Bool), (∀ part ∈ parts, part.isPart = true) →
      (Node.move id x y direction state (.bool swap)).isSimple = true →
      (parts.foldl addMovePart (.move id x y direction state (.bool swap))).isSimple = true := by
    intro parts
    induction parts with
    | nil => exact fun _ _ _ _ _ _ _ h => h
    | cons part parts ih =>
      intro id x y direction state swap hparts h
      rw [List.forall_mem_cons] at hparts
      obtain ⟨id', x', y', direction', state', swap', hadd, hmove⟩ :=
        isSimple_addMovePart hparts.1 h
      rw [List.foldl_cons, hadd]
      exact ih _ _ _ _ _ _ hparts.2 hmove
  refine hfold parts _ _ _ _ _ _ hparts ?_
  simp [isSimple, isExpression_zero, isOptional, isAbsent, absent, isDirection]

end Statements

/-! ## Statements -/

/-- What the parser of statements gives: a statement of the grammar, which stops before a dot only
if it takes no dotted lines. -/
def IsStatementBefore (result : Option Node) (rest : List Token) : Prop :=
  ∀ node ∈ result, node.isStatement = true ∧
    (node.opens = true → startsWith [.dots 1] rest = false)

/-- A block of the grammar that stops where no dot is ahead. -/
def IsBlockBefore (nodes : List Node) (rest : List Token) : Prop :=
  isBlock nodes = true ∧ startsWith [.dots 1] rest = false

theorem isStatementBefore_of_isSimple {node : Node} {rest : List Token}
    (h : node.isSimple = true) : IsStatementBefore (some node) rest := by
  intro _ hnode
  obtain rfl := Option.some.inj hnode
  refine ⟨isStatement_of_isSimple h, fun hopens => ?_⟩
  cases node <;> simp [opens, isSimple] at hopens h

theorem manyWithin_of_not_more {more : List Token → Bool} {item : Parser α} {budget : List Token}
    (h : more tokens = false) : manyWithin more item budget tokens = .ok ([], tokens) := by
  cases budget with
  | nil => rfl
  | cons token budget => simp [manyWithin, h]

theorem gives_loopCount : Gives tokens (loopCount tokens) fun count _ => isCount count = true := by
  unfold loopCount
  split
  · exact .next isNumeral_of_isSpelled
  split
  · exact .ok (List.tail_suffix tokens) rfl
  · exact .ok (List.suffix_refl tokens) rfl

theorem gives_relation : Gives tokens (relation tokens) fun name _ =>
    relationNames.contains name = true := by
  unfold relation
  split
  · exact .ok (List.suffix_refl tokens) rfl
  split
  · split
    · next h => exact .next fun _ => h
    · exact .error
  · exact .error

section Blocks

variable {statement : Parser (Option Node)}
  (hstatement : ∀ tokens, Gives tokens (statement tokens) IsStatementBefore)
include hstatement

/-- A statement that stops where no dot is ahead is the last of its block. -/
theorem gives_blockWithin (budget : List Token) (h : tokens.length ≤ budget.length) :
    Gives tokens (manyWithin (startsWith [.dots 1]) (fun tokens => statement tokens.tail) budget
      tokens) fun results rest => IsBlockBefore (results.filterMap id) rest := by
  induction budget generalizing tokens with
  | nil =>
    obtain rfl := List.length_eq_zero_iff.mp (Nat.le_zero.mp h)
    exact .pure ⟨by simp [isBlock], rfl⟩
  | cons token budget ih =>
    simp only [manyWithin]
    split
    · next hdot =>
      cases tokens with
      | nil => cases hdot
      | cons dot tokens =>
        refine (hstatement tokens).with_suffix.cons.bind ?_
        rintro result rest ⟨hsuffix, hresult⟩
        have hothers := ih rest (hsuffix.length_le.trans (Nat.le_of_succ_le_succ h))
        cases result with
        | none => exact hothers.bind fun _ _ h => .pure h
        | some node =>
          obtain ⟨hnode, hopens⟩ := hresult node rfl
          by_cases hopen : node.opens = true
          · have hstop := hopens hopen
            refine Gives.bind (Q := fun results rest => results = [] ∧
              startsWith [.dots 1] rest = false) ?_ ?_
            · rw [manyWithin_of_not_more rest hstop]
              exact .ok (List.suffix_refl rest) ⟨rfl, hstop⟩
            · rintro _ rest ⟨rfl, hstop⟩
              exact .pure ⟨by simp [isBlock, hnode], hstop⟩
          · refine hothers.bind fun results _ h => .pure ⟨?_, h.2⟩
            have hblock : isBlock (node :: results.filterMap id) = true := by
              rw [isBlock, hnode, h.1]
              simp [hopen]
            exact hblock
    · next hdot => exact .ok (List.suffix_refl tokens) ⟨by simp [isBlock], by simpa using hdot⟩

theorem gives_block : Gives tokens (block statement tokens) IsBlockBefore :=
  (gives_blockWithin tokens hstatement tokens le_rfl).bind fun _ _ h => .pure h

theorem gives_loop : Gives tokens (loop (block statement) tokens) fun node rest =>
    IsStatementBefore (some node) rest := by
  refine (gives_number tokens).bind fun delay rest hdelay =>
    (gives_loopCount rest).bind fun count rest hcount =>
    (gives_block rest hstatement).bind fun nodes rest hnodes => .pure ?_
  intro _ hnode
  obtain rfl := Option.some.inj hnode
  exact ⟨by simp [isStatement, hdelay, hcount, hnodes.1], fun _ => hnodes.2⟩

/-- Each labelled block is one of the grammar, and no dot is ahead after the last. -/
theorem gives_labels : Gives tokens (many blockLabelAhead (labelledBlock (block statement)) tokens)
    fun blocks rest => (∀ b ∈ blocks, isBlock b.2 = true) ∧
      (blocks ≠ [] → startsWith [.dots 1] rest = false) := by
  have hwithin : ∀ budget tokens,
      Gives tokens (manyWithin blockLabelAhead (labelledBlock (block statement)) budget tokens)
        fun blocks rest => (∀ b ∈ blocks, isBlock b.2 = true) ∧
          (blocks ≠ [] ∨ startsWith [.dots 1] tokens = false →
            startsWith [.dots 1] rest = false) := by
    intro budget
    induction budget with
    | nil => exact fun tokens => .pure (by simp)
    | cons token budget ih =>
      intro tokens
      simp only [manyWithin]
      split
      · have hitem : Gives tokens (labelledBlock (block statement) tokens) fun b rest =>
            IsBlockBefore b.2 rest :=
          (gives_symbol tokens (.dots 2)).bind fun _ rest _ => (gives_word rest).bind
            fun label rest _ => (gives_block rest hstatement).bind fun _ _ h => .pure h
        refine hitem.bind fun b rest hb => (ih rest).bind fun blocks rest hblocks => .pure ?_
        exact ⟨List.forall_mem_cons.mpr ⟨hb.1, hblocks.1⟩, fun _ => hblocks.2 (.inr hb.2)⟩
      · exact .ok (List.suffix_refl tokens) (by simp)
  exact (hwithin tokens tokens).mono fun _ _ h => ⟨h.1, fun hne => h.2 (.inl hne)⟩

omit hstatement in
theorem isCondition_of_relationNames {name : String} {right : Node}
    (hname : relationNames.contains name = true) (hassigned : name ≠ "assigned")
    (hright : right.isExpression = true) : isCondition (.text name) right .null = true := by
  have hmem : name ∈ relationNames := List.contains_iff_mem.mp hname
  simp only [relationNames, List.mem_cons, List.not_mem_nil, or_false] at hmem
  rcases hmem with rfl | rfl | rfl | rfl | rfl | rfl | rfl
  case inr.inr.inr.inr.inr.inr => exact absurd rfl hassigned
  all_goals exact hright

theorem gives_branch {value : Parser Node}
    (hvalue : ∀ tokens, Gives tokens (value tokens) fun node _ => node.isExpression = true) :
    Gives tokens (branch value (block statement) tokens) fun node rest =>
      IsStatementBefore (some node) rest := by
  refine (gives_keyword tokens "id").bind fun _ rest _ =>
    (gives_symbol rest .equals).bind fun _ rest _ =>
    (hvalue rest).bind fun left rest hleft =>
    (gives_keyword rest "is").bind fun _ rest _ =>
    (gives_relation rest).bind fun name rest hname => ?_
  have hlabels : ∀ right key rest, isCondition (.text name) right key = true →
      Gives rest ((do
        let blocks ← many blockLabelAhead (labelledBlock (block statement))
        return Node.branch left name right key (lastBlock true blocks)
          (lastBlock false blocks)) rest)
        fun node rest => IsStatementBefore (some node) rest := by
    intro right key rest hcondition
    refine (gives_labels rest hstatement).bind fun blocks rest hblocks => .pure ?_
    intro _ hnode
    obtain rfl := Option.some.inj hnode
    have htrue : isBlock (lastBlock true blocks) = true :=
      lastBlock_induction (P := fun nodes => isBlock nodes = true) true (by simp [isBlock])
        hblocks.1
    have hfalse : isBlock (lastBlock false blocks) = true :=
      lastBlock_induction (P := fun nodes => isBlock nodes = true) false (by simp [isBlock])
        hblocks.1
    refine ⟨by simp [isStatement, hleft, hcondition, htrue, hfalse], fun hopens => hblocks.2 ?_⟩
    rintro rfl
    cases hopens
  by_cases hassigned : name = "assigned"
  · subst hassigned
    refine (gives_word rest).bind fun key rest hkey =>
      (Gives.pure (Q := fun pair _ => pair = (Node.absent, Scalar.text key)) rfl).bind ?_
    rintro _ rest rfl
    exact hlabels _ _ rest (by simp [isCondition, hkey, isAbsent, absent])
  · simp only [if_neg hassigned]
    refine (gives_keyword rest "id").bind fun _ rest _ =>
      (gives_symbol rest .equals).bind fun _ rest _ =>
      (hvalue rest).bind fun right rest hright =>
      (Gives.pure (Q := fun pair _ => pair = (right, Scalar.null)) rfl).bind ?_
    rintro _ rest rfl
    exact hlabels _ _ rest (isCondition_of_relationNames hname hassigned hright)

end Blocks

/-- **Statements are statements of the grammar**, whatever the bound on nesting. -/
theorem gives_statement (depth : ℕ) :
    Gives tokens (statement depth tokens) IsStatementBefore := by
  induction depth generalizing tokens with
  | zero => exact .error
  | succ depth ih =>
    have hvalue := (givesExpressions depth).value
    have hnone : Gives tokens (.ok (none, tokens)) IsStatementBefore :=
      .ok (List.suffix_refl tokens) nofun
    cases tokens with
    | nil => exact hnone
    | cons token rest =>
      obtain ⟨lexeme, line, column⟩ := token
      cases lexeme with
      | word name =>
        simp only [statement]
        refine .ite (fun _ => ?_) fun _ => .ite (fun _ => ?_) fun _ => .ite (fun _ => ?_) fun _ =>
          .ite (fun _ => ?_) fun _ => .ite (fun _ => ?_) fun _ => .ite (fun _ => ?_) fun _ =>
          .ite (fun hname => ?_) fun _ => .ite (fun _ => ?_) fun _ => .ite (fun _ => ?_) fun _ =>
          .ite (fun _ => ?_) fun _ => .ite (fun _ => ?_) fun _ => hnone
        · exact ((gives_canvas rest).map fun _ _ => isStatementBefore_of_isSimple).cons
        · exact ((gives_define rest hvalue).map fun _ _ => isStatementBefore_of_isSimple).cons
        · exact (gives_variableRead _).map fun _ _ h => isStatementBefore_of_isSimple h.2
        · exact ((gives_spawn rest hvalue).map fun _ _ => isStatementBefore_of_isSimple).cons
        · exact ((gives_despawn rest).map fun _ _ => isStatementBefore_of_isSimple).cons
        · exact ((gives_move rest hvalue).map fun _ _ => isStatementBefore_of_isSimple).cons
        · exact ((givesExpressions depth).call (some line) (⟨.word name, line, column⟩ :: rest)
            hname).map fun _ _ h => isStatementBefore_of_isSimple h.2
        · exact ((gives_wait rest).map fun _ _ => isStatementBefore_of_isSimple).cons
        · exact ((gives_loop rest ih).map fun _ _ h => h).cons
        · exact ((gives_branch rest ih hvalue).map fun _ _ h => h).cons
        · exact ((gives_assign rest hvalue).map fun _ _ => isStatementBefore_of_isSimple).cons
      | _ => exact hnone

end Parser

/-- **Programs of texts are programs of the grammar**, whatever the bound on nesting. -/
theorem isProgram_of_parseWithin {source : String} {tokens : List Token} {depth : ℕ}
    {program : List Node} (htokens : tokenize source = .ok tokens)
    (h : parseWithin depth tokens = .ok program) : isProgram program = true := by
  have hitem : ∀ tokens, Parser.Gives tokens (Parser.statementOrSkip depth tokens) fun result _ =>
      ∀ node ∈ result, node.isStatement = true := by
    intro tokens
    refine (Parser.gives_statement tokens depth).bind fun result rest hresult => ?_
    cases result with
    | some node => exact .pure fun node hnode => (hresult node hnode).1
    | none => exact .ok (List.tail_suffix rest) nofun
  unfold parseWithin at h
  split at h
  · next results rest hmany =>
    obtain rfl := Except.ok.inj h
    obtain ⟨-, hresults⟩ :=
      Parser.gives_many tokens hitem (isSpelled_of_tokenize htokens) results rest hmany
    refine List.all_eq_true.mpr fun node hnode => ?_
    obtain ⟨result, hresult, hsome⟩ := List.mem_filterMap.mp hnode
    exact hresults result hresult node hsome
  · cases h

end TileScript
