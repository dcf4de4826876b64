import TileScript.Proofs.Program.Local
import TileScript.Proofs.Token.Layout

/-!
# Where a program is refused

Every list of tokens is parsed to the end, or refused at one of its tokens or at its end. The tokens
before that place are no reason to refuse, and the tokens after it, but for one, are not looked at.
The refusal names the line of the token at that place, or that of the last token at the end, and for
the tokens of a text this is one of its lines.

## Main statements

* `Parser.localExpressions`, `Parser.local_statement`: expressions and statements.
* `Parser.local_statements`: programs.
* `parse_located`: the outcome of parsing the tokens of a text.
-/

namespace TileScript

namespace Parser

variable {tokens left : List Token}

/-! ## Expressions -/

/-- The rest of `ref(NAME)` after its parenthesis. -/
def readRest : Parser Node := do
  let name ← word
  symbol .closeParen
  return .read name

theorem local_readRest (tokens : List Token) : Local readRest tokens :=
  (local_word tokens).seq fun _ left => (local_symbol _ left).seq fun _ _ => .pure _ _

theorem variableRead_cons {token token' : Token} (h : token.lexeme = .word "ref")
    (h' : token'.lexeme = .openParen) (rest : List Token) :
    variableRead (token :: token' :: rest) = readRest rest :=
  bind_keyword_symbol h h' readRest rest

/-- A word that is a value: the beginning of `ref(NAME)`, or a label. -/
theorem local_label {name : String} {line column : ℕ} {rest : List Token} {p : Parser Node}
    (hp : ∀ rest', p (⟨.word name, line, column⟩ :: rest') =
      if readAhead (⟨.word name, line, column⟩ :: rest') then
        variableRead (⟨.word name, line, column⟩ :: rest')
      else .ok (.label name, rest')) :
    Local p (⟨.word name, line, column⟩ :: rest) := by
  cases hread : readAhead (⟨.word name, line, column⟩ :: rest) with
  | true =>
    cases rest with
    | nil => simp [readAhead, startsWith] at hread
    | cons token' rest =>
      have h : name = "ref" ∧ token'.lexeme = .openParen := by
        simpa [readAhead, startsWith] using hread
      refine .after [_, token'] (fun rest' _ => ?_) (local_readRest rest)
      obtain ⟨rfl, hparen⟩ := h
      have hahead : readAhead (⟨.word "ref", line, column⟩ :: token' :: rest') = true := by
        simp [readAhead, startsWith, hparen]
      exact (hp _).trans ((if_pos hahead).trans (variableRead_cons rfl hparen rest'))
  | false =>
    refine .after [_] (fun rest' hsame => ?_) (.pure (.label name) rest)
    have hnot := (hsame.append [⟨.word name, line, column⟩]).startsWith_eq_false (by simp) hread
    exact (hp _).trans (if_neg (ne_true_of_eq_false hnot))

/-- The arguments of a call, and the parenthesis that closes them. -/
def callRest (depth : ℕ) (stopLine : Option ℕ) (name : String) (parens : Bool) : Parser Node := do
  let args ← many (argumentAhead parens stopLine) (do
    let arg ← argument depth
    skipCommas
    return arg)
  if parens then symbol .closeParen
  return .call (canonicalName name) args

theorem call_eq (depth : ℕ) (stopLine : Option ℕ) :
    call (depth + 1) stopLine = (do
      let name ← word
      let parens ← accept .openParen
      callRest depth stopLine name parens) := rfl

theorem call_nil (depth : ℕ) (stopLine : Option ℕ) :
    ∃ refusal, call depth stopLine [] = .error refusal := by
  cases depth <;> exact ⟨_, rfl⟩

theorem argument_nil (depth : ℕ) : ∃ refusal, argument depth [] = .error refusal := by
  cases depth with
  | zero => exact ⟨_, rfl⟩
  | succ depth => cases depth <;> exact ⟨_, rfl⟩

theorem local_callRest {depth : ℕ} (h : ∀ tokens, Local (argument depth) tokens)
    (stopLine : Option ℕ) (name : String) (parens : Bool) (tokens : List Token) :
    Local (callRest depth stopLine name parens) tokens := by
  have hitem : ∀ tokens, Local (do let arg ← argument depth; skipCommas; return arg) tokens :=
    fun tokens => (h tokens).seq fun _ left => (local_skipCommas left).seq fun _ _ => .pure _ _
  have hargs : ∀ tokens, Local (many (argumentAhead parens stopLine)
      (do let arg ← argument depth; skipCommas; return arg)) tokens := by
    obtain ⟨refusal, hrefusal⟩ := argument_nil depth
    exact Local.many rfl
      (local_guarded (fun _ _ => rfl) rfl hitem (bind_of_error hrefusal))
  refine (hargs tokens).seq fun args left => ?_
  cases parens with
  | true => exact (local_symbol _ left).seq fun _ _ => .pure _ _
  | false => exact .pure _ _

/-- Whether an argument is a call in parentheses depends on the first two tokens. -/
theorem callAhead_iff (tokens : List Token) :
    (functionAhead tokens && startsWith [.openParen] tokens.tail) = true ↔
      ∃ name ∈ functionNames, startsWith [.word name, .openParen] tokens = true := by
  cases tokens with
  | nil => simp [functionAhead, startsWith]
  | cons token rest =>
    obtain ⟨lexeme, line, column⟩ := token
    cases lexeme with
    | word name => simp [functionAhead, startsWith]
    | _ => simp [functionAhead, startsWith]

theorem argument_cons {depth : ℕ} {name : String} (hname : name ∈ functionNames)
    {token token' : Token} (h : token.lexeme = .word name) (h' : token'.lexeme = .openParen)
    {rest : List Token} :
    argument (depth + 2) (token :: token' :: rest) = callRest depth none name true rest := by
  obtain ⟨lexeme, line, column⟩ := token
  obtain rfl : lexeme = .word name := h
  have hcall : (functionAhead (⟨.word name, line, column⟩ :: token' :: rest) &&
      startsWith [.openParen] (token' :: rest)) = true := by
    simp [functionAhead, startsWith, hname, h']
  have haccept : accept .openParen (token' :: rest) = .ok (true, rest) := by
    simp [accept, startsWith, h']
  have hword : word (⟨.word name, line, column⟩ :: token' :: rest) = .ok (name, token' :: rest) :=
    rfl
  rw [argument]
  refine (if_pos hcall).trans ?_
  rw [call_eq, bind_of_ok hword]
  exact bind_of_ok haccept

theorem local_call {depth : ℕ} (h : ∀ tokens, Local (argument depth) tokens)
    (stopLine : Option ℕ) (tokens : List Token) : Local (call (depth + 1) stopLine) tokens :=
  (local_word tokens).seq fun name left => (local_accept _ left).seq fun parens =>
    local_callRest h stopLine name parens

/-- An argument that is a call goes on with the arguments of that call, two levels below. -/
theorem local_argument {depth : ℕ} (h : ∀ tokens, Local (argument depth) tokens)
    (hvalue : ∀ tokens, Local (value (depth + 1)) tokens) (tokens : List Token) :
    Local (argument (depth + 2)) tokens := by
  by_cases hcall : functionAhead tokens && startsWith [.openParen] tokens.tail
  · obtain ⟨name, hname, hahead⟩ := (callAhead_iff tokens).mp hcall
    exact .pair hahead (fun _ _ rest hword hparen => argument_cons hname hword hparen)
      (local_callRest h none name true)
  · refine .after [] (fun tokens' hsame => if_neg ?_) (hvalue tokens)
    intro hcall'
    obtain ⟨name, hname, hahead⟩ := (callAhead_iff tokens').mp hcall'
    exact hcall ((callAhead_iff tokens).mpr ⟨name, hname, hsame.startsWith le_rfl hahead⟩)

section Brackets

variable {depth : ℕ} (h : ∀ tokens, Local (bracketed depth) tokens)
include h

/-- What stands in brackets after the first of them. -/
theorem local_closed (tokens : List Token) :
    Local (do let expr ← bracketed depth; symbol .closeBracket; return expr) tokens :=
  (h tokens).seq fun _ left => (local_symbol _ left).seq fun _ _ => .pure _ _

theorem local_value (tokens : List Token) : Local (value (depth + 1)) tokens := by
  cases tokens with
  | nil => exact .nil rfl
  | cons token rest =>
    obtain ⟨lexeme, line, column⟩ := token
    cases lexeme with
    | openBracket => exact .after [_] (fun _ _ => rfl) (local_closed h rest)
    | number n => exact .after [_] (fun _ _ => rfl) (.pure (Node.number (.int n)) rest)
    | word name => exact local_label fun _ => rfl
    | _ => exact .refuse (fun _ => rfl) rfl

theorem local_bracketed (hcall : ∀ tokens, Local (call depth none) tokens) (tokens : List Token) :
    Local (bracketed (depth + 1)) tokens := by
  cases tokens with
  | nil => exact .nil rfl
  | cons token rest =>
    obtain ⟨lexeme, line, column⟩ := token
    cases lexeme with
    | openBracket => exact .after [_] (fun _ _ => rfl) (local_closed h rest)
    | number n => exact .after [_] (fun _ _ => rfl) (.pure (Node.number (.int n)) rest)
    | word name =>
      by_cases hname : functionNames.contains name = true
      · obtain ⟨refusal, hnil⟩ := call_nil depth none
        exact (hcall _).of_head (fun _ => if_pos hname) rfl (Takes.not_nil hnil)
      · exact local_label fun _ => if_neg hname
    | _ => exact .refuse (fun _ => rfl) rfl

end Brackets

/-- The parsers of expressions take tokens off, or stop. -/
structure LocalExpressions (depth : ℕ) : Prop where
  value : ∀ tokens, Local (value depth) tokens
  bracketed : ∀ tokens, Local (bracketed depth) tokens
  call : ∀ stopLine tokens, Local (call depth stopLine) tokens
  argument : ∀ tokens, Local (argument depth) tokens

theorem localExpressions (depth : ℕ) : LocalExpressions depth := by
  induction depth using Nat.strong_induction_on with
  | _ depth ih =>
    cases depth with
    | zero => exact ⟨.refuse_all _, .refuse_all _, fun _ => .refuse_all _, .refuse_all _⟩
    | succ depth =>
      have h := ih depth (Nat.lt_succ_self depth)
      refine ⟨local_value h.bracketed, local_bracketed h.bracketed (h.call none),
        local_call h.argument, fun tokens => ?_⟩
      cases depth with
      | zero =>
        refine .after [] (fun tokens' _ => ?_) (.refuse_all .tooDeep tokens)
        simp [argument, call, value]
      | succ depth => exact local_argument (ih depth (by omega)).argument h.value tokens

/-! ## Statements -/

theorem wordAhead_cons (names : List String) (token : Token) (rest : List Token) :
    wordAhead names (token :: rest) = wordAhead names [token] := by
  obtain ⟨lexeme, line, column⟩ := token
  cases lexeme <;> rfl

theorem local_loopCount (tokens : List Token) : Local loopCount tokens := by
  cases tokens with
  | nil => exact .nil rfl
  | cons token rest =>
    obtain ⟨lexeme, line, column⟩ := token
    cases lexeme with
    | number n => exact .after [_] (fun _ _ => rfl) (.pure (Scalar.int n) rest)
    | word name =>
      by_cases hname : name = "forever"
      · subst hname
        exact .after [_] (fun _ _ => rfl) (.pure (Scalar.text "forever") rest)
      · refine .ok_head (a := .null) (fun _ => ?_) rfl
        simp [loopCount, startsWith, hname]
    | _ => exact .ok_head (a := .null) (fun _ => rfl) rfl

theorem local_wait (tokens : List Token) : Local wait tokens := by
  cases tokens with
  | nil => exact .nil rfl
  | cons token rest =>
    obtain ⟨lexeme, line, column⟩ := token
    cases lexeme with
    | number n => exact .after [_] (fun _ _ => rfl) (.pure (Node.wait (.int n)) rest)
    | _ => exact .refuse (fun _ => rfl) rfl

theorem local_canvas (tokens : List Token) : Local canvas tokens :=
  (local_number tokens).seq fun _ left => (local_number left).seq fun _ _ => .pure _ _

theorem local_despawn (tokens : List Token) : Local despawn tokens :=
  (local_keyword _ tokens).seq fun _ left => (local_symbol _ left).seq fun _ left =>
    (local_number left).seq fun _ _ => .pure _ _

section Statements

variable {value : Parser Node} (hvalue : ∀ tokens, Local value tokens)
include hvalue

theorem local_spawn (tokens : List Token) : Local (spawn value) tokens := by
  have hfield : ∀ tokens, Local (field value) tokens := fun tokens =>
    (local_word tokens).seq fun _ left => (local_symbol _ left).seq fun _ left =>
      (hvalue left).seq fun _ _ => .pure _ _
  have hfields : ∀ tokens,
      Local (many (wordAhead ["id", "x", "y", "state"]) (field value)) tokens :=
    Local.many rfl (local_guarded (wordAhead_cons _) rfl hfield rfl)
  exact (hfields tokens).seq fun _ _ => .pure _ _

theorem local_movePart (tokens : List Token) : Local (movePart value) tokens := by
  have hassigned : ∀ (part : Node → MovePart) tokens,
      Local (do symbol .equals; return part (← value)) tokens := fun part tokens =>
    (local_symbol _ tokens).seq fun _ left => (hvalue left).seq fun _ _ => .pure _ _
  refine (local_word tokens).seq fun name left => ?_
  split
  · exact hassigned .id left
  split
  · exact hassigned .x left
  split
  · exact hassigned .y left
  split
  · exact (local_accept _ left).seq fun _ left => (hvalue left).seq fun _ _ => .pure _ _
  split
  · exact .pure _ _
  · exact .pure _ _

theorem local_move (tokens : List Token) : Local (move value) tokens := by
  have hparts : ∀ tokens, Local (many (wordAhead movePartNames) (movePart value)) tokens :=
    Local.many rfl (local_guarded (wordAhead_cons _) rfl (local_movePart hvalue) rfl)
  exact (hparts tokens).seq fun _ _ => .pure _ _

/-- The rest of a variable's definition after the mark. -/
def defineRest (value : Parser Node) : Parser Node := do
  let name ← word
  symbol .openParen
  let node ← value
  symbol .closeParen
  return .define name node

theorem local_defineRest (tokens : List Token) : Local (defineRest value) tokens :=
  (local_word tokens).seq fun _ left => (local_symbol _ left).seq fun _ left =>
    (hvalue left).seq fun _ left => (local_symbol _ left).seq fun _ _ => .pure _ _

theorem local_assign (tokens : List Token) : Local (assign value) tokens := by
  refine (local_word tokens).seq fun key left => (local_keyword _ left).seq fun _ left => ?_
  refine Local.seq ?_ fun _ _ => .pure _ _
  cases hread : readAhead left with
  | true =>
    refine .pair hread (fun token token' rest h h' => ?_) local_readRest
    rw [← variableRead_cons h h' rest]
    exact if_pos (by simp [readAhead, startsWith, h, h'])
  | false =>
    cases hid : startsWith [.word "id", .equals] left with
    | true =>
      refine .pair hid (fun token token' rest h h' => ?_) hvalue
      simp [readAhead, startsWith, h, h']
    | false =>
      refine .after [] (fun rest' hsame => ?_) (.refuse_all .expectedBinding left)
      have hread' := hsame.startsWith_eq_false le_rfl hread
      have hid' := hsame.startsWith_eq_false le_rfl hid
      simp [readAhead, hread', hid']

end Statements

section Blocks

variable {body : Parser (List Node)} (hbody : ∀ tokens, Local body tokens)
include hbody

theorem local_loop (tokens : List Token) : Local (loop body) tokens :=
  (local_number tokens).seq fun _ left => (local_loopCount left).seq fun _ left =>
    (hbody left).seq fun _ _ => .pure _ _

omit hbody in
theorem labelledBlock_cons {label : String} {token token' : Token} (h : token.lexeme = .dots 2)
    (h' : token'.lexeme = .word label) (rest : List Token) :
    labelledBlock body (token :: token' :: rest) =
      ((fun nodes => (decide (label = "true"), nodes)) <$> body) rest := by
  obtain ⟨lexeme, line, column⟩ := token'
  obtain rfl : lexeme = .word label := h'
  have hsymbol : symbol (.dots 2) (token :: ⟨.word label, line, column⟩ :: rest) =
      .ok ((), ⟨.word label, line, column⟩ :: rest) := by
    simp [symbol, startsWith, h]
  rw [labelledBlock, bind_of_ok hsymbol]
  rfl

theorem local_labelledBlocks (tokens : List Token) :
    Local (many blockLabelAhead (labelledBlock body)) tokens := by
  refine Local.many rfl (fun tokens => ?_) tokens
  have hlabel : ∀ label, label = "true" ∨ label = "false" →
      startsWith [.dots 2, .word label] tokens = true →
      Local (guarded blockLabelAhead (labelledBlock body)) tokens := by
    intro label hlabel hahead
    refine .pair hahead (fun token token' rest h h' => ?_) fun rest =>
      ((hbody rest).map fun nodes => (decide (label = "true"), nodes)).map some
    have hlabels : blockLabelAhead (token :: token' :: rest) = true := by
      rcases hlabel with rfl | rfl
      · simp [blockLabelAhead, startsWith, h, h']
      · simp [blockLabelAhead, startsWith, h, h']
    rw [guarded, if_pos hlabels]
    exact map_congr_at (labelledBlock_cons h h' rest) some
  cases htrue : startsWith [.dots 2, .word "true"] tokens with
  | true => exact hlabel "true" (.inl rfl) htrue
  | false =>
    cases hfalse : startsWith [.dots 2, .word "false"] tokens with
    | true => exact hlabel "false" (.inr rfl) hfalse
    | false =>
      refine .ok (a := none) fun tokens' hsame => ?_
      have htrue' := hsame.startsWith_eq_false le_rfl htrue
      have hfalse' := hsame.startsWith_eq_false le_rfl hfalse
      rw [guarded, blockLabelAhead, htrue', hfalse']
      rfl

end Blocks

section Branches

variable {value : Parser Node} {body : Parser (List Node)}

/-- The blocks of a condition. -/
def branchBlocks (body : Parser (List Node)) (left : Node) (relation : String) (right : Node)
    (key : Scalar) : Parser Node := do
  let blocks ← many blockLabelAhead (labelledBlock body)
  return .branch left relation right key (lastBlock true blocks) (lastBlock false blocks)

/-- The rest of a condition after its relation. -/
def branchRest (value : Parser Node) (body : Parser (List Node)) (left : Node)
    (relation : String) : Parser Node :=
  if relation = "assigned" then do
    let key ← word
    branchBlocks body left relation .absent (.text key)
  else do
    keyword "id"
    symbol .equals
    let right ← value
    branchBlocks body left relation right .null

theorem branch_eq (value : Parser Node) (body : Parser (List Node)) :
    branch value body = (do
      keyword "id"
      symbol .equals
      let left ← value
      keyword "is"
      let relation ← relation
      branchRest value body left relation) :=
  rfl

variable (hvalue : ∀ tokens, Local value tokens) (hbody : ∀ tokens, Local body tokens)
include hvalue hbody

theorem local_branchRest (left : Node) (relation : String) (tokens : List Token) :
    Local (branchRest value body left relation) tokens := by
  have hblocks : ∀ right key tokens,
      Local (branchBlocks body left relation right key) tokens := fun right key tokens =>
    (local_labelledBlocks hbody tokens).seq fun _ _ => .pure _ _
  rw [branchRest]
  split
  · exact (local_word tokens).seq fun key => hblocks _ _
  · exact (local_keyword _ tokens).seq fun _ left => (local_symbol _ left).seq fun _ left =>
      (hvalue left).seq fun right => hblocks _ _

/-- A relation that is a word. -/
def relationWord : Parser String := fun tokens =>
  match tokens with
  | ⟨.word name, _, _⟩ :: rest =>
    if relationNames.contains name then .ok (name, rest)
    else refuse (.unknownRelation name) tokens
  | _ => refuse .expectedRelation tokens

omit hvalue hbody in
theorem local_relationWord (tokens : List Token) : Local relationWord tokens := by
  cases tokens with
  | nil => exact .nil rfl
  | cons token rest =>
    obtain ⟨lexeme, line, column⟩ := token
    cases lexeme with
    | word name =>
      by_cases hname : relationNames.contains name = true
      · exact .after [_] (fun _ _ => if_pos hname) (.pure name rest)
      · exact .refuse (fun _ => if_neg hname) rfl
    | _ => exact .refuse (fun _ => rfl) rfl

/-- A relation and the rest of the condition. Where two ids follow each other, the first of these
is looked at as a relation and taken off as an id. -/
theorem local_relation (left : Node) (tokens : List Token) :
    Local (do let relation ← relation; branchRest value body left relation) tokens := by
  cases hid : startsWith [.word "id", .equals] tokens with
  | true =>
    refine .pair (q := do let right ← value; branchBlocks body left "is" right .null) hid
      (fun token token' rest h h' => ?_) fun rest => (hvalue rest).seq fun right left' =>
        (local_labelledBlocks hbody left').seq fun _ _ => .pure _ _
    have hrelation : relation (token :: token' :: rest) = .ok ("is", token :: token' :: rest) :=
      if_pos (by simp [startsWith, h, h'])
    rw [bind_of_ok hrelation]
    exact bind_keyword_symbol h h' _ rest
  | false =>
    have hrest := (local_relationWord tokens).seq (local_branchRest hvalue hbody left)
    refine .after [] (fun tokens' hsame => bind_congr_at ?_ _) hrest
    exact if_neg (ne_true_of_eq_false (hsame.startsWith_eq_false le_rfl hid))

theorem local_branch (tokens : List Token) : Local (branch value body) tokens := by
  rw [branch_eq]
  exact (local_keyword _ tokens).seq fun _ left => (local_symbol _ left).seq fun _ left =>
    (hvalue left).seq fun node left => (local_keyword _ left).seq fun _ =>
      local_relation hvalue hbody node

end Branches

theorem local_block {statement : Parser (Option Node)} (h : ∀ tokens, Local statement tokens)
    (tokens : List Token) : Local (block statement) tokens := by
  have hitem : ∀ tokens, Local
      (guarded (startsWith [.dots 1]) fun tokens => statement tokens.tail) tokens := by
    intro tokens
    cases tokens with
    | nil => exact .nil rfl
    | cons token rest =>
      by_cases hdot : token.lexeme = .dots 1
      · refine .after [token] (fun rest' _ => ?_) ((h rest).map some)
        exact if_pos (by simp [startsWith, hdot])
      · refine .ok_head (a := none) (fun rest' => ?_) rfl
        exact if_neg (by simp [startsWith, hdot])
  exact (Local.many rfl hitem tokens).seq fun _ _ => .pure _ _

/-- A statement that begins with the word for variables: a definition, a value, or none. -/
theorem statement_ref (depth line column : ℕ) (rest : List Token) :
    statement (depth + 1) (⟨.word "ref", line, column⟩ :: rest) =
      if startsWith [.equals] rest then (some <$> define (value depth)) rest
      else if startsWith [.openParen] rest then
        ((some ∘ Node.compute) <$> variableRead) (⟨.word "ref", line, column⟩ :: rest)
      else .ok (none, ⟨.word "ref", line, column⟩ :: rest) := by
  simp [statement, functionNames]

theorem local_ref {depth line column : ℕ} (hvalue : ∀ tokens, Local (value depth) tokens)
    (rest : List Token) : Local (statement (depth + 1)) (⟨.word "ref", line, column⟩ :: rest) := by
  cases hequals : startsWith [.equals] rest with
  | true =>
    obtain _ | ⟨token', rest⟩ := rest
    · cases hequals
    have h' : token'.lexeme = .equals := by simpa [startsWith] using hequals
    refine .after [_, token'] (fun rest' _ => ?_) ((local_defineRest hvalue rest).map some)
    have hahead : startsWith [.equals] (token' :: rest') = true := by simp [startsWith, h']
    have hsymbol : symbol .equals (token' :: rest') = .ok ((), rest') := if_pos hahead
    have hdefine : define (value depth) (token' :: rest') = defineRest (value depth) rest' :=
      bind_of_ok hsymbol
    exact (statement_ref ..).trans ((if_pos hahead).trans (map_congr_at hdefine some))
  | false =>
    cases hparen : startsWith [.openParen] rest with
    | true =>
      obtain _ | ⟨token', rest⟩ := rest
      · cases hparen
      have h' : token'.lexeme = .openParen := by simpa [startsWith] using hparen
      refine .after [_, token'] (fun rest' _ => ?_)
        ((local_readRest rest).map (some ∘ Node.compute))
      have hahead : startsWith [.openParen] (token' :: rest') = true := by simp [startsWith, h']
      have hnot : ¬ startsWith [.equals] (token' :: rest') = true := by simp [startsWith, h']
      have hread : variableRead (⟨.word "ref", line, column⟩ :: token' :: rest') = readRest rest' :=
        variableRead_cons rfl h' rest'
      exact (statement_ref ..).trans ((if_neg hnot).trans ((if_pos hahead).trans
        (map_congr_at hread (some ∘ Node.compute))))
    | false =>
      refine .ok (a := none) fun tokens' hsame => ?_
      cases tokens' with
      | nil => rfl
      | cons token' rest' =>
        obtain ⟨others, heq⟩ := hsame.head
        obtain ⟨rfl, -⟩ := List.cons.inj heq
        have hfollows : ∀ lexeme, startsWith [lexeme] rest = false →
            startsWith [lexeme] rest' = false := by
          intro lexeme hnot
          have hpair : startsWith [.word "ref", lexeme] (⟨.word "ref", line, column⟩ :: rest) =
              false := by rw [startsWith, hnot, Bool.and_false]
          have hpair' := hsame.startsWith_eq_false le_rfl hpair
          rwa [startsWith, beq_self_eq_true, Bool.true_and] at hpair'
        rw [statement_ref, hfollows _ hequals, hfollows _ hparen]
        rfl

theorem local_statement (depth : ℕ) (tokens : List Token) : Local (statement depth) tokens := by
  induction depth generalizing tokens with
  | zero => exact .refuse_all _ _
  | succ depth ih =>
    have hvalue := (localExpressions depth).value
    have hbody := local_block ih
    cases tokens with
    | nil => exact .nil rfl
    | cons token rest =>
      obtain ⟨lexeme, line, column⟩ := token
      cases lexeme with
      | word name =>
        -- The name of a function stays ahead for the call; every other word is taken off.
        by_cases hfunction : functionNames.contains name = true
        · obtain ⟨refusal, hnil⟩ := call_nil depth (some line)
          refine (((localExpressions depth).call (some line) _).map (some ∘ Node.compute)).of_head
            (fun rest' => ?_) rfl (Takes.not_nil (map_of_error hnil))
          simp only [functionNames, List.contains_iff_mem, List.mem_cons, List.not_mem_nil,
            or_false] at hfunction
          rcases hfunction with rfl | rfl | rfl | rfl | rfl | rfl | rfl <;> rfl
        by_cases href : name = "ref"
        · subst href
          exact local_ref hvalue rest
        obtain rfl | hcanvas := eq_or_ne name "canvas"
        · exact .after [_] (fun _ _ => rfl) ((local_canvas rest).map some)
        obtain rfl | hspawn := eq_or_ne name "spawn"
        · exact .after [_] (fun _ _ => rfl) ((local_spawn hvalue rest).map some)
        obtain rfl | hdespawn := eq_or_ne name "despawn"
        · exact .after [_] (fun _ _ => rfl) ((local_despawn rest).map some)
        obtain rfl | hmove := eq_or_ne name "move"
        · exact .after [_] (fun _ _ => rfl) ((local_move hvalue rest).map some)
        obtain rfl | hwait := eq_or_ne name "wait"
        · exact .after [_] (fun _ _ => rfl) ((local_wait rest).map some)
        obtain rfl | hrepeat := eq_or_ne name "repeat"
        · exact .after [_] (fun _ _ => rfl) ((local_loop hbody rest).map some)
        obtain rfl | hif := eq_or_ne name "if"
        · exact .after [_] (fun _ _ => rfl) ((local_branch hvalue hbody rest).map some)
        obtain rfl | hassign := eq_or_ne name "assign"
        · exact .after [_] (fun _ _ => rfl) ((local_assign hvalue rest).map some)
        · refine .ok_head (a := none) (fun rest' => ?_) rfl
          simp_all [statement]
      | _ => exact .ok_head (a := none) (fun _ => rfl) rfl

/-! ## Whole programs -/

/-- All statements of the tokens, and a token passed over for each that starts none. -/
def statements (depth : ℕ) : Parser (List (Option Node)) :=
  many (fun tokens => !tokens.isEmpty) (statementOrSkip depth)

/-- A statement takes a token off, and so does passing one over. -/
theorem length_statementOrSkip_lt {depth : ℕ} {token : Token} {rest : List Token}
    {node? : Option Node} (h : statementOrSkip depth (token :: rest) = .ok (node?, left)) :
    left.length < (token :: rest).length := by
  cases local_statement depth (token :: rest) with
  | stops read rest' cause eq hstops =>
    rw [eq, statementOrSkip, bind_of_error (hstops.eq_error rest' rfl)] at h
    cases h
  | takes read left' result? eq htakes =>
    have hlength := congrArg List.length eq
    rw [List.length_append, List.length_cons] at hlength
    rw [eq, statementOrSkip, bind_of_ok htakes.eq_self] at h
    cases result? with
    | none =>
      obtain rfl : left'.tail = left := (Prod.mk.inj (Except.ok.inj h)).2
      rw [List.length_tail, List.length_cons]
      omega
    | some node =>
      obtain rfl : left' = left := (Prod.mk.inj (Except.ok.inj h)).2
      have hread : read ≠ [] := by
        rintro rfl
        cases depth with
        | zero => cases htakes.eq_read
        | succ depth => cases htakes.eq_read
      have := List.length_pos_iff.mpr hread
      rw [List.length_cons]
      omega

theorem local_statementOrSkip (depth : ℕ) (tokens : List Token) :
    Local (statementOrSkip depth) tokens := by
  refine (local_statement depth tokens).seq fun node? left => ?_
  cases node? with
  | some node => exact .pure _ _
  | none =>
    cases left with
    | nil => exact .nil rfl
    | cons token rest => exact .after [token] (fun _ _ => rfl) (.pure none rest)

theorem local_guarded_statementOrSkip (depth : ℕ) (tokens : List Token) :
    Local (guarded (fun tokens => !tokens.isEmpty) (statementOrSkip depth)) tokens := by
  cases tokens with
  | nil => exact .nil rfl
  | cons token rest =>
    refine ((local_statementOrSkip depth (token :: rest)).map some).of_head (fun _ => rfl) rfl ?_
    intro node? h
    have hall : (some <$> statementOrSkip depth) (token :: rest) = .ok (node?, token :: rest) :=
      h.eq_self
    obtain ⟨first?, hfirst, -⟩ := exists_of_map hall
    exact absurd (length_statementOrSkip_lt hfirst) (Nat.lt_irrefl _)

theorem local_statements (depth : ℕ) (tokens : List Token) : Local (statements depth) tokens :=
  Local.many rfl (local_guarded_statementOrSkip depth) tokens

/-- A program takes all tokens off. -/
theorem eq_nil_of_statements {depth : ℕ} {nodes : List (Option Node)}
    (h : statements depth tokens = .ok (nodes, left)) : left = [] := by
  have hmore := more_of_many rfl (local_guarded_statementOrSkip depth) h
  simpa using hmore

end Parser

/-! ## The lines of tokens -/

/-- The tokens of pieces are on the lines from the place of the first piece to that of the last. -/
theorem Token.line_mem_ofPieces {pieces : List Piece} {p : Position} {tokens : List Token}
    (h : ofPieces p pieces = .ok tokens) :
    ∀ token ∈ tokens, p.line ≤ token.line ∧
      token.line ≤ p.line + (pieces.flatMap Piece.text).count '\n' := by
  induction pieces generalizing p tokens with
  | nil =>
    obtain rfl := Except.ok.inj h
    simp
  | cons piece rest ih =>
    obtain ⟨lexeme, -, h⟩ := bind_eq_ok_iff.mp h
    obtain ⟨others, hothers, h⟩ := bind_eq_ok_iff.mp h
    have hrest : ∀ token ∈ others, p.line ≤ token.line ∧
        token.line ≤ p.line + ((piece :: rest).flatMap Piece.text).count '\n' := by
      intro token htoken
      obtain ⟨hlow, hhigh⟩ := ih hothers token htoken
      rw [Position.line_after] at hlow hhigh
      rw [List.flatMap_cons, List.count_append]
      omega
    cases lexeme with
    | none =>
      obtain rfl := Except.ok.inj h
      exact hrest
    | some lexeme =>
      obtain rfl := Except.ok.inj h
      exact List.forall_mem_cons.mpr ⟨⟨le_rfl, Nat.le_add_right _ _⟩, hrest⟩

theorem line_mem_tokenize {source : String} {tokens : List Token}
    (h : tokenize source = .ok tokens) {token : Token} (htoken : token ∈ tokens) :
    1 ≤ token.line ∧ token.line ≤ 1 + source.toList.count '\n' := by
  have hline := Token.line_mem_ofPieces h token htoken
  rwa [Piece.flatMap_text_cut] at hline

/-! ## Refusals of programs -/

/-- The message of a refusal ends with its line. -/
theorem message_grammar (cause : GrammarFault) {line : ℕ} (h : line < Scalar.writtenBound) :
    (Fault.grammar cause line).message =
      cause.message ++ " (at line " ++ toString line ++ ")" := by
  have hint : Scalar.intText? line = some (toString line) := by
    have hnot : ¬ (line : ℤ) < 0 := by omega
    rw [Scalar.intText?, if_pos (by simpa using h), Scalar.intText, if_neg hnot]
    rfl
  have hline : Scalar.line? (Fault.grammar cause line).pieces =
      some (cause.message ++ " (at line " ++ toString line ++ ")") := by
    simp [Fault.pieces, Scalar.line?, hint, Scalar.display?, String.join]
  rw [Fault.message, hline]
  rfl

theorem parseWithin_of_ok {depth : ℕ} {tokens left : List Token} {nodes : List (Option Node)}
    (h : Parser.statements depth tokens = .ok (nodes, left)) :
    parseWithin depth tokens = .ok (nodes.filterMap id) := by
  rw [Parser.statements] at h
  rw [parseWithin, h]

theorem parseWithin_of_error {depth : ℕ} {tokens : List Token} {refusal : Refusal}
    (h : Parser.statements depth tokens = .error refusal) :
    parseWithin depth tokens = .error (.grammar refusal.cause
      (refusal.line.getD ((tokens.getLast?.map Token.line).getD 1))) := by
  rw [Parser.statements] at h
  rw [parseWithin, h]

/-- **Refusals are located.** The tokens of a text are all parsed, or there is a place between
tokens where the parser stops. Then the outcome is a fault of the grammar, and its message ends with
the line of the token at that place, or that of the last token if there is none. That line is one of
the lines of the text. -/
theorem parse_located {source : String} {tokens : List Token}
    (htokens : tokenize source = .ok tokens) (depth : ℕ) :
    (∃ nodes, Parser.statements depth tokens = .ok (nodes, []) ∧
      parseWithin depth tokens = .ok (nodes.filterMap id)) ∨
    ∃ read rest cause line,
      tokens = read ++ rest ∧ Parser.Stops (Parser.statements depth) read rest cause ∧
      (rest.head?.or tokens.getLast?).map Token.line = some line ∧
      parseWithin depth tokens = .error (.grammar cause line) ∧
      (Fault.grammar cause line).kind.name = "SyntaxError" ∧
      (1 ≤ line ∧ line ≤ 1 + source.toList.count '\n') ∧
      (1 + source.toList.count '\n' < Scalar.writtenBound →
        (Fault.grammar cause line).message =
          cause.message ++ " (at line " ++ toString line ++ ")") := by
  cases Parser.local_statements depth tokens with
  | takes read left nodes eq h =>
    have hall : Parser.statements depth tokens = .ok (nodes, left) := eq ▸ h.eq_self
    obtain rfl := Parser.eq_nil_of_statements hall
    exact .inl ⟨nodes, hall, parseWithin_of_ok hall⟩
  | stops read rest cause eq h =>
    have hrefused : Parser.statements depth tokens =
        .error ⟨cause, rest.head?.map Token.line⟩ := eq ▸ h.eq_error rest rfl
    have hne : tokens ≠ [] := by
      rintro rfl
      cases hrefused
    -- The token at the place, or else the last one.
    obtain ⟨token, htoken, hmem⟩ : ∃ token, rest.head?.or tokens.getLast? = some token ∧
        token ∈ tokens := by
      cases rest with
      | nil => exact ⟨_, List.getLast?_eq_some_getLast hne, List.getLast_mem hne⟩
      | cons token rest => exact ⟨token, rfl, eq ▸ by simp⟩
    have hline := line_mem_tokenize htokens hmem
    have hparse : parseWithin depth tokens = .error (.grammar cause token.line) := by
      rw [parseWithin_of_error hrefused]
      cases rest with
      | nil =>
        have hlast : tokens.getLast? = some token := htoken
        rw [hlast]
        rfl
      | cons first rest =>
        obtain rfl : first = token := Option.some.inj htoken
        rfl
    exact .inr ⟨read, rest, cause, token.line, eq, h, by rw [htoken]; rfl, hparse, rfl, hline,
      fun hbound => message_grammar cause (hline.2.trans_lt hbound)⟩

/-- A text with a mark in place of a value on its second line. -/
def brokenSource : String := "canvas 2 1\nspawn id=)\nwait 5\n"

/-- The tokens of `brokenSource`. -/
def brokenTokens : List Token :=
  [⟨.word "canvas", 1, 1⟩, ⟨.number 2, 1, 8⟩, ⟨.number 1, 1, 10⟩, ⟨.word "spawn", 2, 1⟩,
    ⟨.word "id", 2, 7⟩, ⟨.equals, 2, 9⟩, ⟨.closeParen, 2, 10⟩, ⟨.word "wait", 3, 1⟩,
    ⟨.number 5, 3, 6⟩]

theorem parse_located_broken :
    ∃ read rest cause, brokenTokens = read ++ rest ∧
      Parser.Stops (Parser.statements nestingLimit) read rest cause ∧
      (rest.head?.or brokenTokens.getLast?).map Token.line = some 2 ∧
      parseWithin nestingLimit brokenTokens = .error (.grammar cause 2) ∧
      (Fault.grammar cause 2).message = cause.message ++ " (at line " ++ toString 2 ++ ")" := by
  have htokens : tokenize brokenSource = .ok brokenTokens := by decide +kernel
  have hrefused : parseWithin nestingLimit brokenTokens = .error (.grammar .expectedValue 2) := rfl
  have hbound : 1 + brokenSource.toList.count '\n' < Scalar.writtenBound := by decide +kernel
  rcases parse_located htokens nestingLimit with ⟨nodes, -, hparsed⟩ |
    ⟨read, rest, cause, line, eq, hstops, hline, hparse, -, -, hmessage⟩
  · cases hrefused.symm.trans hparsed
  · obtain ⟨rfl, rfl⟩ : GrammarFault.expectedValue = cause ∧ 2 = line := by
      simpa using hrefused.symm.trans hparse
    exact ⟨read, rest, _, eq, hstops, hline, hparse, hmessage hbound⟩

end TileScript
