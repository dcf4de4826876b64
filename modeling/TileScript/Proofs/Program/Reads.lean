import Mathlib.Order.Filter.AtTopBot.Basic
import TileScript.Program.Parser
import TileScript.Proofs.Program.Grammar

/-!
# What parsers read

A parser reads a list of lexemes if it takes tokens with these lexemes off the front, whatever their
places are and whatever comes next, as long as the next lexemes are of a given kind. Sequences of
parsers read sequences of lexemes if each part may be followed by the next one.

Bounds on nesting are left open here: everything is read with every bound that is large enough.

## Main definitions

* `Parser.Reads`: a parser reads lexemes and gives a result.
* `Parser.ReadsMany`: the same of a repeated parser.
* `Parser.isFresh`: nothing, a dot or a statement's first word is ahead.

## Main statements

* `Parser.reads_value`: expressions of the grammar are read back from their lexemes.
* `Parser.reads_simple`: so are statements without blocks.
-/

namespace TileScript

namespace Parser

variable {α β : Type}

/-- The parser takes tokens with the given lexemes off the front and gives `a`, if the lexemes after
them are as `after` says. -/
def Reads (p : Parser α) (lexemes : List Lexeme) (a : α) (after : List Lexeme → Prop) : Prop :=
  ∀ tokens rest, tokens.map Token.lexeme = lexemes → after (rest.map Token.lexeme) →
    p (tokens ++ rest) = .ok (a, rest)

namespace Reads

variable {p q : Parser α} {l m : List Lexeme} {a : α} {b : β} {F G : List Lexeme → Prop}

theorem mono (h : Reads p l a F) (hF : ∀ rest, G rest → F rest) : Reads p l a G :=
  fun tokens rest htokens hrest => h tokens rest htokens (hF _ hrest)

theorem pure : Reads (pure a) [] a F := by
  intro tokens rest htokens _
  obtain rfl := List.map_eq_nil_iff.mp htokens
  rfl

/-- Sequences: the second part has to be of the kind that may follow the first. -/
theorem bind {k : α → Parser β} (hp : Reads p l a F) (hk : Reads (k a) m b G)
    (hF : ∀ rest, G rest → F (m ++ rest)) : Reads (p >>= k) (l ++ m) b G := by
  intro tokens rest htokens hrest
  obtain ⟨front, back, rfl, hfront, hback⟩ := List.map_eq_append_iff.mp htokens
  have hfirst := hp front (back ++ rest) hfront (by simpa [hback] using hF _ hrest)
  change (p _ >>= fun result => k result.1 result.2) = _
  rw [List.append_assoc, hfirst]
  exact hk back rest hback hrest

/-- A sequence that starts with one lexeme, which anything may follow. -/
theorem cons {k : α → Parser β} {lexeme : Lexeme} (hp : Reads p [lexeme] a fun _ => True)
    (hk : Reads (k a) m b G) : Reads (p >>= k) (lexeme :: m) b G :=
  hp.bind hk fun _ _ => trivial

theorem map {f : α → β} (h : Reads p l a F) : Reads (f <$> p) l (f a) F := by
  intro tokens rest htokens hrest
  change (p _ >>= fun result => Pure.pure (f result.1, result.2)) = _
  rw [h tokens rest htokens hrest]
  rfl

/-- A sequence that ends with a result. -/
theorem bind_pure {f : α → β} (h : Reads p l a F) :
    Reads (p >>= fun x => Pure.pure (f x)) l (f a) F := by
  have hall := h.bind (F := F) (G := F) (k := fun x => Pure.pure (f x)) .pure fun _ h => h
  rwa [List.append_nil] at hall

/-- Two parsers that agree on the tokens in question. -/
theorem congr (hq : Reads q l a F)
    (h : ∀ tokens rest, tokens.map Token.lexeme = l ++ rest → F rest → p tokens = q tokens) :
    Reads p l a F := by
  intro tokens rest htokens hrest
  rw [h (tokens ++ rest) (rest.map Token.lexeme) (by simp [htokens]) hrest]
  exact hq tokens rest htokens hrest

/-- A parser that looks at the first token and goes on with the others. -/
theorem of_step {lexeme : Lexeme} (hq : Reads q l a F)
    (h : ∀ line column tokens rest, tokens.map Token.lexeme = l ++ rest → F rest →
      p (⟨lexeme, line, column⟩ :: tokens) = q tokens) :
    Reads p (lexeme :: l) a F := by
  intro tokens rest htokens hrest
  obtain ⟨⟨_, line, column⟩, tokens, rfl, rfl, htail⟩ := List.map_eq_cons_iff.mp htokens
  rw [List.cons_append, h line column _ (rest.map Token.lexeme) (by simp [htail]) hrest]
  exact hq tokens rest htail hrest

end Reads

/-! ## Single tokens -/

theorem startsWith_eq (lexemes : List Lexeme) (tokens : List Token) :
    startsWith lexemes tokens = lexemes.isPrefixOf (tokens.map Token.lexeme) := by
  induction lexemes generalizing tokens with
  | nil => simp [startsWith]
  | cons lexeme lexemes ih =>
    cases tokens with
    | nil => rfl
    | cons token tokens =>
      rw [startsWith, ih, List.map_cons, List.isPrefixOf_cons_cons, Bool.beq_comm]

theorem reads_keyword (name : String) : Reads (keyword name) [.word name] () fun _ => True :=
  Reads.pure.of_step fun _ _ tokens _ _ _ => by simp [keyword, startsWith]; rfl

theorem reads_symbol (lexeme : Lexeme) : Reads (symbol lexeme) [lexeme] () fun _ => True :=
  Reads.pure.of_step fun _ _ tokens _ _ _ => by simp [symbol, startsWith]; rfl

theorem reads_accept (lexeme : Lexeme) : Reads (accept lexeme) [lexeme] true fun _ => True :=
  Reads.pure.of_step fun _ _ tokens _ _ _ => by simp [accept, startsWith]; rfl

theorem reads_word (name : String) : Reads word [.word name] name fun _ => True :=
  Reads.pure.of_step fun _ _ _ _ _ _ => rfl

theorem reads_number (n : ℕ) : Reads number [.number n] n fun _ => True :=
  Reads.pure.of_step fun _ _ _ _ _ _ => rfl

/-! ## Repetition -/

/-- The repeated parser reads the lexemes whenever it may be repeated once for each of them. -/
def ReadsMany (more : List Token → Bool) (item : Parser α) (lexemes : List Lexeme) (as : List α)
    (after : List Lexeme → Prop) : Prop :=
  ∀ budget : List Token, lexemes.length ≤ budget.length →
    Reads (manyWithin more item budget) lexemes as after

namespace ReadsMany

variable {more : List Token → Bool} {item : Parser α} {l m : List Lexeme} {a : α} {as : List α}
  {F G : List Lexeme → Prop}

theorem many (h : ReadsMany more item l as F) : Reads (many more item) l as F := by
  intro tokens rest htokens hrest
  refine h (tokens ++ rest) ?_ tokens rest htokens hrest
  simp [← htokens]

theorem mono (h : ReadsMany more item l as F) (hF : ∀ rest, G rest → F rest) :
    ReadsMany more item l as G :=
  fun budget hbudget => (h budget hbudget).mono hF

theorem nil (h : ∀ tokens, F (tokens.map Token.lexeme) → more tokens = false) :
    ReadsMany more item [] [] F := by
  intro budget _ tokens rest htokens hrest
  obtain rfl := List.map_eq_nil_iff.mp htokens
  cases budget with
  | nil => rfl
  | cons token budget => simp [manyWithin, h rest hrest]

theorem cons (hitem : Reads item l a F) (hmany : ReadsMany more item m as G) (hl : l ≠ [])
    (hmore : ∀ tokens rest, tokens.map Token.lexeme = l ++ rest → more tokens = true)
    (hF : ∀ rest, G rest → F (m ++ rest)) : ReadsMany more item (l ++ m) (a :: as) G := by
  intro budget hbudget
  have hpos := List.length_pos_iff.mpr hl
  rw [List.length_append] at hbudget
  cases budget with
  | nil =>
    rw [List.length_nil] at hbudget
    omega
  | cons token budget =>
    rw [List.length_cons] at hbudget
    have hrest := hmany budget (by omega)
    have hboth : Reads (do let a ← item; let as ← manyWithin more item budget; return a :: as)
        (l ++ m) (a :: as) G := hitem.bind hrest.bind_pure hF
    refine hboth.congr fun tokens rest htokens _ => ?_
    rw [List.append_assoc] at htokens
    simp only [manyWithin, hmore tokens _ htokens, if_true]

end ReadsMany

/-! ## Expressions -/

open Filter Node

/-- A property of all large bounds, each taken as the successor of another. -/
theorem eventually_of_succ {P : ℕ → Prop} (h : ∀ᶠ depth in atTop, P (depth + 1)) :
    ∀ᶠ depth in atTop, P depth := by
  rw [← map_add_atTop_eq_nat 1]
  exact h

/-- No opening parenthesis is ahead, so that a word stands for itself. -/
def NoParen (rest : List Lexeme) : Prop := rest.head? ≠ some .openParen

theorem noParen_cons {lexeme : Lexeme} (rest : List Lexeme) (h : lexeme ≠ .openParen) :
    NoParen (lexeme :: rest) := by
  rw [NoParen, List.head?_cons]
  exact fun heq => h (Option.some.inj heq)

/-- The lexemes that values start with. -/
def startsValue : Lexeme → Bool
  | .number _ | .word _ | .openBracket => true
  | _ => false

theorem exists_startsValue {node : Node} (h : node.isExpression = true) :
    ∃ lexeme rest, node.expressionLexemes = lexeme :: rest ∧ startsValue lexeme = true := by
  cases node with
  | number value => exact ⟨value.numeral, [], by rw [expressionLexemes], by cases value <;> rfl⟩
  | label name => exact ⟨_, _, by rw [expressionLexemes], rfl⟩
  | read name => exact ⟨_, _, by rw [expressionLexemes], rfl⟩
  | call name args => exact ⟨_, _, by rw [expressionLexemes], rfl⟩
  | _ => simp [isExpression] at h

theorem startsWith_openParen {tokens : List Token} (h : NoParen (tokens.map Token.lexeme)) :
    startsWith [.openParen] tokens = false := by
  cases tokens with
  | nil => rfl
  | cons token tokens => simpa [startsWith, NoParen] using h

theorem readAhead_eq_false {token : Token} {tokens : List Token}
    (h : NoParen (tokens.map Token.lexeme)) : readAhead (token :: tokens) = false := by
  rw [readAhead, startsWith, startsWith_openParen h, Bool.and_false]

theorem reads_variableRead (name : String) :
    Reads variableRead [.word "ref", .openParen, .word name, .closeParen] (.read name)
      fun _ => True :=
  (reads_keyword "ref").cons <| (reads_symbol .openParen).cons <| (reads_word name).cons <|
    (reads_symbol .closeParen).bind_pure

/-- An argument that is written as a value is read as one. -/
theorem reads_argument {node : Node} {depth : ℕ} (h : node.isExpression = true)
    (hvalue : Reads (value depth) node.expressionLexemes node NoParen) :
    Reads (argument (depth + 1)) node.expressionLexemes node NoParen := by
  refine hvalue.congr fun tokens rest htokens hrest => ?_
  have hcall : (functionAhead tokens && startsWith [.openParen] tokens.tail) = false := by
    cases node with
    | number value =>
      obtain ⟨n, -, rfl⟩ := Scalar.exists_of_isNumeral (by simpa [isExpression] using h)
      rw [expressionLexemes, List.singleton_append, List.map_eq_cons_iff] at htokens
      obtain ⟨⟨_, line, column⟩, tokens, rfl, rfl, -⟩ := htokens
      rfl
    | label name =>
      rw [expressionLexemes, List.singleton_append, List.map_eq_cons_iff] at htokens
      obtain ⟨token, tokens, rfl, -, rfl⟩ := htokens
      rw [List.tail_cons, startsWith_openParen hrest, Bool.and_false]
    | read name =>
      rw [expressionLexemes, List.cons_append, List.map_eq_cons_iff] at htokens
      obtain ⟨⟨_, line, column⟩, tokens, rfl, rfl, -⟩ := htokens
      rfl
    | call name args =>
      rw [expressionLexemes, List.cons_append, List.map_eq_cons_iff] at htokens
      obtain ⟨⟨_, line, column⟩, tokens, rfl, rfl, -⟩ := htokens
      rfl
    | _ => simp [isExpression] at h
  simp only [argument, hcall, Bool.false_eq_true, if_false]

theorem reads_skipCommas {commas : List Lexeme} (h : ∀ lexeme ∈ commas, lexeme = .comma) :
    Reads skipCommas commas () fun rest => rest.head? ≠ some .comma := by
  intro tokens rest htokens hrest
  have hdrop : rest.dropWhile (·.lexeme == .comma) = rest := by
    cases rest with
    | nil => rfl
    | cons token rest => exact List.dropWhile_cons_of_neg (by simpa using hrest)
  have hcommas : ∀ token ∈ tokens, (token.lexeme == .comma) = true := by
    intro token htoken
    rw [beq_iff_eq]
    exact h _ (htokens ▸ List.mem_map_of_mem htoken)
  rw [skipCommas, List.dropWhile_append_of_pos hcommas, hdrop]

theorem contains_functionNames {name : String} (h : callNames.contains name = true) :
    functionNames.contains name = true := by
  have hall : callNames.all functionNames.contains = true := by decide
  exact List.all_eq_true.mp hall name (List.contains_iff_mem.mp h)

theorem head?_arguments {nodes : List Node} {after : List Lexeme} (h : areExpressions nodes = true)
    (hafter : after.head? = some .closeParen) :
    NoParen (argumentLexemes nodes ++ after) ∧
      (argumentLexemes nodes ++ after).head? ≠ some .comma := by
  cases nodes with
  | nil => simp [argumentLexemes, NoParen, hafter]
  | cons node rest =>
    rw [areExpressions, Bool.and_eq_true] at h
    obtain ⟨lexeme, tail, hlexeme, hstarts⟩ := exists_startsValue h.1
    rw [argumentLexemes, hlexeme]
    cases lexeme <;> simp_all [NoParen, startsValue]

/-- An argument, the commas after it and the other arguments, where no line ends the call. -/
theorem ReadsMany.argument {parens : Bool} {stopLine : Option ℕ} {depth : ℕ} {node : Node}
    {nodes : List Node} {lexeme : Lexeme} {l commas m : List Lexeme} {G : List Lexeme → Prop}
    (hline : (parens || stopLine.isNone) = true) (hstarts : startsValue lexeme = true)
    (harg : Reads (argument depth) (lexeme :: l) node NoParen)
    (hcommas : ∀ lexeme ∈ commas, lexeme = .comma)
    (hrest : ReadsMany (argumentAhead parens stopLine)
      (do let arg ← argument depth; skipCommas; return arg) m nodes G)
    (hG : ∀ rest, G rest → NoParen (m ++ rest) ∧ (m ++ rest).head? ≠ some .comma) :
    ReadsMany (argumentAhead parens stopLine)
      (do let arg ← argument depth; skipCommas; return arg) (lexeme :: l ++ commas ++ m)
      (node :: nodes) G := by
  have hitem : Reads (do let arg ← Parser.argument depth; skipCommas; return arg)
      (lexeme :: l ++ commas) node fun rest => NoParen rest ∧ rest.head? ≠ some .comma := by
    refine harg.bind ((reads_skipCommas hcommas).mono fun _ h => h.2).bind_pure ?_
    rintro after ⟨hparen, -⟩
    cases commas with
    | nil => exact hparen
    | cons first commas =>
      obtain rfl := hcommas first List.mem_cons_self
      exact noParen_cons _ (by decide)
  refine .cons hitem hrest (by simp) ?_ hG
  intro tokens after htokens
  rw [List.cons_append, List.cons_append, List.map_eq_cons_iff] at htokens
  obtain ⟨token, tokens, rfl, htoken, -⟩ := htokens
  have hall : (parens || stopLine.all (· == token.line)) = true := by
    cases stopLine with
    | none => simp
    | some line => simpa using Or.inl hline
  cases lexeme <;> simp_all [argumentAhead, startsValue]

theorem canonicalName_eq {name : String} (h : callNames.contains name = true) :
    canonicalName name = name := by
  refine if_neg ?_
  rintro rfl
  revert h
  decide

/-- A call in parentheses is read if its arguments are, wherever the line ends. -/
theorem reads_call (name : String) {args : List Node} {l : List Lexeme} {depth : ℕ}
    {stopLine : Option ℕ}
    (hargs : ReadsMany (argumentAhead true stopLine)
      (do let arg ← argument depth; skipCommas; return arg) l args
      fun rest => rest.head? = some .closeParen) :
    Reads (call (depth + 1) stopLine) (.word name :: .openParen :: (l ++ [.closeParen]))
      (.call (canonicalName name) args) fun _ => True := by
  have hclose : Reads (do symbol .closeParen; return Node.call (canonicalName name) args)
      [.closeParen] (.call (canonicalName name) args) fun _ => True :=
    (reads_symbol .closeParen).bind_pure
  exact (reads_word name).cons <| (reads_accept .openParen).cons <| hargs.many.bind hclose (by simp)

/-- A call in brackets where a value is expected. -/
theorem reads_brackets {name : String} {l : List Lexeme} {node : Node} {depth : ℕ}
    {F : List Lexeme → Prop} (hname : functionNames.contains name = true)
    (hcall : Reads (call depth none) (.word name :: l) node F)
    (hF : ∀ rest, F (.closeBracket :: rest)) :
    Reads (value (depth + 2)) (.openBracket :: .word name :: (l ++ [.closeBracket])) node
      NoParen := by
  have hbracketed : Reads (bracketed (depth + 1)) (.word name :: l) node F := by
    refine hcall.congr fun tokens rest htokens _ => ?_
    obtain ⟨⟨_, line, column⟩, tokens, rfl, rfl, -⟩ := List.map_eq_cons_iff.mp htokens
    simp only [bracketed, hname, if_true]
  have hclosed : Reads (do let expr ← bracketed (depth + 1); symbol .closeBracket; return expr)
      (.word name :: l ++ [.closeBracket]) node NoParen :=
    hbracketed.bind ((reads_symbol .closeBracket).mono fun _ _ => trivial).bind_pure
      fun rest _ => hF rest
  refine hclosed.of_step fun line column tokens rest _ _ => ?_
  simp only [value]

mutual

/-- **Expressions are read back** from their lexemes. -/
theorem reads_value (node : Node) (h : node.isExpression = true) :
    ∀ᶠ depth in atTop, Reads (value depth) node.expressionLexemes node NoParen := by
  refine eventually_of_succ ?_
  cases node with
  | number value =>
    obtain ⟨n, -, rfl⟩ := Scalar.exists_of_isNumeral (by simpa [isExpression] using h)
    rw [expressionLexemes]
    exact .of_forall fun depth => Reads.pure.of_step fun _ _ _ _ _ _ => by simp [value]; rfl
  | label name =>
    rw [expressionLexemes]
    refine .of_forall fun depth =>
      Reads.pure.of_step fun line column tokens rest htokens hrest => ?_
    rw [List.nil_append] at htokens
    simp only [value, readAhead_eq_false (htokens ▸ hrest), Bool.false_eq_true, if_false]
    rfl
  | read name =>
    rw [expressionLexemes]
    refine .of_forall fun depth => ((reads_variableRead name).mono fun _ _ => trivial).congr ?_
    intro tokens rest htokens _
    obtain ⟨⟨_, line, column⟩, tokens, rfl, rfl, htail⟩ := List.map_eq_cons_iff.mp htokens
    have hahead : readAhead (⟨.word "ref", line, column⟩ :: tokens) = true := by
      simp [readAhead, startsWith_eq, htail]
    simp only [value, hahead, if_true]
  | call name args =>
    rw [isExpression, Bool.and_eq_true] at h
    rw [expressionLexemes]
    refine eventually_of_succ (eventually_of_succ ?_)
    filter_upwards [reads_arguments args h.2] with depth hargs
    have hcall := reads_call name (hargs none)
    rw [canonicalName_eq h.1] at hcall
    simpa using reads_brackets (contains_functionNames h.1) hcall fun _ => trivial
  | _ => simp [isExpression] at h

/-- So are the arguments of a call. -/
theorem reads_arguments (nodes : List Node) (h : areExpressions nodes = true) :
    ∀ᶠ depth in atTop, ∀ stopLine, ReadsMany (argumentAhead true stopLine)
      (do let arg ← argument depth; skipCommas; return arg) (argumentLexemes nodes) nodes
      fun rest => rest.head? = some .closeParen := by
  cases nodes with
  | nil =>
    rw [argumentLexemes]
    refine .of_forall fun depth stopLine => .nil fun tokens htokens => ?_
    cases tokens with
    | nil => rfl
    | cons token tokens => simp_all [argumentAhead]
  | cons node rest =>
    rw [areExpressions, Bool.and_eq_true] at h
    refine eventually_of_succ ?_
    have hrest := (tendsto_add_atTop_nat 1).eventually (reads_arguments rest h.2)
    filter_upwards [reads_value node h.1, hrest] with depth hvalue hrest stopLine
    obtain ⟨lexeme, tail, hlexeme, hstarts⟩ := exists_startsValue h.1
    have harg := reads_argument h.1 hvalue
    rw [hlexeme] at harg
    rw [argumentLexemes, hlexeme]
    refine .argument rfl hstarts harg ?_ (hrest stopLine) fun after => head?_arguments h.2
    intro lexeme hcomma
    split at hcomma
    · cases hcomma
    · exact List.mem_singleton.mp hcomma

end

/-! ## Statements without blocks -/

/-- The words that statements start with in their canonical text. -/
def statementWords : List String :=
  ["canvas", "ref", "spawn", "despawn", "move", "wait", "repeat", "if", "assign"] ++ callNames

/-- What may follow a statement: nothing, a dot, or the first word of another statement. -/
def isFresh : List Lexeme → Bool
  | [] => true
  | .dots _ :: _ => true
  | .word name :: _ => statementWords.contains name
  | _ => false

theorem noParen_of_isFresh {rest : List Lexeme} (h : isFresh rest = true) : NoParen rest := by
  cases rest with
  | nil => simp [NoParen]
  | cons lexeme rest => cases lexeme <;> simp_all [NoParen, isFresh]

theorem wordAhead_of_isFresh {names : List String} {tokens : List Token}
    (hnames : (statementWords.all fun name => !names.contains name) = true)
    (h : isFresh (tokens.map Token.lexeme) = true) : wordAhead names tokens = false := by
  cases tokens with
  | nil => rfl
  | cons token tokens =>
    obtain ⟨lexeme, line, column⟩ := token
    cases lexeme with
    | word name =>
      have hname := List.all_eq_true.mp hnames name (List.contains_iff_mem.mp h)
      simpa [wordAhead] using hname
    | _ => rfl

/-- A field whose name is ahead. -/
theorem reads_field {value : Parser Node} {node : Node} {l : List Lexeme} (name : String)
    (hvalue : Reads value l node NoParen) :
    Reads (field value) (.word name :: .equals :: l) (name, node) NoParen :=
  (reads_word name).cons <| (reads_symbol .equals).cons hvalue.bind_pure

theorem wordAhead_eq_true {names : List String} {name : String} {tokens : List Token}
    {rest : List Lexeme} (hname : names.contains name = true)
    (h : tokens.map Token.lexeme = .word name :: rest) : wordAhead names tokens = true := by
  obtain ⟨⟨_, line, column⟩, tokens, rfl, rfl, -⟩ := List.map_eq_cons_iff.mp h
  exact hname

theorem ReadsMany.field {value : Parser Node} {names : List String} {node : Node}
    {l m : List Lexeme} {fields : List (String × Node)} {G : List Lexeme → Prop}
    (hrest : ReadsMany (wordAhead names) (field value) m fields G) (name : String)
    (hname : names.contains name = true) (hvalue : Reads value l node NoParen)
    (hG : ∀ rest, G rest → NoParen (m ++ rest)) :
    ReadsMany (wordAhead names) (Parser.field value) (.word name :: .equals :: (l ++ m))
      ((name, node) :: fields) G :=
  .cons (reads_field name hvalue) hrest (by simp) (fun _ _ => wordAhead_eq_true hname) hG

theorem reads_spawn {value : Parser Node} {id x y state : Node}
    (hid : Reads value id.expressionLexemes id NoParen)
    (hx : Reads value x.expressionLexemes x NoParen)
    (hy : Reads value y.expressionLexemes y NoParen)
    (hstate : Reads value state.expressionLexemes state NoParen) :
    Reads (spawn value) (Node.spawn id x y state).simpleLexemes.tail (.spawn id x y state)
      fun rest => isFresh rest = true := by
  have hnil : ReadsMany (wordAhead ["id", "x", "y", "state"]) (field value) [] []
      fun rest => isFresh rest = true :=
    .nil fun tokens => wordAhead_of_isFresh (by decide)
  have hfields := (((hnil.field "state" rfl hstate fun rest h => noParen_of_isFresh h).field
    "y" rfl hy fun _ _ => noParen_cons _ (by decide)).field
    "x" rfl hx fun _ _ => noParen_cons _ (by decide)).field
    "id" rfl hid fun _ _ => noParen_cons _ (by decide)
  rw [List.append_nil] at hfields
  exact hfields.many.bind_pure

/-- The part of a move that a node may be. -/
def optionalPart (part : Node → MovePart) (node : Node) : List MovePart :=
  if node.isAbsent then [] else [part node]

theorem foldl_optionalPart {part : Node → MovePart} {node start result : Node}
    (hpart : addMovePart start (part node) = result) (habsent : node = .absent → start = result) :
    (optionalPart part node).foldl addMovePart start = result := by
  unfold optionalPart
  split
  · next h => exact habsent (eq_absent_of_isAbsent h)
  · exact hpart

/-- The part of a move that a direction may be. -/
def directionPart : Scalar → List MovePart
  | .text name => [.direction name]
  | _ => []

/-- The parts of a move in the order of its canonical text. -/
def moveParts (id x y : Node) (direction : Scalar) (state : Node) (swap : Bool) : List MovePart :=
  .id id :: (directionPart direction ++ (optionalPart .x x ++ (optionalPart .y y ++
    (optionalPart .state state ++ if swap then [.swap] else []))))

theorem foldl_moveParts {id x y state : Node} {direction : Scalar} {swap : Bool}
    (h : isDirection direction = true) :
    (moveParts id x y direction state swap).foldl addMovePart
        (.move (.number (.int 0)) .absent .absent .null .absent (.bool false)) =
      .move id x y direction state (.bool swap) := by
  have hdirection : (directionPart direction).foldl addMovePart
      (.move id .absent .absent .null .absent (.bool false)) =
      .move id .absent .absent direction .absent (.bool false) := by
    obtain rfl | ⟨name, -, rfl⟩ := cases_of_isDirection h
    · rfl
    · rfl
  have hx : (optionalPart .x x).foldl addMovePart
      (.move id .absent .absent direction .absent (.bool false)) =
      .move id x .absent direction .absent (.bool false) :=
    foldl_optionalPart rfl (by rintro rfl; rfl)
  have hy : (optionalPart .y y).foldl addMovePart
      (.move id x .absent direction .absent (.bool false)) =
      .move id x y direction .absent (.bool false) :=
    foldl_optionalPart rfl (by rintro rfl; rfl)
  have hstate : (optionalPart .state state).foldl addMovePart
      (.move id x y direction .absent (.bool false)) =
      .move id x y direction state (.bool false) :=
    foldl_optionalPart rfl (by rintro rfl; rfl)
  rw [moveParts, List.foldl_cons, addMovePart, List.foldl_append, hdirection, List.foldl_append, hx,
    List.foldl_append, hy, List.foldl_append, hstate]
  cases swap with
  | false => rfl
  | true => rfl

/-- Lexemes with which a move may go on, and the parts as which they are read. -/
structure MoveTail (value : Parser Node) (lexemes : List Lexeme) (parts : List MovePart) :
    Prop where
  reads : ReadsMany (wordAhead movePartNames) (movePart value) lexemes parts
    fun rest => isFresh rest = true
  noParen : ∀ rest, isFresh rest = true → NoParen (lexemes ++ rest)

namespace MoveTail

variable {value : Parser Node} {l m : List Lexeme} {parts : List MovePart}

theorem nil : MoveTail value [] [] where
  reads := .nil fun _ => wordAhead_of_isFresh (by decide)
  noParen := fun _ => noParen_of_isFresh

theorem cons (h : MoveTail value m parts) {name : String} {part : MovePart}
    (hname : movePartNames.contains name = true)
    (hpart : Reads (movePart value) (.word name :: l) part NoParen) :
    MoveTail value (.word name :: l ++ m) (part :: parts) where
  reads := .cons hpart h.reads (by simp) (fun _ _ => wordAhead_eq_true hname) h.noParen
  noParen := fun _ _ => noParen_cons _ (by simp)

theorem optional (h : MoveTail value m parts) {name : String} {part : Node → MovePart} {node : Node}
    (hname : movePartNames.contains name = true)
    (hpart : node.isAbsent = false →
      Reads (movePart value) (.word name :: .equals :: node.expressionLexemes) (part node)
        NoParen) :
    MoveTail value (fieldLexemes name node ++ m) (optionalPart part node ++ parts) := by
  unfold fieldLexemes optionalPart
  split
  · exact h
  · next hnode => exact h.cons hname (hpart (by simpa using hnode))

theorem direction (h : MoveTail value m parts) {direction : Scalar}
    (hdirection : isDirection direction = true) :
    MoveTail value (directionLexemes direction ++ m) (directionPart direction ++ parts) := by
  obtain rfl | ⟨name, hmem, rfl⟩ := cases_of_isDirection hdirection
  · exact h
  · have hnames : directionNames.all movePartNames.contains = true := by decide
    have hpart : Reads (movePart value) [.word name] (.direction name) NoParen := by
      simp only [directionNames, List.mem_cons, List.not_mem_nil, or_false] at hmem
      rcases hmem with rfl | rfl | rfl | rfl | rfl | rfl <;> exact (reads_word _).cons .pure
    exact h.cons (List.all_eq_true.mp hnames name hmem) hpart

theorem swap (swap : Bool) :
    MoveTail value (if swap then [.word "swap"] else []) (if swap then [.swap] else []) := by
  cases swap with
  | false => exact nil
  | true => exact nil.cons (by decide) ((reads_word "swap").cons .pure)

end MoveTail

theorem reads_move {value : Parser Node} {id x y state : Node} {direction : Scalar} (swap : Bool)
    (hdirection : isDirection direction = true)
    (hid : Reads value id.expressionLexemes id NoParen)
    (hx : x.isAbsent = false → Reads value x.expressionLexemes x NoParen)
    (hy : y.isAbsent = false → Reads value y.expressionLexemes y NoParen)
    (hstate : state.isAbsent = false → Reads value state.expressionLexemes state NoParen) :
    Reads (move value) (Node.move id x y direction state (.bool swap)).simpleLexemes.tail
      (.move id x y direction state (.bool swap)) fun rest => isFresh rest = true := by
  have hidPart : Reads (movePart value) (.word "id" :: .equals :: id.expressionLexemes) (.id id)
      NoParen :=
    (reads_word "id").cons <| (reads_symbol .equals).cons hid.bind_pure
  have hxPart := fun h : x.isAbsent = false =>
    show Reads (movePart value) (.word "x" :: .equals :: x.expressionLexemes) (.x x) NoParen from
      (reads_word "x").cons <| (reads_symbol .equals).cons (hx h).bind_pure
  have hyPart := fun h : y.isAbsent = false =>
    show Reads (movePart value) (.word "y" :: .equals :: y.expressionLexemes) (.y y) NoParen from
      (reads_word "y").cons <| (reads_symbol .equals).cons (hy h).bind_pure
  have hstatePart := fun h : state.isAbsent = false =>
    show Reads (movePart value) (.word "set" :: .equals :: state.expressionLexemes) (.state state)
        NoParen from
      (reads_word "set").cons <| (reads_accept .equals).cons (hstate h).bind_pure
  have hparts : MoveTail value (Node.move id x y direction state (.bool swap)).simpleLexemes.tail
      (moveParts id x y direction state swap) :=
    ((((MoveTail.swap swap).optional rfl hstatePart).optional rfl hyPart).optional rfl
      hxPart).direction hdirection |>.cons rfl hidPart
  have hall := hparts.reads.many.bind_pure (f := fun parts : List MovePart =>
    parts.foldl addMovePart
      (.move (.number (.int 0)) .absent .absent .null .absent (.bool false)))
  rw [foldl_moveParts hdirection] at hall
  exact hall

theorem readAhead_eq_true {tokens : List Token} {rest : List Lexeme}
    (h : tokens.map Token.lexeme = .word "ref" :: .openParen :: rest) :
    readAhead tokens = true := by
  simp [readAhead, startsWith_eq, h]

theorem reads_assign {value : Parser Node} (key : String) {node : Node}
    (hnode : node.isExpression = true)
    (hvalue : Reads value node.expressionLexemes node NoParen) :
    Reads (assign value) (Node.assign key node).simpleLexemes.tail (.assign key node) NoParen := by
  have hequals : Reads (fun tokens => value (tokens.drop 1)) (.equals :: node.expressionLexemes)
      node NoParen := hvalue.of_step fun _ _ _ _ _ _ => rfl
  have hid : Reads (fun tokens => value (tokens.drop 2)) (.word "id" :: .equals ::
      node.expressionLexemes) node NoParen := hequals.of_step fun _ _ _ _ _ _ => rfl
  have hbound : Reads (assign value) (.word key :: .word "to" :: .word "id" :: .equals ::
      node.expressionLexemes) (.assign key node) NoParen := by
    refine (reads_word key).cons <| (reads_keyword "to").cons (hid.congr ?_).bind_pure
    intro tokens rest htokens _
    have hread : readAhead tokens = false := by
      rw [readAhead, startsWith_eq, htokens]
      rfl
    have hahead : startsWith [.word "id", .equals] tokens = true := by
      simp [startsWith_eq, htokens]
    simp only [hread, hahead, Bool.false_eq_true, if_false, if_true]
  cases node with
  | read name =>
    refine (reads_word key).cons <| (reads_keyword "to").cons
      (((reads_variableRead name).mono fun _ _ => trivial).congr ?_).bind_pure
    intro tokens rest htokens _
    simp only [readAhead_eq_true htokens, if_true]
  | number | label | call => exact hbound
  | _ => simp [isExpression] at hnode

/-- A function's name starts a call that ends with its line. -/
theorem statement_call {name : String} (h : functionNames.contains name = true)
    (depth line column : ℕ) (rest : List Token) :
    statement (depth + 1) (⟨.word name, line, column⟩ :: rest) =
      ((some ∘ Node.compute) <$> call depth (some line)) (⟨.word name, line, column⟩ :: rest) := by
  have hmem : name ∈ functionNames := List.contains_iff_mem.mp h
  simp only [functionNames, List.mem_cons, List.not_mem_nil, or_false] at hmem
  rcases hmem with rfl | rfl | rfl | rfl | rfl | rfl | rfl <;> rfl

theorem reads_compute {expr : Node} (h : expr.isComputed = true) :
    ∀ᶠ depth in atTop, Reads (statement (depth + 1)) expr.computedLexemes (some (.compute expr))
      fun _ => True := by
  cases expr with
  | read name =>
    refine .of_forall fun depth =>
      ((reads_variableRead name).map (f := some ∘ Node.compute)).congr
        fun tokens rest htokens _ => ?_
    obtain ⟨⟨_, line, column⟩, tokens, rfl, rfl, htail⟩ := List.map_eq_cons_iff.mp htokens
    have hparen : startsWith [.openParen] tokens = true := by rw [startsWith_eq, htail]; rfl
    have hequals : startsWith [.equals] tokens = false := by rw [startsWith_eq, htail]; rfl
    simp [statement, hparen, hequals]
  | call name args =>
    rw [isComputed, Bool.and_eq_true] at h
    refine eventually_of_succ ?_
    filter_upwards [reads_arguments args h.2] with depth hargs
    intro tokens rest htokens hrest
    obtain ⟨⟨_, line, column⟩, tail, rfl, rfl, -⟩ := List.map_eq_cons_iff.mp htokens
    have hcall := (reads_call name (hargs (some line))).map (f := some ∘ Node.compute)
    rw [canonicalName_eq h.1] at hcall
    rw [List.cons_append, statement_call (contains_functionNames h.1)]
    exact hcall _ rest htokens hrest
  | _ => simp [isComputed] at h

theorem reads_value_of_isExpression (node : Node) :
    ∀ᶠ depth in atTop, node.isExpression = true →
      Reads (value depth) node.expressionLexemes node NoParen := by
  by_cases h : node.isExpression = true
  · filter_upwards [reads_value node h] with depth hvalue _
    exact hvalue
  · exact .of_forall fun depth hexpression => absurd hexpression h

theorem isExpression_of_isOptional {node : Node} (h : node.isOptional = true)
    (habsent : node.isAbsent = false) : node.isExpression = true := by
  simpa [isOptional, habsent] using h

/-- **Statements without blocks are read back** from their lexemes. -/
theorem reads_simple {node : Node} (h : node.isSimple = true) :
    ∀ᶠ depth in atTop, Reads (statement depth) node.simpleLexemes (some node)
      fun rest => isFresh rest = true := by
  refine eventually_of_succ ?_
  cases node with
  | canvas width height =>
    rw [isSimple, Bool.and_eq_true] at h
    obtain ⟨n, -, rfl⟩ := Scalar.exists_of_isNumeral h.1
    obtain ⟨m, -, rfl⟩ := Scalar.exists_of_isNumeral h.2
    have hcanvas : Reads canvas [.number n, .number m] (.canvas (.int n) (.int m))
        fun rest => isFresh rest = true :=
      (reads_number n).cons ((reads_number m).mono fun _ _ => trivial).bind_pure
    exact .of_forall fun depth => hcanvas.map.of_step fun _ _ _ _ _ _ => rfl
  | define name value =>
    rw [isSimple, Bool.and_eq_true] at h
    filter_upwards [reads_value value h.2] with depth hvalue
    have hclose : Reads (do symbol .closeParen; return Node.define name value) [.closeParen]
        (.define name value) fun rest => isFresh rest = true :=
      ((reads_symbol .closeParen).mono fun _ _ => trivial).bind_pure
    have hdefine : Reads (define (Parser.value depth)) (Node.define name value).simpleLexemes.tail
        (.define name value) fun rest => isFresh rest = true :=
      (reads_symbol .equals).cons <| (reads_word name).cons <| (reads_symbol .openParen).cons <|
        hvalue.bind hclose fun _ _ => noParen_cons _ (by decide)
    refine hdefine.map.of_step fun line column tokens rest htokens _ => ?_
    have hequals : startsWith [.equals] tokens = true := by
      simp [startsWith_eq, htokens, simpleLexemes]
    simp [statement, hequals]
  | compute expr =>
    filter_upwards [reads_compute h] with depth hcompute
    exact hcompute.mono fun _ _ => trivial
  | spawn id x y state =>
    simp only [isSimple, Bool.and_eq_true] at h
    filter_upwards [reads_value id h.1.1.1, reads_value x h.1.1.2, reads_value y h.1.2,
      reads_value state h.2] with depth hid hx hy hstate
    exact (reads_spawn hid hx hy hstate).map.of_step fun _ _ _ _ _ _ => rfl
  | despawn id =>
    obtain ⟨value, hvalue, rfl⟩ := exists_of_isSimple_despawn h
    obtain ⟨n, -, rfl⟩ := Scalar.exists_of_isNumeral hvalue
    have hdespawn : Reads despawn [.word "id", .equals, .number n] (.despawn (.scalar (.int n)))
        fun rest => isFresh rest = true :=
      (reads_keyword "id").cons <| (reads_symbol .equals).cons
        ((reads_number n).mono fun _ _ => trivial).bind_pure
    exact .of_forall fun depth => hdespawn.map.of_step fun _ _ _ _ _ _ => rfl
  | move id x y direction state swap =>
    obtain ⟨swaps, rfl, hid, hx, hy, hdirection, hstate⟩ := exists_of_isSimple_move h
    filter_upwards [reads_value id hid, reads_value_of_isExpression x,
      reads_value_of_isExpression y, reads_value_of_isExpression state]
      with depth hidReads hxReads hyReads hstateReads
    have hmove := reads_move swaps hdirection hidReads
      (fun h => hxReads (isExpression_of_isOptional hx h))
      (fun h => hyReads (isExpression_of_isOptional hy h))
      (fun h => hstateReads (isExpression_of_isOptional hstate h))
    exact hmove.map.of_step fun _ _ _ _ _ _ => rfl
  | wait duration =>
    rw [isSimple] at h
    obtain ⟨n, -, rfl⟩ := Scalar.exists_of_isNumeral h
    have hwait : Reads wait [.number n] (.wait (.int n)) fun rest => isFresh rest = true :=
      Reads.pure.of_step fun _ _ _ _ _ _ => rfl
    exact .of_forall fun depth => hwait.map.of_step fun _ _ _ _ _ _ => rfl
  | assign key value =>
    rw [isSimple, Bool.and_eq_true] at h
    filter_upwards [reads_value value h.2] with depth hvalue
    have hassign := (reads_assign key h.2 hvalue).mono fun _ h => noParen_of_isFresh h
    have hlexemes : (Node.assign key value).simpleLexemes =
        .word "assign" :: (Node.assign key value).simpleLexemes.tail := by
      cases value <;> rfl
    rw [hlexemes]
    exact hassign.map.of_step fun _ _ _ _ _ _ => rfl
  | _ => simp [isSimple] at h

end Parser

end TileScript
