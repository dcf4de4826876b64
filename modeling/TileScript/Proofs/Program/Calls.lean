import TileScript.Proofs.Program.Relined
import TileScript.Proofs.Program.RoundTrip

/-!
# The notations of a call

The arguments of a call stand in parentheses or after its name, with spaces and commas between them
as the writer likes, and an argument that is itself a call in parentheses may go without brackets.
All of this is one tree, on a line of its own as well as in brackets where a value is expected.

What ends the arguments is different in every case: the end of the line, a closing parenthesis or a
closing bracket. In brackets no line counts, so that the calls are read there first; on a line of
its own a call is then read in the same way, as no argument is on another line.

## Main definitions

* `WrittenArgument`: an argument of a call as it is written.
* `WrittenArgument.joined`: the text of several arguments.
* `callSource`: the text of a call, with parentheses or without.

## Main statements

* `Parser.reads_writtenCall`: a call is read back from its lexemes where no line ends it.
* `Parser.call_of_oneLine`: on one line it does not matter whether the line ends the call.
* `settles_callSource`: all notations are the same statement and the same value.
-/

namespace TileScript

open Filter TileScript.Node

/-! ## Texts -/

/-- What may stand between two arguments: spaces and commas, and not nothing. -/
def isBreak (gap : String) : Bool := gap != "" && gap.toList.all fun c => c == ' ' || c == ','

/-- An argument of a call as it is written: a call with brackets around it or without them, and what
stands between it and the next argument. -/
structure WrittenArgument where
  node : Node
  brackets : Bool
  gap : String

namespace WrittenArgument

/-- An expression of the grammar that is kept apart from the next one. -/
def isProper (arg : WrittenArgument) : Bool := arg.node.isExpression && isBreak arg.gap

/-- The text of an argument. -/
def text (arg : WrittenArgument) : Except Fault String :=
  if arg.brackets then arg.node.expressionText else arg.node.computedText

/-- The lexemes of an argument. -/
def lexemes (arg : WrittenArgument) : List Lexeme :=
  if arg.brackets then arg.node.expressionLexemes else arg.node.computedLexemes

/-- The lexemes of what stands after an argument. -/
def commas (arg : WrittenArgument) : List Lexeme := .replicate (arg.gap.toList.count ',') .comma

/-- The text of several arguments. Nothing stands after the last. -/
def joined : List WrittenArgument → Except Fault String
  | [] => .ok ""
  | arg :: rest => do
    let text ← arg.text
    let more ← joined rest
    return text ++ (if rest.isEmpty then "" else arg.gap) ++ more

/-- The lexemes of several arguments. -/
def joinedLexemes : List WrittenArgument → List Lexeme
  | [] => []
  | arg :: rest =>
    arg.lexemes ++ (if rest.isEmpty then [] else arg.commas) ++ joinedLexemes rest

end WrittenArgument

/-- The text of a call: its name, and its arguments in parentheses or after a blank. -/
def callSource (parens : Bool) (name blank args : String) : String :=
  if parens then name ++ "(" ++ args ++ ")" else name ++ blank ++ args

/-- The lexemes of a call. -/
def callLexemes (parens : Bool) (name : String) (args : List Lexeme) : List Lexeme :=
  .word name :: if parens then .openParen :: (args ++ [.closeParen]) else args

namespace Node

theorem newline_notMem_name {name : String} (h : isName name = true) : '\n' ∉ name.toList := by
  rw [isName, Bool.and_eq_true, List.all_eq_true] at h
  intro hmem
  have hword := h.2 _ hmem
  revert hword
  decide

theorem newline_notMem_intercalate {texts : List String} (h : ∀ text ∈ texts, '\n' ∉ text.toList) :
    '\n' ∉ (", ".intercalate texts).toList := by
  induction texts with
  | nil => simp
  | cons text texts ih =>
    rw [List.forall_mem_cons] at h
    cases texts with
    | nil => simpa using h.1
    | cons next texts =>
      rw [String.intercalate_cons_cons, String.toList_append, String.toList_append]
      exact List.not_mem_append (List.not_mem_append h.1 (by decide)) (ih h.2)

theorem newline_notMem_callText {name : String} {texts : List String} (hname : isName name = true)
    (htexts : ∀ text ∈ texts, '\n' ∉ text.toList) : '\n' ∉ (callText name texts).toList := by
  simp only [callText, String.toList_append]
  exact List.not_mem_append (List.not_mem_append (List.not_mem_append
    (newline_notMem_name hname) (by decide)) (newline_notMem_intercalate htexts)) (by decide)

mutual

/-- The text of an expression is on one line. -/
theorem newline_notMem_expressionText (node : Node) (h : node.isExpression = true) {text : String}
    (htext : node.expressionText = .ok text) : '\n' ∉ text.toList := by
  cases node with
  | number value =>
    obtain ⟨n, hn, rfl⟩ := Scalar.exists_of_isNumeral (by simpa [isExpression] using h)
    rw [expressionText, Scalar.line_of_display? (display?_numeral hn)] at htext
    obtain rfl := Except.ok.inj htext
    rw [String.toList_ofList]
    intro hmem
    have hdigit := List.all_eq_true.mp (Decimal.all_isDigit_toDigits n) _ hmem
    revert hdigit
    decide
  | label name =>
    rw [expressionText] at htext
    rw [isExpression] at h
    obtain rfl := Except.ok.inj htext
    exact newline_notMem_name h
  | read name =>
    rw [expressionText] at htext
    rw [isExpression] at h
    obtain rfl := Except.ok.inj htext
    simp [newline_notMem_name h]
  | call name args =>
    rw [expressionText] at htext
    rw [isExpression, Bool.and_eq_true] at h
    obtain ⟨texts, htexts, htext⟩ := bind_eq_ok_iff.mp htext
    obtain rfl := Except.ok.inj htext
    have hargs := newline_notMem_expressionTexts args h.2 htexts
    simp [newline_notMem_callText (isName_of_mem_callNames h.1) hargs]
  | _ => simp [isExpression] at h

/-- So are those of the arguments of a call. -/
theorem newline_notMem_expressionTexts (nodes : List Node) (h : areExpressions nodes = true)
    {texts : List String} (htexts : expressionTexts nodes = .ok texts) :
    ∀ text ∈ texts, '\n' ∉ text.toList := by
  cases nodes with
  | nil =>
    rw [expressionTexts] at htexts
    obtain rfl := Except.ok.inj htexts
    simp
  | cons node rest =>
    rw [expressionTexts] at htexts
    rw [areExpressions, Bool.and_eq_true] at h
    obtain ⟨text, htext, htexts⟩ := bind_eq_ok_iff.mp htexts
    obtain ⟨more, hmore, htexts⟩ := bind_eq_ok_iff.mp htexts
    obtain rfl := Except.ok.inj htexts
    exact List.forall_mem_cons.mpr ⟨newline_notMem_expressionText node h.1 htext,
      newline_notMem_expressionTexts rest h.2 hmore⟩

end

end Node

/-! ## From texts to lexemes -/

/-- Spaces and commas are read as the commas. -/
theorem spells_breaks {chars : List Char} (h : ∀ c ∈ chars, c = ' ' ∨ c = ',') :
    Spells chars (.replicate (chars.count ',') .comma) := by
  induction chars with
  | nil => exact .nil
  | cons c rest ih =>
    rw [List.forall_mem_cons] at h
    have hrest := ih h.2
    rcases h.1 with rfl | rfl
    · have hspace : Spells " ".toList [] := spells_fixed (by decide)
      simpa using hspace.append_of_getLast? hrest (by decide)
    · have hcomma : Spells [','] [.comma] := ⟨by decide, by decide +kernel⟩
      simpa [List.replicate_succ] using hcomma.append_of_getLast? hrest (by decide)

/-- A text, spaces and commas, and another text do not run into each other. -/
theorem Spells.append_breaks {a gap b : List Char} {l m : List Lexeme} (ha : Spells a l)
    (hgap : ∀ c ∈ gap, c = ' ' ∨ c = ',') (hne : gap ≠ []) (hb : Spells b m) :
    Spells (a ++ gap ++ b) (l ++ .replicate (gap.count ',') .comma ++ m) := by
  have hloose : ∀ c ∈ gap, isLoose c = true := by
    intro c hc
    rcases hgap c hc with rfl | rfl <;> decide
  have hstart := ha.append_of_head? (spells_breaks hgap) (by
    rw [List.head?_eq_some_head hne]
    exact hloose _ (List.head_mem hne))
  refine hstart.append_of_getLast? hb ?_
  rw [List.getLast?_append_of_ne_nil _ hne, List.getLast?_eq_some_getLast hne]
  exact hloose _ (List.getLast_mem hne)

theorem forall_mem_of_isBreak {gap : String} (h : isBreak gap = true) :
    gap.toList ≠ [] ∧ ∀ c ∈ gap.toList, c = ' ' ∨ c = ',' := by
  simpa [isBreak] using h

namespace WrittenArgument

theorem spells_text {arg : WrittenArgument} (h : arg.node.isExpression = true) :
    ∃ text, arg.text = .ok text ∧ '\n' ∉ text.toList ∧ Spells text.toList arg.lexemes := by
  obtain ⟨value, hvalue, hspells⟩ := spells_expressionText arg.node h
  have hline := newline_notMem_expressionText arg.node h hvalue
  obtain ⟨node, brackets, gap⟩ := arg
  cases brackets with
  | true => exact ⟨value, hvalue, hline, hspells⟩
  | false =>
    cases node with
    | call name args =>
      rw [isExpression, Bool.and_eq_true] at h
      obtain ⟨texts, htexts, -, hargs⟩ := spells_expressionTexts args h.2
      have hname := isName_of_mem_callNames h.1
      refine ⟨callText name texts, ?_, ?_, spells_callText hname hargs⟩
      · rw [text, if_neg Bool.false_ne_true, computedText, htexts]
        rfl
      · exact newline_notMem_callText hname (newline_notMem_expressionTexts args h.2 htexts)
    | _ => exact ⟨value, hvalue, hline, hspells⟩

/-- Arguments have a text. It is on one line, and it spells their lexemes. -/
theorem spells_joined {args : List WrittenArgument} (h : ∀ arg ∈ args, arg.isProper = true) :
    ∃ text, joined args = .ok text ∧ '\n' ∉ text.toList ∧
      Spells text.toList (joinedLexemes args) := by
  induction args with
  | nil => exact ⟨"", rfl, by decide, .nil⟩
  | cons arg rest ih =>
    rw [List.forall_mem_cons, isProper, Bool.and_eq_true] at h
    obtain ⟨⟨hnode, hgap⟩, hrest⟩ := h
    obtain ⟨text, htext, hline, hspells⟩ := spells_text hnode
    obtain ⟨more, hmore, hmoreLine, hmoreSpells⟩ := ih hrest
    refine ⟨_, by rw [joined, htext, hmore]; rfl, ?_⟩
    cases rest with
    | nil =>
      obtain rfl := Except.ok.inj hmore
      simpa [joinedLexemes] using ⟨hline, hspells⟩
    | cons next rest =>
      obtain ⟨hne, hbreak⟩ := forall_mem_of_isBreak hgap
      have hgapLine : '\n' ∉ arg.gap.toList := by
        intro hmem
        rcases hbreak _ hmem with hc | hc <;> cases hc
      simp only [List.isEmpty_cons, Bool.false_eq_true, if_false, String.toList_append]
      exact ⟨List.not_mem_append (List.not_mem_append hline hgapLine) hmoreLine,
        hspells.append_breaks hbreak hne hmoreSpells⟩

end WrittenArgument

/-- The text of a call is on one line, and it spells the lexemes of the call. -/
theorem spells_callSource (parens : Bool) {name blank text : String} {l : List Lexeme}
    (hname : isName name = true) (hblank : ∀ c ∈ blank.toList, c = ' ')
    (hempty : blank = "" → text = "") (hline : '\n' ∉ text.toList) (h : Spells text.toList l) :
    '\n' ∉ (callSource parens name blank text).toList ∧
      Spells (callSource parens name blank text).toList (callLexemes parens name l) := by
  cases parens with
  | true =>
    have htext : callSource true name blank text = callText name [text] := by
      simp [callSource, callText]
    rw [htext]
    exact ⟨newline_notMem_callText hname (by simpa using hline),
      spells_callText hname (by simpa using h)⟩
  | false =>
    have hspells := spells_name hname
    have hblankLine : '\n' ∉ blank.toList := fun hmem => absurd (hblank _ hmem) (by decide)
    simp only [callSource, Bool.false_eq_true, if_false, String.toList_append]
    refine ⟨List.not_mem_append (List.not_mem_append (newline_notMem_name hname) hblankLine) hline,
      ?_⟩
    by_cases hnone : blank = ""
    · obtain rfl := hempty hnone
      subst hnone
      simpa [callLexemes] using hspells.append_of_head? h rfl
    · have hcount : blank.toList.count ',' = 0 :=
        List.count_eq_zero.mpr fun hmem => absurd (hblank _ hmem) (by decide)
      have hall := hspells.append_breaks (fun c hc => .inl (hblank c hc)) (by simpa using hnone) h
      simpa [callLexemes, hcount] using hall

namespace Parser

/-! ## Calls that no line ends -/

/-- What ends the arguments of a call where lines do not count. -/
def endsArguments : List Lexeme → Bool
  | [] | .closeParen :: _ | .closeBracket :: _ => true
  | _ => false

theorem eventually_reads_argument {node : Node} (h : node.isExpression = true) :
    ∀ᶠ depth in atTop, Reads (argument depth) node.expressionLexemes node NoParen := by
  refine eventually_of_succ ?_
  filter_upwards [reads_value node h] with depth hvalue
  exact reads_argument h hvalue

theorem reads_computed {node : Node} (h : node.isExpression = true) :
    ∀ᶠ depth in atTop, Reads (argument depth) node.computedLexemes node NoParen := by
  cases node with
  | call name args =>
    rw [isExpression, Bool.and_eq_true] at h
    refine eventually_of_succ (eventually_of_succ ?_)
    filter_upwards [reads_arguments args h.2] with depth hargs
    have hcall := reads_call name (hargs none)
    rw [canonicalName_eq h.1] at hcall
    refine (hcall.mono fun _ _ => trivial).congr fun tokens rest htokens _ => ?_
    obtain ⟨⟨_, line, column⟩, tokens, rfl, rfl, htail⟩ := List.map_eq_cons_iff.mp htokens
    have hparen : startsWith [.openParen] tokens = true := by rw [startsWith_eq, htail]; rfl
    simp only [argument, functionAhead, contains_functionNames h.1, List.tail_cons, hparen,
      Bool.and_true, if_true]
  | _ => exact eventually_reads_argument h

/-- An argument is read, with its brackets or without. -/
theorem reads_writtenArgument {arg : WrittenArgument} (h : arg.node.isExpression = true) :
    ∀ᶠ depth in atTop, Reads (argument depth) arg.lexemes arg.node NoParen := by
  rw [WrittenArgument.lexemes]
  split
  · exact eventually_reads_argument h
  · exact reads_computed h

theorem exists_startsValue_lexemes {arg : WrittenArgument} (h : arg.node.isExpression = true) :
    ∃ lexeme rest, arg.lexemes = lexeme :: rest ∧ startsValue lexeme = true := by
  have hvalue := exists_startsValue h
  rw [WrittenArgument.lexemes]
  split
  · exact hvalue
  · cases hnode : arg.node with
    | call name args => exact ⟨_, _, rfl, rfl⟩
    | _ => rwa [hnode] at hvalue

theorem head?_joinedLexemes {args : List WrittenArgument}
    (h : ∀ arg ∈ args, arg.node.isExpression = true) {after : List Lexeme}
    (hafter : endsArguments after = true) :
    NoParen (WrittenArgument.joinedLexemes args ++ after) ∧
      (WrittenArgument.joinedLexemes args ++ after).head? ≠ some .comma := by
  cases args with
  | nil =>
    cases after with
    | nil => simp [WrittenArgument.joinedLexemes, NoParen]
    | cons lexeme after =>
      cases lexeme <;> simp_all [WrittenArgument.joinedLexemes, NoParen, endsArguments]
  | cons arg rest =>
    obtain ⟨lexeme, tail, hlexeme, hstarts⟩ := exists_startsValue_lexemes (h arg List.mem_cons_self)
    rw [WrittenArgument.joinedLexemes, hlexeme]
    cases lexeme <;> simp_all [NoParen, startsValue]

/-- The arguments of a call are read one after the other, whatever is between them. -/
theorem reads_joined {args : List WrittenArgument}
    (h : ∀ arg ∈ args, arg.node.isExpression = true) :
    ∀ᶠ depth in atTop, ∀ parens, ReadsMany (argumentAhead parens none)
      (do let arg ← argument depth; skipCommas; return arg) (WrittenArgument.joinedLexemes args)
      (args.map WrittenArgument.node) fun rest => endsArguments rest = true := by
  induction args with
  | nil =>
    refine .of_forall fun depth parens => .nil fun tokens htokens => ?_
    cases tokens with
    | nil => rfl
    | cons token tokens =>
      obtain ⟨lexeme, line, column⟩ := token
      cases lexeme <;> simp_all [argumentAhead, endsArguments]
  | cons arg rest ih =>
    rw [List.forall_mem_cons] at h
    filter_upwards [reads_writtenArgument h.1, ih h.2] with depth harg hrest parens
    obtain ⟨lexeme, tail, hlexeme, hstarts⟩ := exists_startsValue_lexemes h.1
    rw [hlexeme] at harg
    rw [WrittenArgument.joinedLexemes, hlexeme]
    refine .argument (Bool.or_true parens) hstarts harg ?_ (hrest parens)
      fun after hafter => head?_joinedLexemes h.2 hafter
    intro lexeme hmem
    split at hmem
    · cases hmem
    · exact List.eq_of_mem_replicate hmem

/-- **A call is read back where no line ends it**, with parentheses or without. -/
theorem reads_writtenCall (parens : Bool) (name : String) {args : List WrittenArgument}
    (h : ∀ arg ∈ args, arg.node.isExpression = true) :
    ∀ᶠ depth in atTop, Reads (call depth none)
      (callLexemes parens name (WrittenArgument.joinedLexemes args))
      (.call (canonicalName name) (args.map WrittenArgument.node))
      fun rest => endsArguments rest = true := by
  refine eventually_of_succ ?_
  filter_upwards [reads_joined h] with depth hargs
  cases parens with
  | true =>
    have hclosed := (hargs true).mono (G := fun rest => rest.head? = some .closeParen) <| by
      intro rest hrest
      cases rest with
      | nil => cases hrest
      | cons lexeme rest =>
        obtain rfl := Option.some.inj hrest
        rfl
    exact (reads_call name hclosed).mono fun _ _ => trivial
  | false =>
    have haccept : Reads (accept .openParen) [] false NoParen := by
      intro tokens rest htokens hrest
      obtain rfl := List.map_eq_nil_iff.mp htokens
      simp [accept, startsWith_openParen hrest]
    exact (reads_word name).cons <| haccept.bind (hargs false).many.bind_pure
      fun rest hrest => (head?_joinedLexemes h hrest).1

/-- A call in brackets as the one field of a new object. -/
theorem reads_spawnCall (parens : Bool) {name : String} {args : List WrittenArgument}
    (hname : functionNames.contains name = true)
    (h : ∀ arg ∈ args, arg.node.isExpression = true) :
    ∀ᶠ depth in atTop, Reads (statement depth)
      (.word "spawn" :: .word "id" :: .equals :: .openBracket ::
        (callLexemes parens name (WrittenArgument.joinedLexemes args) ++ [.closeBracket]))
      (some (.spawn (.call (canonicalName name) (args.map WrittenArgument.node))
        (.number (.int 0)) (.number (.int 0)) (.number (.int 0))))
      fun rest => isFresh rest = true := by
  refine eventually_of_succ (eventually_of_succ (eventually_of_succ ?_))
  filter_upwards [reads_writtenCall parens name h] with depth hcall
  have hvalue := reads_brackets hname hcall fun _ => rfl
  have hnil : ReadsMany (wordAhead ["id", "x", "y", "state"]) (field (value (depth + 2))) [] []
      fun rest => isFresh rest = true :=
    .nil fun tokens => wordAhead_of_isFresh (by decide)
  have hfields := hnil.field "id" rfl hvalue fun rest hrest => noParen_of_isFresh hrest
  rw [List.append_nil] at hfields
  have hspawn : Reads (spawn (value (depth + 2))) _ (.spawn _ _ _ _)
      fun rest => isFresh rest = true := hfields.many.bind_pure
  exact hspawn.map.of_step fun _ _ _ _ _ _ => rfl

/-! ## Calls on one line -/

theorem stopAlike_oneLine (line : ℕ) : StopAlike {line} id none (some line) := by
  intro parens tokens tokens' h
  cases h with
  | nil => rfl
  | @cons token token' rest rest' hhead _ =>
    obtain ⟨hline, hrelined⟩ := hhead
    have hline' : token'.line = line := hrelined.line.trans hline
    simp [argumentAhead, hrelined.lexeme, hline']

/-- On one line it does not matter whether the line ends a call. -/
theorem call_of_oneLine {depth line : ℕ} {tokens : List Token} {node : Node}
    (hline : ∀ token ∈ tokens, token.line = line)
    (h : call depth none tokens = .ok (node, [])) :
    call depth (some line) tokens = .ok (node, []) := by
  have hrelined : Relined {line} id tokens tokens :=
    List.forall₂_same.mpr fun token htoken => ⟨hline token htoken, rfl, rfl⟩
  rcases ((followsExpressions depth).call none (some line) (stopAlike_oneLine line) _ _
    hrelined).cases with ⟨node', left, left', hnone, hsome, hleft⟩ | ⟨cause, line', hnone, -⟩
  · obtain ⟨rfl, rfl⟩ := Prod.mk.inj (Except.ok.inj (h.symm.trans hnone))
    cases hleft
    exact hsome
  · cases h.symm.trans hnone

end Parser

/-- A statement that takes all tokens is the whole program. -/
theorem parseWithin_of_statement {depth : ℕ} {token : Token} {rest : List Token} {node : Node}
    (h : Parser.statement depth (token :: rest) = .ok (some node, [])) :
    parseWithin depth (token :: rest) = .ok [node] := by
  have hfirst : Parser.statementOrSkip depth (token :: rest) = .ok (some node, []) := by
    rw [Parser.statementOrSkip, Parser.bind_of_ok h]
    rfl
  have hnone : Parser.manyWithin (fun tokens => !tokens.isEmpty) (Parser.statementOrSkip depth)
      rest [] = .ok ([], []) := by
    cases rest with
    | nil => rfl
    | cons token rest => rfl
  have hall : Parser.statements depth (token :: rest) = .ok ([some node], []) := by
    simp only [Parser.statements, Parser.many, Parser.manyWithin, List.isEmpty_cons, Bool.not_false,
      if_true]
    rw [Parser.bind_of_ok hfirst, Parser.bind_of_ok hnone]
    rfl
  exact parseWithin_of_ok hall

/-! ## All notations -/

section Notations

variable {parens : Bool} {name source : String} {args : List WrittenArgument}
  (hname : Parser.functionNames.contains name = true)
  (hargs : ∀ arg ∈ args, arg.node.isExpression = true)
  (hsource : Spells source.toList (callLexemes parens name (WrittenArgument.joinedLexemes args)))
include hname hargs hsource

/-- A call on a line of its own is a statement. -/
theorem settles_compute (hline : '\n' ∉ source.toList) :
    Settles (parseSource · source)
      [.compute (.call (Parser.canonicalName name) (args.map WrittenArgument.node))] := by
  obtain ⟨tokens, htokens, hlexemes⟩ := hsource.tokenize
  obtain ⟨bound, hbound⟩ := eventually_atTop.mp (Parser.reads_writtenCall parens name hargs)
  have hlines : ∀ token ∈ tokens, token.line = 1 := by
    intro token htoken
    have hrange := line_mem_tokenize htokens htoken
    rw [List.count_eq_zero.mpr hline] at hrange
    omega
  obtain ⟨⟨_, line, column⟩, rest, rfl, rfl, -⟩ := List.map_eq_cons_iff.mp hlexemes
  obtain rfl : line = 1 := hlines _ List.mem_cons_self
  refine settles_parseSource htokens (bound + 1) fun depth hdepth => ?_
  -- The call is read as one that no line ends; the statement has it end with the first line.
  obtain ⟨depth, rfl⟩ := Nat.exists_eq_add_of_le' hdepth
  have hcall := hbound (depth + bound) (Nat.le_add_left _ _) _ [] hlexemes rfl
  rw [List.append_nil] at hcall
  refine parseWithin_of_statement ?_
  rw [← Nat.add_assoc, Parser.statement_call hname]
  exact Parser.map_of_ok (Parser.call_of_oneLine hlines hcall)

/-- A call in brackets is the id of a new object. -/
theorem settles_spawn :
    Settles (parseSource · ("spawn id=[" ++ source ++ "]"))
      [.spawn (.call (Parser.canonicalName name) (args.map WrittenArgument.node))
        (.number (.int 0)) (.number (.int 0)) (.number (.int 0))] := by
  have hopen : Spells "spawn id=[".toList [.word "spawn", .word "id", .equals, .openBracket] :=
    ⟨by decide, by decide +kernel⟩
  have hclose : Spells "]".toList [.closeBracket] := spells_fixed (by decide)
  have hwhole := hopen.append_of_getLast? (hsource.append_of_head? hclose (by decide)) (by decide)
  rw [← String.toList_append, ← String.toList_append, ← String.append_assoc] at hwhole
  obtain ⟨tokens, htokens, hlexemes⟩ := hwhole.tokenize
  obtain ⟨bound, hbound⟩ := eventually_atTop.mp (Parser.reads_spawnCall parens hname hargs)
  refine settles_parseSource htokens bound fun depth hdepth => ?_
  have hstatement := hbound depth hdepth tokens [] hlexemes rfl
  obtain ⟨token, rest, rfl, -⟩ := List.map_eq_cons_iff.mp hlexemes
  rw [List.append_nil] at hstatement
  exact parseWithin_of_statement hstatement

end Notations

/-- **All notations of a call are the same tree.** Take the name of a function and any number of
expressions of the grammar, each with its brackets or without, and with any spaces and commas
between two of them. They have a text. With the arguments in parentheses or after a blank, it is one
statement, the call by its canonical name; and in brackets it is the call as the id of a new
object. -/
theorem settles_callSource {name blank : String} {args : List WrittenArgument}
    (hname : Parser.functionNames.contains name = true)
    (hargs : ∀ arg ∈ args, arg.isProper = true)
    (hblank : ∀ c ∈ blank.toList, c = ' ') (hempty : blank = "" → args = []) :
    ∃ text, WrittenArgument.joined args = .ok text ∧ ∀ parens,
      Settles (parseSource · (callSource parens name blank text))
        [.compute (.call (Parser.canonicalName name) (args.map WrittenArgument.node))] ∧
      Settles (parseSource · ("spawn id=[" ++ callSource parens name blank text ++ "]"))
        [.spawn (.call (Parser.canonicalName name) (args.map WrittenArgument.node))
          (.number (.int 0)) (.number (.int 0)) (.number (.int 0))] := by
  obtain ⟨text, htext, htextLine, hspells⟩ := WrittenArgument.spells_joined hargs
  have hisName : isName name = true := by
    have hall : Parser.functionNames.all isName = true := by decide
    exact List.all_eq_true.mp hall name (List.contains_iff_mem.mp hname)
  have hnodes : ∀ arg ∈ args, arg.node.isExpression = true := by
    intro arg harg
    exact (Bool.and_eq_true_iff.mp (hargs arg harg)).1
  have hnone : blank = "" → text = "" := by
    intro hblank
    rw [hempty hblank] at htext
    exact (Except.ok.inj htext).symm
  refine ⟨text, htext, fun parens => ?_⟩
  obtain ⟨hline, hsource⟩ := spells_callSource parens hisName hblank hnone htextLine hspells
  exact ⟨settles_compute hname hnodes hsource hline, settles_spawn hname hnodes hsource⟩

/-- Arguments that are spelled like functions and like `ref`, with all kinds of breaks, and a call
without its brackets. -/
def mixedArguments : List WrittenArgument :=
  [⟨.label "add", true, " , ,"⟩, ⟨.call "sub" [], false, " "⟩, ⟨.label "ref", false, ","⟩,
    ⟨.read "ref", true, "  "⟩, ⟨.call "mul" [.number (.int 2), .call "add" []], true, " "⟩]

theorem mixedArguments_parsed :
    Settles (parseSource · "rand add , ,sub() ref,ref(ref)  [mul(2, [add()])]")
      [.compute (.call "random" (mixedArguments.map WrittenArgument.node))] ∧
    Settles (parseSource · "spawn id=[rand(add , ,sub() ref,ref(ref)  [mul(2, [add()])])]")
      [.spawn (.call "random" (mixedArguments.map WrittenArgument.node))
        (.number (.int 0)) (.number (.int 0)) (.number (.int 0))] := by
  obtain ⟨text, htext, hsettles⟩ := @settles_callSource "rand" " " mixedArguments (by decide)
    (by decide +kernel) (by simp) (by simp)
  have hjoined : WrittenArgument.joined mixedArguments =
      .ok "add , ,sub() ref,ref(ref)  [mul(2, [add()])]" := by decide +kernel
  obtain rfl := Except.ok.inj (hjoined.symm.trans htext)
  exact ⟨(hsettles false).1, (hsettles true).2⟩

end TileScript
