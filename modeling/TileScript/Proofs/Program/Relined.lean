import Mathlib.Data.List.Forall2
import TileScript.Proofs.Program.Located

/-!
# Programs on other lines

Of the places of tokens the parser asks only one thing: whether a token is on the line on which a
call started. So two lists of tokens with the same lexemes are parsed alike if any two tokens of the
one are on a common line whenever those of the other are. Either both have the same program, or both
are refused for the same cause at corresponding tokens.

The two parsers are followed side by side. What they have taken off is of no consequence any more;
what is ahead of them corresponds token by token, and so do the lines at which they refuse.

## Main definitions

* `Token.Relined`: a token with the same lexeme on a line that a map gives.
* `Parser.Relined`: lists of such tokens.
* `Parser.Follows`: a parser does on relined tokens what another does on the tokens.

## Main statements

* `Parser.stopAlike_line`: the one place where lines count.
* `Parser.follows_statement`: statements.
* `parseWithin_relined`: whole programs.
-/

namespace TileScript

/-- The tokens have the same lexeme, and the line of the second is the image of that of the first.
Their columns have nothing to do with each other. -/
structure Token.Relined (m : ℕ → ℕ) (token token' : Token) : Prop where
  lexeme : token'.lexeme = token.lexeme
  line : token'.line = m token.line

namespace Parser

variable {α β : Type} {lines : Set ℕ} {m : ℕ → ℕ} {tokens tokens' rest rest' : List Token}

/-- Lists of tokens with the same lexemes, the first on some of the lines `lines` and the second on
their images. -/
def Relined (lines : Set ℕ) (m : ℕ → ℕ) : List Token → List Token → Prop :=
  List.Forall₂ fun token token' => token.line ∈ lines ∧ token.Relined m token'

namespace Relined

theorem lexemes (h : Relined lines m tokens tokens') :
    tokens'.map Token.lexeme = tokens.map Token.lexeme := by
  induction h with
  | nil => rfl
  | cons hhead _ ih => simp [hhead.2.lexeme, ih]

theorem startsWith (h : Relined lines m tokens tokens') (lexemes : List Lexeme) :
    startsWith lexemes tokens' = startsWith lexemes tokens := by
  rw [startsWith_eq, startsWith_eq, h.lexemes]

theorem tail (h : Relined lines m tokens tokens') : Relined lines m tokens.tail tokens'.tail := by
  cases h with
  | nil => exact .nil
  | cons _ hrest => exact hrest

theorem dropCommas (h : Relined lines m tokens tokens') :
    Relined lines m (tokens.dropWhile (·.lexeme == .comma))
      (tokens'.dropWhile (·.lexeme == .comma)) := by
  induction h with
  | nil => exact .nil
  | @cons token token' rest rest' hhead hrest ih =>
    simp only [List.dropWhile_cons, hhead.2.lexeme]
    split
    · exact ih
    · exact .cons hhead hrest

theorem isEmpty (h : Relined lines m tokens tokens') : tokens'.isEmpty = tokens.isEmpty := by
  cases h with
  | nil => rfl
  | cons => rfl

theorem head?_line (h : Relined lines m tokens tokens') :
    tokens'.head?.map Token.line = (tokens.head?.map Token.line).map m := by
  cases h with
  | nil => rfl
  | cons hhead _ => simp [hhead.2.line]

theorem getLast?_line (h : Relined lines m tokens tokens') :
    tokens'.getLast?.map Token.line = (tokens.getLast?.map Token.line).map m := by
  induction h with
  | nil => rfl
  | @cons token token' rest rest' hhead hrest ih =>
    cases hrest with
    | nil => simp [hhead.2.line]
    | cons => simpa [List.getLast?_cons_cons] using ih

end Relined

/-! ## Parsers side by side -/

/-- Outcomes that correspond: the same result with corresponding tokens left, or refusals for the
same cause at corresponding lines. -/
inductive SameOutcome (lines : Set ℕ) (m : ℕ → ℕ) :
    Except Refusal (α × List Token) → Except Refusal (α × List Token) → Prop
  | ok {a : α} {left left' : List Token} :
      Relined lines m left left' → SameOutcome lines m (.ok (a, left)) (.ok (a, left'))
  | error (cause : GrammarFault) (line : Option ℕ) :
      SameOutcome lines m (.error ⟨cause, line⟩) (.error ⟨cause, line.map m⟩)

namespace SameOutcome

variable {x y x' y' : Except Refusal (α × List Token)}

theorem cases (h : SameOutcome lines m x y) :
    (∃ a left left', x = .ok (a, left) ∧ y = .ok (a, left') ∧ Relined lines m left left') ∨
      ∃ cause line, x = .error ⟨cause, line⟩ ∧ y = .error ⟨cause, line.map m⟩ := by
  cases h with
  | ok hleft => exact .inl ⟨_, _, _, rfl, rfl, hleft⟩
  | error cause line => exact .inr ⟨cause, line, rfl, rfl⟩

theorem ite {c : Prop} [Decidable c] (h : SameOutcome lines m x y)
    (h' : SameOutcome lines m x' y') :
    SameOutcome lines m (if c then x else x') (if c then y else y') := by
  split
  · exact h
  · exact h'

end SameOutcome

/-- The second parser does on relined tokens what the first does on the tokens. -/
def Follows (lines : Set ℕ) (m : ℕ → ℕ) (p q : Parser α) : Prop :=
  ∀ tokens tokens', Relined lines m tokens tokens' → SameOutcome lines m (p tokens) (q tokens')

namespace Follows

variable {p q p' q' : Parser α}

theorem pure (a : α) : Follows lines m (pure a) (pure a) := by
  intro tokens tokens' h
  exact .ok h

theorem refuse (cause : GrammarFault) :
    Follows lines m (Parser.refuse cause : Parser α) (Parser.refuse cause) := by
  intro tokens tokens' h
  rw [Parser.refuse, Parser.refuse, h.head?_line]
  exact .error cause _

theorem bind {k k' : α → Parser β} (hp : Follows lines m p q)
    (hk : ∀ a, Follows lines m (k a) (k' a)) : Follows lines m (p >>= k) (q >>= k') := by
  intro tokens tokens' h
  rcases (hp tokens tokens' h).cases with ⟨a, left, left', hx, hy, hleft⟩ | ⟨cause, line, hx, hy⟩
  · rw [bind_of_ok hx, bind_of_ok hy]
    exact hk a left left' hleft
  · rw [bind_of_error hx, bind_of_error hy]
    exact .error cause line

theorem map (hp : Follows lines m p q) (f : α → β) : Follows lines m (f <$> p) (f <$> q) :=
  hp.bind fun a => pure (f a)

theorem ite {c : Prop} [Decidable c] (h : Follows lines m p q) (h' : Follows lines m p' q') :
    Follows lines m (if c then p else p') (if c then q else q') := by
  split
  · exact h
  · exact h'

/-- A choice by a test on the tokens ahead that comes out alike. -/
theorem test {ahead ahead' : List Token → Bool}
    (hahead : ∀ tokens tokens', Relined lines m tokens tokens' → ahead' tokens' = ahead tokens)
    (h : Follows lines m p q) (h' : Follows lines m p' q') :
    Follows lines m (fun tokens => if ahead tokens then p tokens else p' tokens)
      (fun tokens => if ahead' tokens then q tokens else q' tokens) := by
  intro tokens tokens' hrelined
  simp only [hahead tokens tokens' hrelined]
  exact .ite (h _ _ hrelined) (h' _ _ hrelined)

/-- A loop that goes on for as long as the other does. -/
theorem many {more more' : List Token → Bool}
    (hmore : ∀ tokens tokens', Relined lines m tokens tokens' → more' tokens' = more tokens)
    (h : Follows lines m p q) : Follows lines m (many more p) (many more' q) := by
  -- The budgets are the tokens themselves, so they are used up together.
  have hwithin : ∀ budget budget' : List Token, budget'.length = budget.length →
      Follows lines m (manyWithin more p budget) (manyWithin more' q budget') := by
    intro budget
    induction budget with
    | nil =>
      intro budget' hlength
      obtain rfl := List.length_eq_zero_iff.mp hlength
      exact .pure []
    | cons token budget ih =>
      intro budget' hlength
      obtain ⟨token', budget', rfl⟩ := List.exists_cons_of_length_eq_add_one hlength
      have hrest := ih budget' (by simpa using hlength)
      exact .test hmore (h.bind fun a => hrest.bind fun as => .pure (a :: as)) (.pure [])
  intro tokens tokens' hrelined
  exact hwithin tokens tokens' (List.Forall₂.length_eq hrelined).symm tokens tokens' hrelined

/-- A parser that looks at the first token. -/
theorem of_cases (hnil : SameOutcome lines m (p []) (q []))
    (hcons : ∀ lexeme line column column' rest rest', line ∈ lines →
      Relined lines m (⟨lexeme, line, column⟩ :: rest) (⟨lexeme, m line, column'⟩ :: rest') →
      Relined lines m rest rest' →
      SameOutcome lines m (p (⟨lexeme, line, column⟩ :: rest))
        (q (⟨lexeme, m line, column'⟩ :: rest'))) : Follows lines m p q := by
  intro tokens tokens' h
  cases h with
  | nil => exact hnil
  | @cons token token' rest rest' hhead hrest =>
    obtain ⟨lexeme, line, column⟩ := token
    obtain ⟨lexeme', line', column'⟩ := token'
    obtain ⟨hline, (rfl : lexeme' = lexeme), (rfl : line' = m line)⟩ := hhead
    exact hcons lexeme' line column column' rest rest' hline (.cons ⟨hline, rfl, rfl⟩ hrest) hrest

end Follows

/-! ## Single tokens -/

theorem follows_number : Follows lines m number number := by
  refine .of_cases (.error _ none) ?_
  intro lexeme line column column' rest rest' _ h hrest
  cases lexeme with
  | number n => exact .ok hrest
  | _ => exact Follows.refuse _ _ _ h

theorem follows_word : Follows lines m word word := by
  refine .of_cases (.error _ none) ?_
  intro lexeme line column column' rest rest' _ h hrest
  cases lexeme with
  | word name => exact .ok hrest
  | _ => exact Follows.refuse _ _ _ h

/-- Taking off the first token, whatever it is. -/
theorem follows_tail (a : α) :
    Follows lines m (fun tokens => .ok (a, tokens.tail)) (fun tokens => .ok (a, tokens.tail)) := by
  intro tokens tokens' h
  exact .ok h.tail

theorem follows_keyword (name : String) : Follows lines m (keyword name) (keyword name) :=
  .test (fun _ _ h => h.startsWith _) (follows_tail ()) (.refuse _)

theorem follows_symbol (lexeme : Lexeme) : Follows lines m (symbol lexeme) (symbol lexeme) :=
  .test (fun _ _ h => h.startsWith _) (follows_tail ()) (.refuse _)

theorem follows_accept (lexeme : Lexeme) : Follows lines m (accept lexeme) (accept lexeme) :=
  .test (fun _ _ h => h.startsWith _) (follows_tail true) (.pure false)

theorem follows_skipCommas : Follows lines m skipCommas skipCommas := by
  intro tokens tokens' h
  exact .ok h.dropCommas

theorem follows_variableRead : Follows lines m variableRead variableRead :=
  (follows_keyword "ref").bind fun _ => (follows_symbol .openParen).bind fun _ =>
    follows_word.bind fun _ => (follows_symbol .closeParen).bind fun _ => .pure _

theorem wordAhead_relined (names : List String) (h : Relined lines m tokens tokens') :
    wordAhead names tokens' = wordAhead names tokens := by
  cases h with
  | nil => rfl
  | @cons token token' rest rest' hhead _ =>
    obtain ⟨lexeme, line, column⟩ := token
    obtain ⟨lexeme', line', column'⟩ := token'
    obtain ⟨-, rfl, -⟩ := hhead
    cases lexeme' <;> rfl

/-! ## Expressions -/

theorem functionAhead_relined (h : Relined lines m tokens tokens') :
    functionAhead tokens' = functionAhead tokens :=
  wordAhead_relined functionNames h

/-- Calls that end at the two lines, or at none, have their arguments end alike. -/
def StopAlike (lines : Set ℕ) (m : ℕ → ℕ) (stopLine stopLine' : Option ℕ) : Prop :=
  ∀ parens tokens tokens', Relined lines m tokens tokens' →
    argumentAhead parens stopLine' tokens' = argumentAhead parens stopLine tokens

/-- **The one place where lines count.** Whether a token is on the line where a call started comes
out alike if different lines stay different. -/
theorem stopAlike_line (hm : Set.InjOn m lines) {line : ℕ} (hline : line ∈ lines) :
    StopAlike lines m (some line) (some (m line)) := by
  intro parens tokens tokens' h
  cases h with
  | nil => rfl
  | @cons token token' rest rest' hhead _ =>
    obtain ⟨htoken, hrelined⟩ := hhead
    have hsame : (m line == m token.line) = (line == token.line) := by
      rw [Bool.eq_iff_iff, beq_iff_eq, beq_iff_eq]
      exact hm.eq_iff hline htoken
    simp [argumentAhead, hrelined.lexeme, hrelined.line, hsame]

theorem stopAlike_none : StopAlike lines m none none := by
  intro parens tokens tokens' h
  cases h with
  | nil => rfl
  | cons hhead _ => simp [argumentAhead, hhead.2.lexeme]

/-- The parsers of expressions, each side by side with itself. -/
structure FollowsExpressions (lines : Set ℕ) (m : ℕ → ℕ) (depth : ℕ) : Prop where
  value : Follows lines m (value depth) (value depth)
  bracketed : Follows lines m (bracketed depth) (bracketed depth)
  call : ∀ stopLine stopLine', StopAlike lines m stopLine stopLine' →
    Follows lines m (call depth stopLine) (call depth stopLine')
  argument : Follows lines m (argument depth) (argument depth)

theorem followsExpressions (depth : ℕ) : FollowsExpressions lines m depth := by
  induction depth with
  | zero => exact ⟨.refuse _, .refuse _, fun _ _ _ => .refuse _, .refuse _⟩
  | succ depth ih =>
    have hclosed : Follows lines m
        (do let expr ← Parser.bracketed depth; symbol .closeBracket; return expr)
        (do let expr ← Parser.bracketed depth; symbol .closeBracket; return expr) :=
      ih.bracketed.bind fun expr => (follows_symbol .closeBracket).bind fun _ => .pure expr
    refine ⟨?_, ?_, ?_, ?_⟩
    · refine .of_cases (.error _ none) ?_
      intro lexeme line column column' rest rest' _ h hrest
      cases lexeme with
      | openBracket => exact hclosed _ _ hrest
      | number n => exact .ok hrest
      | word name =>
        simp only [Parser.value, readAhead, h.startsWith]
        exact .ite (follows_variableRead _ _ h) (.ok hrest)
      | _ => exact Follows.refuse _ _ _ h
    · refine .of_cases (.error _ none) ?_
      intro lexeme line column column' rest rest' _ h hrest
      cases lexeme with
      | openBracket => exact hclosed _ _ hrest
      | number n => exact .ok hrest
      | word name =>
        simp only [Parser.bracketed, readAhead, h.startsWith]
        exact .ite (ih.call none none stopAlike_none _ _ h)
          (.ite (follows_variableRead _ _ h) (.ok hrest))
      | _ => exact Follows.refuse _ _ _ h
    · intro stopLine stopLine' hstop
      refine follows_word.bind fun name => (follows_accept .openParen).bind fun parens => ?_
      refine Follows.bind (.many (hstop parens) ?_) ?_
      · exact ih.argument.bind fun arg => follows_skipCommas.bind fun _ => .pure arg
      · intro args
        exact .ite ((follows_symbol .closeParen).bind fun _ => .pure _) (.pure _)
    · intro tokens tokens' h
      simp only [Parser.argument, functionAhead_relined h, h.tail.startsWith]
      exact .ite (ih.call none none stopAlike_none _ _ h) (ih.value _ _ h)

/-! ## Statements -/

theorem follows_canvas : Follows lines m canvas canvas :=
  follows_number.bind fun _ => follows_number.bind fun _ => .pure _

theorem follows_despawn : Follows lines m despawn despawn :=
  (follows_keyword "id").bind fun _ => (follows_symbol .equals).bind fun _ =>
    follows_number.bind fun _ => .pure _

theorem follows_wait : Follows lines m wait wait := by
  refine .of_cases (.error _ none) ?_
  intro lexeme line column column' rest rest' _ h hrest
  cases lexeme with
  | number n => exact .ok hrest
  | _ => exact Follows.refuse _ _ _ h

theorem follows_loopCount : Follows lines m loopCount loopCount := by
  refine .of_cases (.ok .nil) ?_
  intro lexeme line column column' rest rest' _ h hrest
  have hforever : Follows lines m
      (fun tokens => if startsWith [.word "forever"] tokens then
        .ok (Scalar.text "forever", tokens.tail) else .ok (Scalar.null, tokens))
      (fun tokens => if startsWith [.word "forever"] tokens then
        .ok (Scalar.text "forever", tokens.tail) else .ok (Scalar.null, tokens)) :=
    .test (fun _ _ h => h.startsWith _) (follows_tail _) (.pure _)
  cases lexeme with
  | number n => exact .ok hrest
  | _ => exact hforever _ _ h

theorem follows_relation : Follows lines m relation relation := by
  refine .of_cases (.error _ none) ?_
  intro lexeme line column column' rest rest' _ h hrest
  simp only [relation, h.startsWith]
  refine .ite (.ok h) ?_
  cases lexeme with
  | word name => exact .ite (.ok hrest) (Follows.refuse _ _ _ h)
  | _ => exact Follows.refuse _ _ _ h

section Parts

variable {p : Parser Node} (hp : Follows lines m p p)
include hp

theorem follows_define : Follows lines m (define p) (define p) :=
  (follows_symbol .equals).bind fun _ => follows_word.bind fun _ =>
    (follows_symbol .openParen).bind fun _ => hp.bind fun _ =>
    (follows_symbol .closeParen).bind fun _ => .pure _

theorem follows_spawn : Follows lines m (spawn p) (spawn p) := by
  refine Follows.bind (.many (fun _ _ h => wordAhead_relined _ h) ?_) fun fields => .pure _
  exact follows_word.bind fun name => (follows_symbol .equals).bind fun _ =>
    hp.bind fun node => .pure _

theorem follows_movePart : Follows lines m (movePart p) (movePart p) := by
  have hfield : ∀ part : Node → MovePart, Follows lines m
      (do symbol .equals; return part (← p)) (do symbol .equals; return part (← p)) :=
    fun part => (follows_symbol .equals).bind fun _ => hp.bind fun node => .pure _
  refine follows_word.bind fun name => .ite (hfield .id) <| .ite (hfield .x) <|
    .ite (hfield .y) <| .ite ?_ ?_
  · exact (follows_accept .equals).bind fun _ => hp.bind fun node => .pure _
  · cases directions.lookup name with
    | some direction => exact .pure _
    | none => exact .pure _

theorem follows_move : Follows lines m (move p) (move p) :=
  Follows.bind (.many (fun _ _ h => wordAhead_relined _ h) (follows_movePart hp)) fun _ => .pure _

theorem follows_assign : Follows lines m (assign p) (assign p) := by
  refine follows_word.bind fun key => (follows_keyword "to").bind fun _ =>
    Follows.bind ?_ fun node => .pure _
  refine .test (fun _ _ h => h.startsWith _) follows_variableRead ?_
  refine .test (fun _ _ h => h.startsWith _) ?_ (.refuse _)
  intro tokens tokens' h
  exact hp _ _ (List.forall₂_drop 2 h)

variable {b : Parser (List Node)} (hb : Follows lines m b b)

omit hp in
include hb in
theorem follows_loop : Follows lines m (loop b) (loop b) :=
  follows_number.bind fun _ => follows_loopCount.bind fun _ => hb.bind fun _ => .pure _

omit hp in
include hb in
theorem follows_labelledBlocks :
    Follows lines m (many blockLabelAhead (labelledBlock b))
      (many blockLabelAhead (labelledBlock b)) := by
  refine .many ?_ ?_
  · intro tokens tokens' h
    simp only [blockLabelAhead, h.startsWith]
  · exact (follows_symbol (.dots 2)).bind fun _ => follows_word.bind fun label =>
      hb.bind fun body => .pure _

include hb in
theorem follows_branch : Follows lines m (branch p b) (branch p b) := by
  refine (follows_keyword "id").bind fun _ => (follows_symbol .equals).bind fun _ =>
    hp.bind fun left => (follows_keyword "is").bind fun _ => follows_relation.bind fun relation =>
    .ite ?_ ?_
  · exact follows_word.bind fun key => Follows.bind (.pure _) fun pair =>
      (follows_labelledBlocks hb).bind fun blocks => .pure _
  · exact (follows_keyword "id").bind fun _ => (follows_symbol .equals).bind fun _ =>
      hp.bind fun right => Follows.bind (.pure _) fun pair =>
      (follows_labelledBlocks hb).bind fun blocks => .pure _

end Parts

theorem follows_block {p : Parser (Option Node)} (hp : Follows lines m p p) :
    Follows lines m (block p) (block p) := by
  refine Follows.bind (.many (fun _ _ h => h.startsWith _) ?_) fun nodes => .pure _
  intro tokens tokens' h
  exact hp _ _ h.tail

/-- **Statements on other lines.** A call remembers the line on which its name stands; every other
statement is read off the lexemes. -/
theorem follows_statement (hm : Set.InjOn m lines) (depth : ℕ) :
    Follows lines m (statement depth) (statement depth) := by
  induction depth with
  | zero => exact .refuse _
  | succ depth ih =>
    have hvalue := (followsExpressions depth : FollowsExpressions lines m depth).value
    have hblock := follows_block ih
    refine .of_cases (.ok .nil) ?_
    intro lexeme line column column' rest rest' hline h hrest
    cases lexeme with
    | word name =>
      have hcall := (followsExpressions depth).call _ _ (stopAlike_line hm hline)
      simp only [statement, hrest.startsWith]
      refine .ite (follows_canvas.map some _ _ hrest) <|
        .ite ((follows_define hvalue).map some _ _ hrest) <|
        .ite (follows_variableRead.map (some ∘ Node.compute) _ _ h) <|
        .ite ((follows_spawn hvalue).map some _ _ hrest) <|
        .ite (follows_despawn.map some _ _ hrest) <|
        .ite ((follows_move hvalue).map some _ _ hrest) <|
        .ite (hcall.map (some ∘ Node.compute) _ _ h) <|
        .ite (follows_wait.map some _ _ hrest) <|
        .ite ((follows_loop hblock).map some _ _ hrest) <|
        .ite ((follows_branch hvalue hblock).map some _ _ hrest) <|
        .ite ((follows_assign hvalue).map some _ _ hrest) (.ok h)
    | _ => exact .ok h

theorem follows_statements (hm : Set.InjOn m lines) (depth : ℕ) :
    Follows lines m (statements depth) (statements depth) := by
  refine .many (fun _ _ h => by rw [h.isEmpty]) ((follows_statement hm depth).bind ?_)
  intro node?
  cases node? with
  | some node => exact .pure _
  | none => exact follows_tail none

end Parser

/-! ## Programs -/

/-- **Lines count only as far as they are shared.** Take two lists of tokens with the same lexemes,
where the lines of the second are the images of those of the first under a map that keeps
different lines apart, as an increasing one does. Then they are the same program, or both are
refused for the same cause, the second at the image of the line of the first. A refusal is a fault
of the grammar, and its message shows the cause and the line. -/
theorem parseWithin_relined {m : ℕ → ℕ} {tokens tokens' : List Token}
    (h : List.Forall₂ (Token.Relined m) tokens tokens')
    (hm : Set.InjOn m {line | ∃ token ∈ tokens, token.line = line}) (depth : ℕ) :
    (∃ program, parseWithin depth tokens = .ok program ∧
      parseWithin depth tokens' = .ok program) ∨
    ∃ cause line, parseWithin depth tokens = .error (.grammar cause line) ∧
      parseWithin depth tokens' = .error (.grammar cause (m line)) ∧
      ∀ n, (Fault.grammar cause n).kind.name = "SyntaxError" ∧
        (n < Scalar.writtenBound → (Fault.grammar cause n).message =
          cause.message ++ " (at line " ++ toString n ++ ")") := by
  have hrelined : Parser.Relined {line | ∃ token ∈ tokens, token.line = line} m tokens tokens' := by
    refine List.forall₂_iff_get.mpr ⟨h.length_eq, fun i hi hi' => ⟨?_, h.get hi hi'⟩⟩
    exact ⟨_, List.get_mem tokens ⟨i, hi⟩, rfl⟩
  rcases (Parser.follows_statements hm depth tokens tokens' hrelined).cases with
    ⟨nodes, left, left', hall, hall', -⟩ | ⟨cause, line?, hrefused, hrefused'⟩
  · exact .inl ⟨_, parseWithin_of_ok hall, parseWithin_of_ok hall'⟩
  · have hmessage : ∀ n, (Fault.grammar cause n).kind.name = "SyntaxError" ∧
        (n < Scalar.writtenBound → (Fault.grammar cause n).message =
          cause.message ++ " (at line " ++ toString n ++ ")") :=
      fun n => ⟨rfl, message_grammar cause⟩
    refine .inr ⟨cause, _, parseWithin_of_error hrefused, ?_, hmessage⟩
    rw [parseWithin_of_error hrefused', hrelined.getLast?_line]
    -- Without a token at the place of the refusal it is the last token that gives the line.
    cases line? with
    | some line => rfl
    | none =>
      cases hlast : tokens.getLast? with
      | some token => rfl
      | none =>
        obtain rfl := List.getLast?_eq_none_iff.mp hlast
        cases hrefused

/-- Two calls, of which the second starts on a new line, and a pause without a duration. -/
def callTokens : List Token :=
  [⟨.word "add", 1, 1⟩, ⟨.number 1, 1, 5⟩, ⟨.word "sub", 1, 7⟩, ⟨.word "mul", 2, 1⟩,
    ⟨.word "wait", 3, 1⟩, ⟨.closeParen, 4, 1⟩]

/-- The tokens of `callTokens`, ten times as far down and all in one column. -/
def stretchedTokens : List Token :=
  callTokens.map fun token => ⟨token.lexeme, 10 * token.line, 1⟩

theorem stretchedTokens_refused :
    parse callTokens = .error (.grammar .expectedDuration 4) ∧
      parse stretchedTokens = .error (.grammar .expectedDuration 40) := by
  have hrefused : parse callTokens = .error (.grammar .expectedDuration 4) := rfl
  have hrelined : List.Forall₂ (Token.Relined (10 * ·)) callTokens stretchedTokens := by
    rw [stretchedTokens, List.forall₂_map_right_iff]
    exact List.forall₂_same.mpr fun token _ => ⟨rfl, rfl⟩
  have hm : StrictMono (10 * · : ℕ → ℕ) := fun a b hab => by
    simp only
    omega
  refine ⟨hrefused, ?_⟩
  rcases parseWithin_relined hrelined hm.injective.injOn nestingLimit with
    ⟨program, hparsed, -⟩ | ⟨cause, line, hparse, hparse', -⟩
  · cases hrefused.symm.trans hparsed
  · obtain ⟨rfl, rfl⟩ : GrammarFault.expectedDuration = cause ∧ 4 = line := by
      simpa using hrefused.symm.trans hparse
    exact hparse'

end TileScript
