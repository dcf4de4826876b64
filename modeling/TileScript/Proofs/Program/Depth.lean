import Mathlib.Data.Nat.Notation
import TileScript.Program.Parser

/-!
# The bound on nesting

A larger bound on nesting changes nothing but the refusals that are due to the bound: with each
bound the outcome is the one of all larger bounds, or the refusal of what is nested too deeply.

## Main definitions

* `Parser.Approximates`: an outcome is another one, unless it is a refusal that is due to the bound.

## Main statements

* `Parser.approximates_statement`: statements with one bound and with the next.
* `parseWithin_of_le`: programs with two bounds.
-/

namespace TileScript

namespace Parser

variable {α β : Type}

/-- The first outcome is the second, or it is the refusal of what is nested too deeply. -/
def Approximates (x y : Except Refusal (α × List Token)) : Prop :=
  (∃ line, x = .error ⟨.tooDeep, line⟩) ∨ x = y

namespace Approximates

variable {x y x' y' : Except Refusal (α × List Token)} {p q : Parser α} {tokens : List Token}

theorem refl : Approximates x x := .inr rfl

theorem tooDeep : Approximates (refuse .tooDeep tokens) y := .inl ⟨_, rfl⟩

theorem ite {c : Prop} [Decidable c] (h : Approximates x y) (h' : Approximates x' y') :
    Approximates (if c then x else x') (if c then y else y') := by
  split
  · exact h
  · exact h'

theorem ite_apply {c : Prop} [Decidable c] {p' q' : Parser α}
    (h : Approximates (p tokens) (q tokens)) (h' : Approximates (p' tokens) (q' tokens)) :
    Approximates ((if c then p else p') tokens) ((if c then q else q') tokens) := by
  split
  · exact h
  · exact h'

theorem bind {k m : α → Parser β} (hp : Approximates (p tokens) (q tokens))
    (hk : ∀ a rest, Approximates (k a rest) (m a rest)) :
    Approximates ((p >>= k) tokens) ((q >>= m) tokens) := by
  change Approximates (p tokens >>= fun result => k result.1 result.2)
    (q tokens >>= fun result => m result.1 result.2)
  rcases hp with ⟨line, hp⟩ | hp
  · rw [hp]
    exact .inl ⟨line, rfl⟩
  · rw [hp]
    cases q tokens with
    | error refusal => exact refl
    | ok result => exact hk result.1 result.2

theorem map {f : α → β} (hp : Approximates (p tokens) (q tokens)) :
    Approximates ((f <$> p) tokens) ((f <$> q) tokens) :=
  bind (k := fun a => pure (f a)) (m := fun a => pure (f a)) hp fun _ _ => refl

theorem many {more : List Token → Bool} {item item' : Parser α}
    (h : ∀ tokens, Approximates (item tokens) (item' tokens)) :
    Approximates (many more item tokens) (many more item' tokens) := by
  have hwithin : ∀ budget tokens,
      Approximates (manyWithin more item budget tokens) (manyWithin more item' budget tokens) := by
    intro budget
    induction budget with
    | nil => exact fun tokens => refl
    | cons token budget ih =>
      intro tokens
      exact .ite ((h tokens).bind fun a rest => (ih rest).bind fun as rest => refl) refl
  exact hwithin tokens tokens

end Approximates

/-- The parsers of expressions with one bound and with the next. -/
structure ApproximatesExpressions (depth : ℕ) : Prop where
  value : ∀ tokens, Approximates (value depth tokens) (value (depth + 1) tokens)
  bracketed : ∀ tokens, Approximates (bracketed depth tokens) (bracketed (depth + 1) tokens)
  call : ∀ stopLine tokens,
    Approximates (call depth stopLine tokens) (call (depth + 1) stopLine tokens)
  argument : ∀ tokens, Approximates (argument depth tokens) (argument (depth + 1) tokens)

theorem approximatesExpressions (depth : ℕ) : ApproximatesExpressions depth := by
  induction depth with
  | zero => exact ⟨fun _ => .tooDeep, fun _ => .tooDeep, fun _ _ => .tooDeep, fun _ => .tooDeep⟩
  | succ depth ih =>
    have hclosed : ∀ tokens, Approximates
        ((do let expr ← bracketed depth; symbol .closeBracket; return expr) tokens)
        ((do let expr ← bracketed (depth + 1); symbol .closeBracket; return expr) tokens) :=
      fun tokens => (ih.bracketed tokens).bind fun _ _ => .refl
    refine ⟨fun tokens => ?_, fun tokens => ?_, fun stopLine tokens => ?_, fun tokens => ?_⟩
    · cases tokens with
      | nil => exact .refl
      | cons token rest =>
        obtain ⟨lexeme, line, column⟩ := token
        cases lexeme with
        | openBracket => exact hclosed rest
        | _ => exact .refl
    · cases tokens with
      | nil => exact .refl
      | cons token rest =>
        obtain ⟨lexeme, line, column⟩ := token
        cases lexeme with
        | openBracket => exact hclosed rest
        | word name =>
          simp only [bracketed]
          exact .ite (ih.call none _) .refl
        | _ => exact .refl
    · exact Approximates.refl.bind fun name rest => Approximates.refl.bind fun parens rest =>
        Approximates.bind (.many fun tokens => (ih.argument tokens).bind fun _ _ => .refl)
          fun _ _ => .refl
    · simp only [argument]
      exact .ite (ih.call none tokens) (ih.value tokens)

/-! ## Statements -/

section Statements

variable {p q : Parser Node} (h : ∀ tokens, Approximates (p tokens) (q tokens))
  (tokens : List Token)
include h

theorem approximates_define : Approximates (define p tokens) (define q tokens) :=
  Approximates.refl.bind fun _ _ => Approximates.refl.bind fun _ _ =>
    Approximates.refl.bind fun _ rest =>
    (h rest).bind fun _ _ => .refl

theorem approximates_spawn : Approximates (spawn p tokens) (spawn q tokens) :=
  Approximates.bind (.many fun _ => Approximates.refl.bind fun _ _ => Approximates.refl.bind
    fun _ rest => (h rest).bind fun _ _ => .refl) fun _ _ => .refl

theorem approximates_assign : Approximates (assign p tokens) (assign q tokens) :=
  Approximates.refl.bind fun _ _ => Approximates.refl.bind fun _ rest =>
    Approximates.bind (.ite .refl (.ite (h (rest.drop 2)) .refl)) fun _ _ => .refl

theorem approximates_movePart : Approximates (movePart p tokens) (movePart q tokens) := by
  have hfield : ∀ (part : Node → MovePart) (tokens : List Token),
      Approximates ((do symbol .equals; return part (← p)) tokens)
        ((do symbol .equals; return part (← q)) tokens) :=
    fun part _ => Approximates.refl.bind fun _ rest => (h rest).bind fun _ _ => .refl
  refine Approximates.refl.bind fun name rest => .ite_apply (hfield .id rest) <|
    .ite_apply (hfield .x rest) <| .ite_apply (hfield .y rest) <| .ite_apply ?_ .refl
  exact Approximates.refl.bind fun _ rest => (h rest).bind fun _ _ => .refl

theorem approximates_move : Approximates (move p tokens) (move q tokens) :=
  Approximates.bind (.many (approximates_movePart h)) fun _ _ => .refl

variable {b c : Parser (List Node)} (hblock : ∀ tokens, Approximates (b tokens) (c tokens))

omit h in
include hblock in
theorem approximates_loop : Approximates (loop b tokens) (loop c tokens) :=
  Approximates.refl.bind fun _ _ => Approximates.refl.bind fun _ rest =>
    (hblock rest).bind fun _ _ => .refl

include hblock in
theorem approximates_branch : Approximates (branch p b tokens) (branch q c tokens) := by
  refine Approximates.refl.bind fun _ _ => Approximates.refl.bind fun _ rest =>
    (h rest).bind fun left rest => Approximates.refl.bind fun _ rest =>
    Approximates.refl.bind fun relation rest => ?_
  have hlabels : ∀ (right : Node) (key : Scalar) (tokens : List Token),
      Approximates
        ((do
          let blocks ← many blockLabelAhead (labelledBlock b)
          return Node.branch left relation right key (lastBlock true blocks)
            (lastBlock false blocks)) tokens)
        ((do
          let blocks ← many blockLabelAhead (labelledBlock c)
          return Node.branch left relation right key (lastBlock true blocks)
            (lastBlock false blocks)) tokens) :=
    fun right key tokens => Approximates.bind (.many fun _ => Approximates.refl.bind fun _ _ =>
      Approximates.refl.bind fun _ rest => (hblock rest).bind fun _ _ => .refl) fun _ _ => .refl
  refine .ite_apply ?_ ?_
  · exact Approximates.refl.bind fun key _ => Approximates.refl.bind fun pair rest =>
      hlabels pair.1 pair.2 rest
  · exact Approximates.refl.bind fun _ _ => Approximates.refl.bind fun _ rest =>
      (h rest).bind fun right _ => Approximates.refl.bind fun pair rest =>
        hlabels pair.1 pair.2 rest

end Statements

theorem approximates_block {p q : Parser (Option Node)}
    (h : ∀ tokens, Approximates (p tokens) (q tokens)) (tokens : List Token) :
    Approximates (block p tokens) (block q tokens) :=
  Approximates.bind (.many fun tokens => h tokens.tail) fun _ _ => .refl

theorem approximates_statement (depth : ℕ) (tokens : List Token) :
    Approximates (statement depth tokens) (statement (depth + 1) tokens) := by
  induction depth generalizing tokens with
  | zero => exact .tooDeep
  | succ depth ih =>
    have hvalue := (approximatesExpressions depth).value
    have hblock := approximates_block ih
    cases tokens with
    | nil => exact .refl
    | cons token rest =>
      obtain ⟨lexeme, line, column⟩ := token
      cases lexeme with
      | word name =>
        simp only [statement]
        refine .ite .refl (.ite ?_ (.ite .refl (.ite ?_ (.ite .refl (.ite ?_ (.ite ?_ (.ite .refl
          (.ite ?_ (.ite ?_ (.ite ?_ .refl))))))))))
        · exact (approximates_define hvalue rest).map
        · exact (approximates_spawn hvalue rest).map
        · exact (approximates_move hvalue rest).map
        · exact ((approximatesExpressions depth).call (some line) _).map
        · exact (approximates_loop rest hblock).map
        · exact (approximates_branch hvalue rest hblock).map
        · exact (approximates_assign hvalue rest).map
      | _ => exact .refl

end Parser

/-- **A larger bound on nesting changes nothing** but the refusals that are due to the bound. -/
theorem parseWithin_succ (depth : ℕ) (tokens : List Token) :
    (∃ line, parseWithin depth tokens = .error (.grammar .tooDeep line)) ∨
      parseWithin depth tokens = parseWithin (depth + 1) tokens := by
  have hitem : ∀ tokens, Parser.Approximates (Parser.statementOrSkip depth tokens)
      (Parser.statementOrSkip (depth + 1) tokens) := fun tokens =>
    (Parser.approximates_statement depth tokens).bind fun _ _ => .refl
  have hmany : Parser.Approximates
      (Parser.many (fun tokens => !tokens.isEmpty) (Parser.statementOrSkip depth) tokens)
      (Parser.many (fun tokens => !tokens.isEmpty) (Parser.statementOrSkip (depth + 1)) tokens) :=
    .many hitem
  unfold parseWithin
  rcases hmany with ⟨line, hmany⟩ | hmany
  · rw [hmany]
    exact .inl ⟨_, rfl⟩
  · rw [hmany]
    exact .inr rfl

theorem parseWithin_of_le {depth depth' : ℕ} (h : depth ≤ depth') (tokens : List Token) :
    (∃ line, parseWithin depth tokens = .error (.grammar .tooDeep line)) ∨
      parseWithin depth tokens = parseWithin depth' tokens := by
  induction h with
  | refl => exact .inr rfl
  | step h ih =>
    rcases ih with hdeep | hsame
    · exact .inl hdeep
    · rw [hsame]
      exact parseWithin_succ _ tokens

end TileScript
