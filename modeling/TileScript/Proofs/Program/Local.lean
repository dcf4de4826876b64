import Mathlib.Data.List.Infix
import TileScript.Proofs.Program.Parsed

/-!
# Parsers that look two tokens ahead

A parser takes tokens off the front and looks at most two tokens ahead of them. So what it does with
a list of tokens it does with every other list that goes on in the same way for two tokens: it takes
the same tokens off, or it stops at the same token with the same refusal. And it stops at a token
only on account of what is there: with the tokens before it alone, it comes to the end of them.

For this to be kept by sequences, the tokens have to be such that they may be cut off at any place.
A parser that finds fewer tokens ahead than it looks for goes on as it does where other tokens are;
and tokens that it looked for and found it takes off, all of them, before it refuses anything.

Loops are repeated while a test holds, at most once for each token. That they stop for no other
reason than the test is a consequence: each repetition takes a token off.

## Main definitions

* `Parser.SameAhead`: lists that are the same for two tokens, or one of which ends before.
* `Parser.Takes`, `Parser.Stops`: a parser takes tokens off, or stops, whatever comes later.
* `Parser.Local`: a parser does the one or the other.

## Main statements

* `Parser.Local.bind`: sequences.
* `Parser.many_eq`: a loop goes on until its test fails.
* `Parser.Local.many`: loops.
-/

namespace TileScript.Parser

variable {α β : Type} {p q : Parser α} {tokens tokens' left left' : List Token}

/-! ## The tokens ahead -/

/-- For two tokens the second list is the same as the first, unless it ends before. -/
def SameAhead (tokens tokens' : List Token) : Prop := tokens'.take 2 <+: tokens.take 2

namespace SameAhead

theorem of_take (h : tokens'.take 2 = tokens.take 2) : SameAhead tokens tokens' := by
  rw [SameAhead, h]

theorem of_isPrefix (h : tokens' <+: tokens) : SameAhead tokens tokens' := List.IsPrefix.take h 2

theorem nil (tokens : List Token) : SameAhead tokens [] := of_isPrefix List.nil_prefix

theorem append (h : SameAhead left left') (read : List Token) :
    SameAhead (read ++ left) (read ++ left') := by
  have hleft := List.IsPrefix.take h (2 - read.length)
  rw [List.take_take, List.take_take, Nat.min_eq_left (Nat.sub_le _ _)] at hleft
  rw [SameAhead, List.take_append, List.take_append]
  exact (List.prefix_append_right_inj _).mpr hleft

/-- The first tokens are the same if there are any. -/
theorem head {token : Token} (h : SameAhead tokens (token :: tokens')) :
    ∃ rest, tokens = token :: rest := by
  cases tokens with
  | nil => simp [SameAhead] at h
  | cons first rest =>
    simp only [SameAhead, List.take_succ_cons, List.cons_prefix_cons] at h
    exact ⟨rest, by rw [h.1]⟩

/-- Lexemes that are ahead in the second list are ahead in the first. -/
theorem startsWith {lexemes : List Lexeme} (h : SameAhead tokens tokens')
    (hlength : lexemes.length ≤ 2) (hahead : Parser.startsWith lexemes tokens' = true) :
    Parser.startsWith lexemes tokens = true := by
  rw [startsWith_eq, List.isPrefixOf_iff_prefix] at hahead ⊢
  have hfirst : lexemes <+: (tokens'.take 2).map Token.lexeme := by
    rw [← List.take_of_length_le hlength, List.map_take]
    exact hahead.take 2
  have hmap : (tokens'.take 2).map Token.lexeme <+: (tokens.take 2).map Token.lexeme :=
    h.map Token.lexeme
  exact hfirst.trans (hmap.trans ((List.take_prefix 2 tokens).map Token.lexeme))

theorem startsWith_eq_false {lexemes : List Lexeme} (h : SameAhead tokens tokens')
    (hlength : lexemes.length ≤ 2) (hahead : Parser.startsWith lexemes tokens = false) :
    Parser.startsWith lexemes tokens' = false := by
  rw [Bool.eq_false_iff] at hahead ⊢
  exact fun h' => hahead (h.startsWith hlength h')

end SameAhead

/-! ## Taking tokens off, and stopping -/

/-- The parser takes the tokens `read` off and gives `a`, whatever comes after two more tokens, and
also if the tokens end before that. -/
structure Takes (p : Parser α) (read left : List Token) (a : α) : Prop where
  eq_ok : ∀ left', SameAhead left left' → p (read ++ left') = .ok (a, left')

/-- The outcome is a result with no token left, or a refusal at the end of the tokens. -/
def RunsOut : Except Refusal (α × List Token) → Prop
  | .ok (_, left) => left = []
  | .error refusal => refusal.line = none

/-- The parser stops between the tokens `read` and the tokens `rest`. It refuses the first of these,
whatever comes after two tokens; and with the tokens `read` alone it comes to the end of them. -/
structure Stops (p : Parser α) (read rest : List Token) (cause : GrammarFault) : Prop where
  eq_error : ∀ rest', rest'.take 2 = rest.take 2 →
    p (read ++ rest') = .error ⟨cause, rest.head?.map Token.line⟩
  runsOut : RunsOut (p read)

/-- The parser takes some of the tokens off, or it stops at one of them or at their end. -/
inductive Local (p : Parser α) (tokens : List Token) : Prop where
  | takes (read left : List Token) (a : α) (eq : tokens = read ++ left) (h : Takes p read left a)
  | stops (read rest : List Token) (cause : GrammarFault) (eq : tokens = read ++ rest)
    (h : Stops p read rest cause)

namespace Takes

variable {read : List Token} {a : α}

theorem eq_self (h : Takes p read left a) : p (read ++ left) = .ok (a, left) :=
  h.eq_ok left (.of_take rfl)

/-- Nothing is left of the tokens that are taken off. -/
theorem eq_read (h : Takes p read left a) : p read = .ok (a, []) := by
  simpa using h.eq_ok [] (.nil left)

/-- A parser that refuses the end of the tokens does not leave all tokens where they are. -/
theorem not_nil {refusal : Refusal} (hp : p [] = .error refusal) (a : α) : ¬ Takes p [] left a :=
  fun h => by cases hp.symm.trans h.eq_read

end Takes

theorem bind_of_ok {f : α → Parser β} {a : α} (h : p tokens = .ok (a, left)) :
    (p >>= f) tokens = f a left := by
  change (p tokens >>= fun result => f result.1 result.2) = _
  rw [h]
  rfl

theorem bind_of_error {f : α → Parser β} {refusal : Refusal} (h : p tokens = .error refusal) :
    (p >>= f) tokens = .error refusal := by
  change (p tokens >>= fun result => f result.1 result.2) = _
  rw [h]
  rfl

/-- The steps of a sequence that has a result. -/
theorem exists_of_bind {f : α → Parser β} {b : β} (h : (p >>= f) tokens = .ok (b, left)) :
    ∃ a middle, p tokens = .ok (a, middle) ∧ f a middle = .ok (b, left) := by
  cases hp : p tokens with
  | error refusal =>
    rw [bind_of_error hp] at h
    cases h
  | ok result =>
    rw [bind_of_ok hp] at h
    exact ⟨result.1, result.2, rfl, h⟩

theorem exists_of_map {f : α → β} {b : β} (h : (f <$> p) tokens = .ok (b, left)) :
    ∃ a, p tokens = .ok (a, left) ∧ f a = b := by
  obtain ⟨a, middle, hp, hpure⟩ := exists_of_bind (f := fun a => pure (f a)) h
  obtain ⟨rfl, rfl⟩ := Prod.mk.inj (Except.ok.inj hpure)
  exact ⟨a, hp, rfl⟩

theorem bind_congr_at (h : p tokens = q tokens') (f : α → Parser β) :
    (p >>= f) tokens = (q >>= f) tokens' := by
  change (p tokens >>= fun result => f result.1 result.2) = _
  rw [h]
  rfl

theorem map_congr_at (h : p tokens = q tokens') (f : α → β) :
    (f <$> p) tokens = (f <$> q) tokens' :=
  bind_congr_at h fun a => pure (f a)

theorem map_of_ok {f : α → β} {a : α} (h : p tokens = .ok (a, left)) :
    (f <$> p) tokens = .ok (f a, left) :=
  bind_of_ok (f := fun a => pure (f a)) h

theorem map_of_error {f : α → β} {refusal : Refusal} (h : p tokens = .error refusal) :
    (f <$> p) tokens = .error refusal :=
  bind_of_error (f := fun a => pure (f a)) h

namespace Local

theorem runsOut_nil (h : Local p []) : RunsOut (p []) := by
  cases h with
  | takes read left a eq h =>
    obtain ⟨rfl, rfl⟩ := List.append_eq_nil_iff.mp eq.symm
    exact h.eq_read ▸ rfl
  | stops read rest cause eq h =>
    obtain ⟨rfl, rfl⟩ := List.append_eq_nil_iff.mp eq.symm
    exact h.runsOut

theorem nil (h : RunsOut (p [])) : Local p [] := by
  cases hp : p [] with
  | ok result =>
    obtain ⟨a, left⟩ := result
    rw [hp] at h
    obtain rfl : left = [] := h
    refine .takes [] [] a rfl ⟨fun left' hleft => ?_⟩
    obtain rfl : left' = [] := by simpa [SameAhead] using hleft
    exact hp
  | error refusal =>
    rw [hp] at h
    refine .stops [] [] refusal.cause rfl ⟨fun rest' hrest => ?_, by rwa [hp]⟩
    obtain rfl : rest' = [] := by simpa using hrest
    exact hp.trans (congrArg Except.error (congrArg (Refusal.mk refusal.cause) h))

/-- A parser that takes tokens off on all lists alike, and goes on with another parser. -/
theorem after (read : List Token) {rest : List Token}
    (hp : ∀ rest', SameAhead rest rest' → p (read ++ rest') = q rest') (h : Local q rest) :
    Local p (read ++ rest) := by
  cases h with
  | takes read' left a eq h =>
    subst eq
    refine .takes (read ++ read') left a (List.append_assoc ..).symm ⟨fun left' hleft => ?_⟩
    rw [List.append_assoc, hp _ (hleft.append read')]
    exact h.eq_ok left' hleft
  | stops read' rest cause eq h =>
    subst eq
    refine .stops (read ++ read') rest cause (List.append_assoc ..).symm
      ⟨fun rest' hrest => ?_, ?_⟩
    · rw [List.append_assoc, hp _ ((SameAhead.of_take hrest).append read')]
      exact h.eq_error rest' hrest
    · rw [hp _ (.of_isPrefix (List.prefix_append read' rest))]
      exact h.runsOut

theorem ok {a : α} (h : ∀ tokens', SameAhead tokens tokens' → p tokens' = .ok (a, tokens')) :
    Local p tokens :=
  .takes [] tokens a rfl ⟨h⟩

theorem pure (a : α) (tokens : List Token) : Local (pure a) tokens := .ok fun _ _ => rfl

/-- A result on account of the first token, which is left where it is. -/
theorem ok_head {a : α} {token : Token} {rest : List Token}
    (h : ∀ rest', p (token :: rest') = .ok (a, token :: rest')) (hnil : p [] = .ok (a, [])) :
    Local p (token :: rest) := by
  refine .ok (a := a) fun tokens' hsame => ?_
  cases tokens' with
  | nil => exact hnil
  | cons token' rest' =>
    obtain ⟨_, heq⟩ := hsame.head
    obtain ⟨rfl, -⟩ := List.cons.inj heq
    exact h rest'

/-- A refusal of the first token. -/
theorem refuse {token : Token} {rest : List Token} {cause : GrammarFault}
    (h : ∀ rest', p (token :: rest') = Parser.refuse cause (token :: rest'))
    (hnil : RunsOut (p [])) : Local p (token :: rest) := by
  refine .stops [] (token :: rest) cause rfl ⟨fun rest' hrest => ?_, hnil⟩
  cases rest' with
  | nil => simp at hrest
  | cons first rest' =>
    obtain ⟨rfl, -⟩ := List.cons.inj hrest
    exact h rest'

theorem bind {f : α → Parser β} (h : Local p tokens)
    (hf : ∀ a left, p tokens = .ok (a, left) ∨ left = [] → Local (f a) left) :
    Local (p >>= f) tokens := by
  cases h with
  | takes read left a eq h =>
    subst eq
    refine .after read (fun left' hleft => ?_) (hf a left (.inl h.eq_self))
    exact bind_of_ok (h.eq_ok left' hleft)
  | stops read rest cause eq h =>
    subst eq
    refine .stops read rest cause rfl
      ⟨fun rest' hrest => bind_of_error (h.eq_error rest' hrest), ?_⟩
    -- With the tokens before the place alone, the first parser may have a result. Then it leaves
    -- nothing to the second, which stands at the end of the tokens.
    have hread := h.runsOut
    cases hp : p read with
    | ok result =>
      obtain ⟨a, left⟩ := result
      rw [hp] at hread
      obtain rfl : left = [] := hread
      rw [bind_of_ok hp]
      exact (hf a [] (.inr rfl)).runsOut_nil
    | error refusal =>
      rw [hp] at hread
      rw [bind_of_error hp]
      exact hread

theorem seq {f : α → Parser β} (h : Local p tokens) (hf : ∀ a left, Local (f a) left) :
    Local (p >>= f) tokens :=
  h.bind fun a left _ => hf a left

theorem map (h : Local p tokens) (f : α → β) : Local (f <$> p) tokens :=
  h.seq (f := fun a => Pure.pure (f a)) fun _ _ => .pure _ _

/-- A parser that does what another does wherever the given token is ahead. Where the other ends
or stops after some tokens, the given one is the first of them. -/
theorem of_head {token : Token} {rest : List Token} (h : Local q (token :: rest))
    (hp : ∀ rest', p (token :: rest') = q (token :: rest')) (hnil : RunsOut (p []))
    (hq : ∀ a, ¬ Takes q [] (token :: rest) a) : Local p (token :: rest) := by
  cases h with
  | takes read left a eq h =>
    cases read with
    | nil =>
      subst eq
      exact absurd h (hq a)
    | cons first read =>
      obtain ⟨rfl, rfl⟩ := List.cons.inj eq
      exact .takes (token :: read) left a rfl
        ⟨fun left' hleft => (hp _).trans (h.eq_ok left' hleft)⟩
  | stops read rest' cause eq h =>
    cases read with
    | nil =>
      refine .stops [] (token :: rest) cause rfl ⟨fun rest' hrest => ?_, hnil⟩
      subst eq
      cases rest' with
      | nil => simp at hrest
      | cons first rest' =>
        obtain ⟨rfl, -⟩ := List.cons.inj hrest
        exact (hp _).trans (h.eq_error _ hrest)
    | cons first read =>
      obtain ⟨rfl, rfl⟩ := List.cons.inj eq
      refine .stops (token :: read) rest' cause rfl ⟨fun rest' hrest => ?_, ?_⟩
      · exact (hp _).trans (h.eq_error rest' hrest)
      · rw [hp]
        exact h.runsOut

theorem refuse_all (cause : GrammarFault) (tokens : List Token) :
    Local (Parser.refuse cause : Parser α) tokens := by
  cases tokens with
  | nil => exact .nil rfl
  | cons token rest => exact .refuse (fun _ => rfl) rfl

end Local

/-! ## Loops -/

section Loops

variable {more : List Token → Bool} {item : Parser α}

/-- One repetition of a loop, or none if the test fails. -/
def guarded (more : List Token → Bool) (item : Parser α) : Parser (Option α) := fun tokens =>
  if more tokens then (some <$> item) tokens else .ok (none, tokens)

/-- A repetition takes a token off. -/
theorem length_lt_of_guarded (hnil : more [] = false) {a : α}
    (h : Local (guarded more item) tokens)
    (hitem : guarded more item tokens = .ok (some a, left)) : left.length < tokens.length := by
  cases h with
  | stops read rest cause eq h =>
    rw [eq, h.eq_error rest rfl] at hitem
    cases hitem
  | takes read left' a' eq h =>
    rw [eq, h.eq_self] at hitem
    obtain ⟨rfl, rfl⟩ := Prod.mk.inj (Except.ok.inj hitem)
    -- A repetition that takes nothing off would take place at the end of the tokens as well.
    have hread : read ≠ [] := by
      rintro rfl
      have hfirst := h.eq_read
      rw [guarded, hnil] at hfirst
      cases hfirst
    rw [eq, List.length_append]
    have := List.length_pos_iff.mpr hread
    omega

/-- The budget of a loop is of no consequence if it is large enough. -/
theorem manyWithin_eq (hnil : more [] = false)
    (hitem : ∀ tokens, Local (guarded more item) tokens) {budget budget' : List Token}
    (h : tokens.length ≤ budget.length) (h' : tokens.length ≤ budget'.length) :
    manyWithin more item budget tokens = manyWithin more item budget' tokens := by
  induction budget generalizing budget' tokens with
  | nil =>
    obtain rfl := List.length_eq_zero_iff.mp (Nat.le_zero.mp h)
    rw [manyWithin_of_not_more _ hnil, manyWithin_of_not_more _ hnil]
  | cons token budget ih =>
    cases budget' with
    | nil =>
      obtain rfl := List.length_eq_zero_iff.mp (Nat.le_zero.mp h')
      rw [manyWithin_of_not_more _ hnil, manyWithin_of_not_more _ hnil]
    | cons token' budget' =>
      simp only [manyWithin]
      split
      · next hmore =>
        cases hfirst : item tokens with
        | error refusal => rw [bind_of_error hfirst, bind_of_error hfirst]
        | ok result =>
          obtain ⟨a, left⟩ := result
          have hguarded : guarded more item tokens = .ok (some a, left) := by
            rw [guarded, if_pos hmore, map_of_ok hfirst]
          have hlength := length_lt_of_guarded hnil (hitem tokens) hguarded
          rw [List.length_cons] at h h'
          rw [bind_of_ok hfirst, bind_of_ok hfirst]
          exact bind_congr_at (ih (by omega) (by omega)) _
      · rfl

/-- A loop goes on until its test fails. -/
theorem many_eq (hnil : more [] = false) (hitem : ∀ tokens, Local (guarded more item) tokens)
    (tokens : List Token) :
    many more item tokens = (do
      match ← guarded more item with
      | some a => (a :: ·) <$> many more item
      | none => pure []) tokens := by
  cases hmore : more tokens with
  | false =>
    have hguarded : guarded more item tokens = .ok (none, tokens) := by
      rw [guarded, hmore]
      rfl
    rw [many, manyWithin_of_not_more _ hmore, bind_of_ok hguarded]
    rfl
  | true =>
    cases tokens with
    | nil => rw [hnil] at hmore; cases hmore
    | cons token rest =>
      simp only [many, manyWithin, if_pos hmore]
      cases hfirst : item (token :: rest) with
      | error refusal =>
        have hguarded : guarded more item (token :: rest) = .error refusal := by
          rw [guarded, if_pos hmore, map_of_error hfirst]
        rw [bind_of_error hfirst, bind_of_error hguarded]
      | ok result =>
        obtain ⟨a, left⟩ := result
        have hguarded : guarded more item (token :: rest) = .ok (some a, left) := by
          rw [guarded, if_pos hmore, map_of_ok hfirst]
        have hlength := length_lt_of_guarded hnil (hitem _) hguarded
        rw [List.length_cons] at hlength
        rw [bind_of_ok hfirst, bind_of_ok hguarded]
        exact bind_congr_at (manyWithin_eq hnil hitem (by omega) le_rfl) _

/-- A loop whose repetitions are local. -/
theorem Local.many (hnil : more [] = false) (hitem : ∀ tokens, Local (guarded more item) tokens)
    (tokens : List Token) : Local (many more item) tokens := by
  induction hlength : tokens.length using Nat.strong_induction_on generalizing tokens with
  | _ n ih =>
    subst hlength
    refine .after [] (fun rest' _ => many_eq hnil hitem rest') ((hitem tokens).bind ?_)
    rintro (_ | a) left hleft
    · exact .pure _ _
    · rcases hleft with hleft | rfl
      · exact (ih _ (length_lt_of_guarded hnil (hitem tokens) hleft) left rfl).map _
      · exact .nil rfl

/-- After a loop its test fails. -/
theorem more_of_many (hnil : more [] = false) (hitem : ∀ tokens, Local (guarded more item) tokens)
    {as : List α} (h : many more item tokens = .ok (as, left)) : more left = false := by
  induction hlength : tokens.length using Nat.strong_induction_on generalizing tokens as with
  | _ n ih =>
    subst hlength
    cases hmore : more tokens with
    | false =>
      rw [many, manyWithin_of_not_more _ hmore] at h
      obtain ⟨-, rfl⟩ := Prod.mk.inj (Except.ok.inj h)
      exact hmore
    | true =>
      rw [many_eq hnil hitem] at h
      obtain ⟨first?, middle, hfirst, h⟩ := exists_of_bind h
      cases first? with
      | none =>
        rw [guarded, if_pos hmore] at hfirst
        obtain ⟨a, -, ha⟩ := exists_of_map hfirst
        cases ha
      | some a =>
        obtain ⟨others, hmany, -⟩ := exists_of_map h
        exact ih _ (length_lt_of_guarded hnil (hitem tokens) hfirst) hmany rfl

/-- A loop whose test is on the first token. -/
theorem local_guarded (hmore : ∀ token rest, more (token :: rest) = more [token])
    (hnil : more [] = false)
    (hitem : ∀ tokens, Local item tokens) {refusal : Refusal} (hitem_nil : item [] = .error refusal)
    (tokens : List Token) : Local (guarded more item) tokens := by
  have hnone : guarded more item [] = .ok (none, []) := by
    rw [guarded, hnil]
    rfl
  have hrunsOut : RunsOut (guarded more item []) := by
    rw [hnone]
    rfl
  cases tokens with
  | nil => exact .nil hrunsOut
  | cons token rest =>
    cases htest : more [token] with
    | true =>
      refine ((hitem (token :: rest)).map some).of_head (fun rest' => ?_) hrunsOut
        (Takes.not_nil (map_of_error hitem_nil))
      rw [guarded, hmore, if_pos htest]
    | false =>
      refine .ok_head (fun rest' => ?_) hnone
      rw [guarded, hmore, htest]
      rfl

end Loops

/-! ## Single tokens -/

theorem local_number (tokens : List Token) : Local number tokens := by
  cases tokens with
  | nil => exact .nil rfl
  | cons token rest =>
    obtain ⟨lexeme, line, column⟩ := token
    cases lexeme with
    | number n => exact .after [_] (fun _ _ => rfl) (.pure n rest)
    | _ => exact .refuse (fun _ => rfl) rfl

theorem local_word (tokens : List Token) : Local word tokens := by
  cases tokens with
  | nil => exact .nil rfl
  | cons token rest =>
    obtain ⟨lexeme, line, column⟩ := token
    cases lexeme with
    | word name => exact .after [_] (fun _ _ => rfl) (.pure name rest)
    | _ => exact .refuse (fun _ => rfl) rfl

/-- One given lexeme, and a refusal of any other. -/
theorem local_expect (lexeme : Lexeme) (cause : GrammarFault) (tokens : List Token) :
    Local (fun tokens => if startsWith [lexeme] tokens then .ok ((), tokens.tail)
      else refuse cause tokens) tokens := by
  cases tokens with
  | nil => exact .nil rfl
  | cons token rest =>
    by_cases h : token.lexeme = lexeme
    · exact .after [token] (fun _ _ => if_pos (by simp [startsWith, h])) (.pure () rest)
    · exact .refuse (fun _ => if_neg (by simp [startsWith, h])) rfl

theorem local_keyword (name : String) (tokens : List Token) : Local (keyword name) tokens :=
  local_expect _ _ tokens

theorem local_symbol (lexeme : Lexeme) (tokens : List Token) : Local (symbol lexeme) tokens :=
  local_expect _ _ tokens

theorem local_accept (lexeme : Lexeme) (tokens : List Token) : Local (accept lexeme) tokens := by
  cases hahead : startsWith [lexeme] tokens with
  | false =>
    refine .ok (a := false) fun tokens' hsame => ?_
    rw [accept, hsame.startsWith_eq_false (by simp) hahead]
    rfl
  | true =>
    cases tokens with
    | nil => cases hahead
    | cons token rest =>
      have h : token.lexeme = lexeme := by simpa [startsWith] using hahead
      exact .after [token] (fun _ _ => by simp [accept, startsWith, h]; rfl) (.pure true rest)

theorem local_skipCommas (tokens : List Token) : Local skipCommas tokens := by
  let isComma (token : Token) : Bool := token.lexeme == .comma
  refine .takes (tokens.takeWhile isComma) (tokens.dropWhile isComma) ()
    (List.takeWhile_append_dropWhile).symm ⟨fun left' hleft => ?_⟩
  have hcommas : ∀ token ∈ tokens.takeWhile isComma, isComma token = true :=
    fun token => List.mem_takeWhile_imp
  have hstop : left'.dropWhile isComma = left' := by
    cases left' with
    | nil => rfl
    | cons token rest =>
      obtain ⟨others, hothers⟩ := hleft.head
      have hhead := List.head?_dropWhile_not isComma tokens
      have hcomma : isComma token = false := by simpa [hothers] using hhead
      rw [List.dropWhile_cons, hcomma]
      rfl
  change Except.ok ((), (tokens.takeWhile isComma ++ left').dropWhile isComma) = _
  rw [List.dropWhile_append_of_pos hcommas, hstop]

/-- Two given lexemes ahead, which are taken off before the parser goes on. -/
theorem Local.pair {first second : Lexeme} (h : startsWith [first, second] tokens = true)
    (hp : ∀ token token' rest, token.lexeme = first → token'.lexeme = second →
      p (token :: token' :: rest) = q rest)
    (hq : ∀ rest, Local q rest) : Local p tokens := by
  obtain _ | ⟨token, _ | ⟨token', rest⟩⟩ := tokens
  · cases h
  · simp [startsWith] at h
  · simp only [startsWith, Bool.and_eq_true, beq_iff_eq, and_true] at h
    exact .after [token, token'] (fun rest' _ => hp token token' rest' h.1 h.2) (hq rest)

theorem bind_keyword_symbol {name : String} {lexeme : Lexeme} {token token' : Token}
    (h : token.lexeme = .word name) (h' : token'.lexeme = lexeme) (next : Parser β)
    (rest : List Token) :
    (do keyword name; symbol lexeme; next) (token :: token' :: rest) = next rest := by
  have hkeyword : keyword name (token :: token' :: rest) = .ok ((), token' :: rest) := by
    simp [keyword, startsWith, h]
  have hsymbol : symbol lexeme (token' :: rest) = .ok ((), rest) := by
    simp [symbol, startsWith, h']
  rw [bind_of_ok hkeyword, bind_of_ok hsymbol]

end TileScript.Parser
