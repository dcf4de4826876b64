import Mathlib.Data.List.DropRight
import TileScript.Proofs.Token.Spelling

/-!
# How a text lays out its tokens

A program text is gaps and lexemes in turn. A gap is made of separators and comments, and only the
last one may end in a comment that is never closed. Every lexeme is as long as it can be and starts
no comment; its text alone says which lexeme it is, and the text before it says where it stands.
Read the other way, a text that is laid out so has exactly these tokens.

## Main definitions

* `IsComment`, `IsOpenComment`, `IsGap`: what stands between tokens.
* `Lexeme.ofChars?`: the lexeme that a text is.
* `Laid`: a text that stands after another lays out the given tokens.

## Main statements

* `Position.after_start`: the place after a text, by counting.
* `Piece.next_of_ofChars?`, `Piece.lexeme?_next`: lexemes are cut off where they end.
* `Laid.of_ofPieces`, `Laid.ofPieces`: the tokens of pieces and those laid out, one way each.
* `tokenize_eq_ok_iff`: the tokens of a text are those it lays out.
-/

namespace TileScript

/-! ## Gaps -/

/-- A comment whose first closing mark is its end. The opening mark has no part in it, so a slash
right after it closes nothing. -/
def IsComment (text : List Char) : Prop :=
  ∃ inside, text = '/' :: '-' :: (inside ++ ['-', '/']) ∧ ¬['-', '/'] <:+: inside ++ ['-']

/-- A comment without a closing mark. -/
def IsOpenComment (text : List Char) : Prop :=
  ∃ inside, text = '/' :: '-' :: inside ∧ ¬['-', '/'] <:+: inside

/-- Separators and comments, one after another. -/
inductive IsGap : List Char → Prop
  | nil : IsGap []
  | separator {c : Char} {rest : List Char} :
      Piece.isSeparator c = true → IsGap rest → IsGap (c :: rest)
  | comment {text rest : List Char} : IsComment text → IsGap rest → IsGap (text ++ rest)

theorem IsGap.append {a b : List Char} (ha : IsGap a) (hb : IsGap b) : IsGap (a ++ b) := by
  induction ha with
  | nil => exact hb
  | separator hc _ ih => exact .separator hc ih
  | comment hcomment _ ih =>
    rw [List.append_assoc]
    exact .comment hcomment ih

/-! ## Lexemes and places -/

/-- The lexemes of one fixed character. -/
def Lexeme.mark? : Char → Option Lexeme
  | '=' => some .equals
  | '(' => some .openParen
  | ')' => some .closeParen
  | ',' => some .comma
  | '[' => some .openBracket
  | ']' => some .closeBracket
  | '<' => some .less
  | '>' => some .greater
  | _ => none

/-- The lexeme that a text is: a number of at most 4300 digits, a word, a run of dots, or one
character that separates nothing. -/
def Lexeme.ofChars? : List Char → Option Lexeme
  | [] => none
  | c :: run =>
    if c.isDigit then
      if run.all Char.isDigit ∧ (c :: run).length ≤ 4300 then
        some (.number (digitsValue (c :: run)))
      else none
    else if Piece.isWordChar c then
      if run.all Piece.isWordChar then some (.word (String.ofList (c :: run))) else none
    else if c = '.' then
      if run.all (· = '.') then some (.dots (c :: run).length) else none
    else if run = [] ∧ ¬Piece.isSeparator c then some ((mark? c).getD (.other c))
    else none

/-- A character that would make the lexeme longer. -/
def Lexeme.growsBy : Lexeme → Char → Bool
  | .number _, c => c.isDigit
  | .word _, c => Piece.isWordChar c
  | .dots _, c => c = '.'
  | _, _ => false

/-- The token of a lexeme that stands right after a text. -/
def Token.placed (lexeme : Lexeme) (before : List Char) : Token where
  lexeme := lexeme
  line := 1 + before.count '\n'
  column := 1 + (before.rtakeWhile (· ≠ '\n')).length

/-- `Laid before text tokens`: after the text `before`, the text `text` lays out `tokens`. -/
inductive Laid : List Char → List Char → List Token → Prop
  | last {before gap : List Char} : IsGap gap → Laid before gap []
  | unclosed {before gap comment : List Char} :
      IsGap gap → IsOpenComment comment → Laid before (gap ++ comment) []
  /-- A gap, a lexeme that cannot be longer and opens no comment, and the rest of the text. -/
  | token {before gap text rest : List Char} {lexeme : Lexeme} {tokens : List Token} :
      IsGap gap → Lexeme.ofChars? text = some lexeme →
      (∀ c ∈ rest.head?, lexeme.growsBy c = false) → ¬['/', '-'] <+: text ++ rest →
      Laid (before ++ gap ++ text) rest tokens →
      Laid before (gap ++ (text ++ rest)) (.placed lexeme (before ++ gap) :: tokens)

theorem Laid.prepend {before gap text : List Char} {tokens : List Token} (hgap : IsGap gap)
    (h : Laid (before ++ gap) text tokens) : Laid before (gap ++ text) tokens := by
  cases h with
  | last hlast => exact .last (hgap.append hlast)
  | unclosed hgap' hcomment =>
    rw [← List.append_assoc]
    exact .unclosed (hgap.append hgap') hcomment
  | token hgap' htext hgrows hslash hrest =>
    rw [← List.append_assoc, List.append_assoc before]
    exact .token (hgap.append hgap') htext hgrows hslash (by simpa using hrest)

theorem Position.after_append (p : Position) (a b : List Char) :
    p.after (a ++ b) = (p.after a).after b := List.foldl_append

/-- The place after a text: its line ends are counted, and the characters after the last of them. -/
theorem Position.after_start (text : List Char) :
    Position.start.after text =
      ⟨1 + text.count '\n', 1 + (text.rtakeWhile (· ≠ '\n')).length⟩ := by
  induction text using List.reverseRecOn with
  | nil => rfl
  | append_singleton text c ih =>
    have hstep : Position.start.after (text ++ [c]) = (Position.start.after text).step c := by
      simp [after]
    rw [hstep, ih, step]
    by_cases hc : c = '\n'
    · simp [hc, Nat.add_assoc]
    · simp [hc, Nat.add_assoc]

theorem Position.line_after (p : Position) (text : List Char) :
    (p.after text).line = p.line + text.count '\n' := by
  induction text generalizing p with
  | nil => rfl
  | cons c rest ih =>
    change ((p.step c).after rest).line = _
    rw [ih, Position.step, List.count_cons]
    by_cases hc : c = '\n'
    · simp only [hc, if_true, beq_self_eq_true]
      omega
    · simp [hc]

theorem Token.placed_eq (lexeme : Lexeme) (before : List Char) :
    Token.placed lexeme before =
      ⟨lexeme, (Position.start.after before).line, (Position.start.after before).column⟩ := by
  rw [Position.after_start, Token.placed]

namespace Piece

/-! ## Comments -/

theorem closeComment_cons {c : Char} {rest : List Char} (h : ¬['-', '/'] <+: c :: rest) :
    closeComment (c :: rest) = (c :: (closeComment rest).1, (closeComment rest).2) := by
  cases rest with
  | nil => simp [closeComment]
  | cons d rest =>
    have hmark : ¬(c = '-' ∧ d = '/') := by
      rintro ⟨rfl, rfl⟩
      exact h ⟨rest, rfl⟩
    rw [closeComment]
    rintro rest rfl hrest
    exact hmark ⟨rfl, (List.cons.inj hrest).1⟩

/-- The slash of a closing mark at the end has no part in one at the start. -/
theorem mark_prefix_iff (c : Char) (inside rest : List Char) :
    ['-', '/'] <+: c :: (inside ++ ['-', '/'] ++ rest) ↔ ['-', '/'] <+: c :: (inside ++ ['-']) := by
  cases inside <;> simp

/-- A comment ends at its first closing mark. -/
theorem closeComment_of_closed {inside : List Char} (h : ¬['-', '/'] <:+: inside ++ ['-'])
    (rest : List Char) :
    closeComment (inside ++ ['-', '/'] ++ rest) = (inside ++ ['-', '/'], rest) := by
  induction inside with
  | nil => rfl
  | cons c inside ih =>
    rw [List.cons_append, List.infix_cons_iff, not_or] at h
    simp only [List.cons_append]
    rw [closeComment_cons (mt (mark_prefix_iff c inside rest).mp h.1), ih h.2]

theorem closeComment_of_open {inside : List Char} (h : ¬['-', '/'] <:+: inside) :
    closeComment inside = (inside, []) := by
  induction inside with
  | nil => rfl
  | cons c inside ih =>
    rw [List.infix_cons_iff, not_or] at h
    rw [closeComment_cons h.1, ih h.2]

/-- A text has no closing mark, or a first one. -/
theorem exists_closed {text : List Char} (h : ['-', '/'] <:+: text) :
    ∃ inside rest, text = inside ++ ['-', '/'] ++ rest ∧ ¬['-', '/'] <:+: inside ++ ['-'] := by
  induction text with
  | nil => simp at h
  | cons c text ih =>
    by_cases hfirst : ['-', '/'] <+: c :: text
    · obtain ⟨rest, hrest⟩ := hfirst
      exact ⟨[], rest, by simpa using hrest.symm, by simp [List.infix_cons_iff]⟩
    · obtain ⟨inside, rest, rfl, hinside⟩ := ih ((List.infix_cons_iff.mp h).resolve_left hfirst)
      refine ⟨c :: inside, rest, by simp, ?_⟩
      rw [List.cons_append, List.infix_cons_iff, not_or]
      exact ⟨mt (mark_prefix_iff c inside rest).mpr hfirst, hinside⟩

theorem next_separator {c : Char} (h : isSeparator c = true) (rest : List Char) :
    next c rest = (.gap [c], rest) := if_pos h

theorem next_slash (inside : List Char) :
    next '/' ('-' :: inside) =
      (.gap ('/' :: '-' :: (closeComment inside).1), (closeComment inside).2) := rfl

theorem next_comment {text : List Char} (h : IsComment text) (rest : List Char) :
    ∃ more, text = '/' :: more ∧ next '/' (more ++ rest) = (.gap text, rest) := by
  obtain ⟨inside, rfl, hinside⟩ := h
  refine ⟨_, rfl, ?_⟩
  rw [List.cons_append, next_slash, closeComment_of_closed hinside]

/-! ## Lexemes -/

theorem lexeme?_symbol (c : Char) :
    (symbol c).lexeme? = .ok (some ((Lexeme.mark? c).getD (.other c))) := by
  unfold lexeme? Lexeme.mark?
  split <;> simp_all

theorem growsBy_mark (c d : Char) : ((Lexeme.mark? c).getD (.other c)).growsBy d = false := by
  unfold Lexeme.mark?
  split <;> rfl

/-- A run in a class ends where the class does. -/
theorem splitRun_run {inClass : Char → Bool} {run rest : List Char}
    (hrun : run.all inClass = true) (hrest : ∀ c ∈ rest.head?, inClass c = false) :
    splitRun inClass (run ++ rest) = (run, rest) := by
  have hall := splitRun_of_all (List.all_eq_true.mp hrun)
  rw [splitRun_append fun _ => ?_, hall, List.nil_append]
  cases hhead : rest.head? with
  | none => rfl
  | some c => simpa using hrest c hhead

theorem all_splitRun (inClass : Char → Bool) (text : List Char) :
    (splitRun inClass text).1.all inClass = true :=
  List.all_eq_true.mpr fun _ hc => List.mem_takeWhile_imp hc

theorem head?_splitRun (inClass : Char → Bool) (text : List Char) :
    ∀ c ∈ (splitRun inClass text).2.head?, inClass c = false := by
  intro c hc
  have hfirst := List.head?_dropWhile_not inClass text
  rw [splitRun] at hc
  simpa [Option.mem_def.mp hc] using hfirst

theorem next_digits {c : Char} (hc : c.isDigit = true) (rest : List Char) :
    next c rest =
      (.digits (c :: (splitRun Char.isDigit rest).1), (splitRun Char.isDigit rest).2) := by
  obtain ⟨hsep, hslash⟩ := not_isSeparator_of_isWordChar (isWordChar_of_isDigit hc)
  simp [next, hsep, hslash, hc]

theorem next_word {c : Char} (hdigit : ¬c.isDigit = true) (hc : isWordChar c = true)
    (rest : List Char) :
    next c rest = (.word (c :: (splitRun isWordChar rest).1), (splitRun isWordChar rest).2) := by
  obtain ⟨hsep, hslash⟩ := not_isSeparator_of_isWordChar hc
  simp [next, hsep, hslash, hdigit, hc]

theorem next_dot (rest : List Char) :
    next '.' rest = (.dots ('.' :: (splitRun (· = '.') rest).1), (splitRun (· = '.') rest).2) := rfl

theorem next_symbol {c : Char} {rest : List Char} (hsep : ¬isSeparator c = true)
    (hslash : ¬['/', '-'] <+: c :: rest) (hdigit : ¬c.isDigit = true) (hword : ¬isWordChar c = true)
    (hdot : c ≠ '.') : next c rest = (.symbol c, rest) := by
  have hcomment : ¬(c = '/' ∧ rest.head? = some '-') := by
    rintro ⟨rfl, hhead⟩
    obtain ⟨more, rfl⟩ := List.head?_eq_some_iff.mp hhead
    exact hslash ⟨more, rfl⟩
  simp [next, hsep, hcomment, hdigit, hword, hdot]

/-- A lexeme at the start of a text is cut off where it ends. -/
theorem next_of_ofChars? {c : Char} {run rest : List Char} {lexeme : Lexeme}
    (h : Lexeme.ofChars? (c :: run) = some lexeme)
    (hgrows : ∀ d ∈ rest.head?, lexeme.growsBy d = false)
    (hslash : ¬['/', '-'] <+: c :: (run ++ rest)) :
    ∃ piece, next c (run ++ rest) = (piece, rest) ∧ piece.text = c :: run ∧
      piece.lexeme? = .ok (some lexeme) := by
  rw [Lexeme.ofChars?] at h
  split at h
  · next hc =>
    obtain ⟨hrun, ⟨⟩⟩ := Option.ite_none_right_eq_some.mp h
    refine ⟨.digits (c :: run), ?_, rfl, by rw [lexeme?, if_neg (Nat.not_lt.mpr hrun.2)]⟩
    rw [next_digits hc, splitRun_run hrun.1 hgrows]
  split at h
  · next hdigit hc =>
    obtain ⟨hrun, ⟨⟩⟩ := Option.ite_none_right_eq_some.mp h
    refine ⟨.word (c :: run), ?_, rfl, rfl⟩
    rw [next_word hdigit hc, splitRun_run hrun hgrows]
  split at h
  · next hc =>
    obtain ⟨hrun, ⟨⟩⟩ := Option.ite_none_right_eq_some.mp h
    refine ⟨.dots (c :: run), ?_, rfl, rfl⟩
    rw [hc, next_dot, splitRun_run hrun hgrows]
  · next hdigit hword hdot =>
    obtain ⟨⟨rfl, hsep⟩, ⟨⟩⟩ := Option.ite_none_right_eq_some.mp h
    exact ⟨.symbol c, next_symbol hsep hslash hdigit hword hdot, rfl, lexeme?_symbol c⟩

/-- Where neither a separator nor a comment stands, a lexeme is cut off where it ends, unless it is
a number with too many digits. -/
theorem lexeme?_next {c : Char} {rest : List Char} (hsep : ¬isSeparator c = true)
    (hslash : ¬['/', '-'] <+: c :: rest) :
    (∃ lexeme, (next c rest).1.lexeme? = .ok (some lexeme) ∧
      Lexeme.ofChars? (next c rest).1.text = some lexeme ∧
      ∀ d ∈ (next c rest).2.head?, lexeme.growsBy d = false) ∨
    ∃ fault, (next c rest).1.lexeme? = .error fault := by
  -- The classes exclude each other in the order in which they are tried.
  by_cases hdigit : c.isDigit = true
  · rw [next_digits hdigit]
    by_cases hlength : 4300 < (c :: (splitRun Char.isDigit rest).1).length
    · exact .inr ⟨_, if_pos hlength⟩
    · refine .inl ⟨_, if_neg hlength, ?_, head?_splitRun Char.isDigit rest⟩
      rw [text, Lexeme.ofChars?, if_pos hdigit,
        if_pos ⟨all_splitRun Char.isDigit rest, Nat.not_lt.mp hlength⟩]
  by_cases hword : isWordChar c = true
  · rw [next_word hdigit hword]
    refine .inl ⟨_, rfl, ?_, head?_splitRun isWordChar rest⟩
    rw [text, Lexeme.ofChars?, if_neg hdigit, if_pos hword, if_pos (all_splitRun isWordChar rest)]
  by_cases hdot : c = '.'
  · subst hdot
    rw [next_dot]
    refine .inl ⟨_, rfl, ?_, head?_splitRun (· = '.') rest⟩
    rw [text, Lexeme.ofChars?, if_neg hdigit, if_neg hword, if_pos rfl,
      if_pos (all_splitRun (· = '.') rest)]
  · rw [next_symbol hsep hslash hdigit hword hdot]
    refine .inl ⟨_, lexeme?_symbol c, ?_, fun d _ => growsBy_mark c d⟩
    rw [text, Lexeme.ofChars?, if_neg hdigit, if_neg hword, if_neg hdot, if_pos ⟨rfl, hsep⟩]

end Piece

/-! ## Tokens -/

namespace Token

theorem ofPieces_gap (p : Position) (text : List Char) (pieces : List Piece) :
    ofPieces p (.gap text :: pieces) = ofPieces (p.after text) pieces :=
  bind_pure (ofPieces (p.after text) pieces)

theorem ofPieces_eq_ok_iff {piece : Piece} {lexeme : Lexeme}
    (h : piece.lexeme? = .ok (some lexeme)) (before : List Char) (pieces : List Piece)
    (tokens : List Token) :
    ofPieces (Position.start.after before) (piece :: pieces) = .ok tokens ↔
      ∃ others, ofPieces (Position.start.after (before ++ piece.text)) pieces = .ok others ∧
        .placed lexeme before :: others = tokens := by
  have hcons : ofPieces (Position.start.after before) (piece :: pieces) =
      ofPieces (Position.start.after (before ++ piece.text)) pieces >>= fun others =>
        .ok (.placed lexeme before :: others) := by
    rw [ofPieces, h, placed_eq, Position.after_append]
    rfl
  simp only [hcons, bind_eq_ok_iff, Except.ok.injEq]

/-- A gap only moves the place of what follows. -/
theorem ofPieces_cut_gap {gap : List Char} (h : IsGap gap) (p : Position) (rest : List Char) :
    ofPieces p (Piece.cut (gap ++ rest)) = ofPieces (p.after gap) (Piece.cut rest) := by
  induction h generalizing p with
  | nil => rfl
  | separator hc _ ih =>
    rw [List.cons_append, Piece.cut, Piece.next_separator hc, ofPieces_gap, ih]
    rfl
  | @comment text gap hcomment _ ih =>
    obtain ⟨more, rfl, hnext⟩ := Piece.next_comment hcomment (gap ++ rest)
    rw [List.append_assoc, List.cons_append, Piece.cut, hnext, ofPieces_gap, ih,
      Position.after_append]

end Token

/-- The tokens of a text are laid out in it. -/
theorem Laid.of_ofPieces {before text : List Char} {tokens : List Token}
    (h : Token.ofPieces (Position.start.after before) (Piece.cut text) = .ok tokens) :
    Laid before text tokens := by
  -- Piece by piece: `before` takes up what is cut off, and gaps are joined by `Laid.prepend`.
  fun_induction Piece.cut text generalizing before tokens with
  | case1 =>
    obtain rfl := Except.ok.inj h
    exact .last .nil
  | case2 c rest ih =>
    by_cases hsep : Piece.isSeparator c = true
    · rw [Piece.next_separator hsep] at h ih
      rw [Token.ofPieces_gap, ← Position.after_append] at h
      exact .prepend (.separator hsep .nil) (ih h)
    by_cases hslash : ['/', '-'] <+: c :: rest
    · obtain ⟨inside, hopen⟩ := hslash
      obtain ⟨rfl, rfl⟩ : '/' = c ∧ '-' :: inside = rest := List.cons.inj hopen
      by_cases hclosed : ['-', '/'] <:+: inside
      · obtain ⟨inside, after, rfl, hinside⟩ := Piece.exists_closed hclosed
        have hgap : IsGap ('/' :: '-' :: (inside ++ ['-', '/']) ++ []) :=
          .comment ⟨inside, rfl, hinside⟩ .nil
        rw [List.append_nil] at hgap
        rw [Piece.next_slash, Piece.closeComment_of_closed hinside] at h ih
        rw [Token.ofPieces_gap, ← Position.after_append] at h
        exact .prepend hgap (ih h)
      · rw [Piece.next_slash, Piece.closeComment_of_open hclosed, Token.ofPieces_gap,
          Piece.cut] at h
        obtain rfl := Except.ok.inj h
        exact .unclosed .nil ⟨inside, rfl, hclosed⟩
    · have htext := Piece.text_next c rest
      rcases Piece.lexeme?_next hsep hslash with ⟨lexeme, hlexeme, hchars, hgrows⟩ | ⟨fault, hfault⟩
      · obtain ⟨others, hothers, rfl⟩ := (Token.ofPieces_eq_ok_iff hlexeme _ _ _).mp h
        rw [← htext] at hslash ⊢
        have hlaid : Laid (before ++ [] ++ (Piece.next c rest).1.text) (Piece.next c rest).2
            others := by
          simpa using ih hothers
        simpa using Laid.token .nil hchars hgrows hslash hlaid
      · rw [Token.ofPieces, hfault] at h
        cases h

/-- What a text lays out are its tokens. -/
theorem Laid.ofPieces {before text : List Char} {tokens : List Token}
    (h : Laid before text tokens) :
    Token.ofPieces (Position.start.after before) (Piece.cut text) = .ok tokens := by
  induction h with
  | @last before gap hgap =>
    have hcut := Token.ofPieces_cut_gap hgap (Position.start.after before) []
    rw [List.append_nil] at hcut
    rw [hcut, Piece.cut]
    rfl
  | @unclosed before gap comment hgap hcomment =>
    obtain ⟨inside, rfl, hinside⟩ := hcomment
    rw [Token.ofPieces_cut_gap hgap, Piece.cut, Piece.next_slash,
      Piece.closeComment_of_open hinside, Token.ofPieces_gap, Piece.cut]
    rfl
  | @token before gap text rest lexeme tokens hgap htext hgrows hslash _ ih =>
    cases text with
    | nil => cases htext
    | cons c run =>
      obtain ⟨piece, hnext, hpiece, hlexeme⟩ := Piece.next_of_ofChars? htext hgrows hslash
      rw [Token.ofPieces_cut_gap hgap, List.cons_append, Piece.cut, hnext, ← Position.after_append,
        Token.ofPieces_eq_ok_iff hlexeme, hpiece]
      exact ⟨tokens, ih, rfl⟩

/-- **A text has the tokens that it lays out**, and no others. -/
theorem tokenize_eq_ok_iff (source : String) (tokens : List Token) :
    tokenize source = .ok tokens ↔ Laid [] source.toList tokens :=
  ⟨fun h => Laid.of_ofPieces h, Laid.ofPieces⟩

end TileScript
