import TileScript.Token
import TileScript.Number.Decimal

/-!
# From text to tokens

A program text is cut into pieces from left to right, each as long as its class allows: gaps, which
separate tokens, and the texts of the tokens themselves. Nothing is lost, so the place of a token
is the place reached by the pieces before it. Every character belongs to some piece; the one way to
fail is a number of more than 4300 digits.

## Main definitions

* `Piece`, `Piece.next`, `Piece.cut`: the pieces of a text.
* `Position.after`: the place that follows a stretch of text.
* `tokenize`: the tokens of a program text.

## Main statements

* `Piece.text_next`: the first piece and the remainder make up the text.
* `Piece.flatMap_text_cut`: the pieces make up the text.
-/

namespace TileScript

/-- A place in a text, counted from one. -/
structure Position where
  line : Nat
  column : Nat
deriving DecidableEq

namespace Position

/-- The place of the first character. -/
def start : Position := ⟨1, 1⟩

/-- The place after one more character. -/
def step (p : Position) (c : Char) : Position :=
  if c = '\n' then ⟨p.line + 1, 1⟩ else ⟨p.line, p.column + 1⟩

/-- The place after a stretch of text. -/
def after (p : Position) (text : List Char) : Position := text.foldl step p

end Position

/-- A stretch of a program text. -/
inductive Piece where
  /-- Separates tokens: one blank character or one comment. -/
  | gap (text : List Char)
  | digits (text : List Char)
  | word (text : List Char)
  | dots (text : List Char)
  | symbol (char : Char)
deriving DecidableEq

namespace Piece

/-- The characters of a piece. -/
def text : Piece → List Char
  | .gap text | .digits text | .word text | .dots text => text
  | .symbol char => [char]

/-- The characters that separate tokens; any other blank is a token of its own. -/
def isSeparator (c : Char) : Bool := c = ' ' || c = '\t' || c = '\r' || c = '\n'

/-- The characters of words. -/
def isWordChar (c : Char) : Bool := c.isAlphanum || c = '_'

/-- Cuts the text inside a comment after the mark that closes it; without one the comment takes all
there is. -/
def closeComment : List Char → List Char × List Char
  | [] => ([], [])
  | '-' :: '/' :: rest => (['-', '/'], rest)
  | c :: rest =>
    let after := closeComment rest
    (c :: after.1, after.2)

/-- The longest stretch of a class at the start of a text, and the text after it. -/
def splitRun (inClass : Char → Bool) (text : List Char) : List Char × List Char :=
  (text.takeWhile inClass, text.dropWhile inClass)

/-- The first piece of the text `c :: rest`, and the text after it. -/
def next (c : Char) (rest : List Char) : Piece × List Char :=
  if isSeparator c then (.gap [c], rest)
  else if c = '/' ∧ rest.head? = some '-' then
    let (inside, after) := closeComment rest.tail
    (.gap ('/' :: '-' :: inside), after)
  else if c.isDigit then
    let (run, after) := splitRun Char.isDigit rest
    (.digits (c :: run), after)
  else if isWordChar c then
    let (run, after) := splitRun isWordChar rest
    (.word (c :: run), after)
  else if c = '.' then
    let (run, after) := splitRun (· = '.') rest
    (.dots (c :: run), after)
  else (.symbol c, rest)

theorem append_closeComment (text : List Char) :
    (closeComment text).1 ++ (closeComment text).2 = text := by
  fun_induction closeComment text with
  | case1 => rfl
  | case2 => rfl
  | case3 c rest _ after ih => simpa [after] using ih

/-- The first piece and the remainder make up the text. -/
theorem text_next (c : Char) (rest : List Char) :
    (next c rest).1.text ++ (next c rest).2 = c :: rest := by
  unfold next
  split
  · rfl
  split
  · next h =>
    obtain ⟨rfl, hd⟩ := h
    cases rest with
    | nil => simp at hd
    | cons d rest =>
      obtain rfl : d = '-' := by simpa using hd
      simp [text, append_closeComment]
  split
  · simp [splitRun, text]
  split
  · simp [splitRun, text]
  split
  · simp [splitRun, text]
  · rfl

theorem text_ne_nil_next (c : Char) (rest : List Char) : (next c rest).1.text ≠ [] := by
  unfold next
  repeat' split
  all_goals simp [text]

theorem length_next_le (c : Char) (rest : List Char) :
    (next c rest).2.length ≤ rest.length := by
  have whole := congrArg List.length (text_next c rest)
  have some_text := List.length_pos_iff.mpr (text_ne_nil_next c rest)
  simp only [List.length_append, List.length_cons] at whole
  omega

/-- The pieces of a text. -/
def cut : List Char → List Piece
  | [] => []
  | c :: rest => (next c rest).1 :: cut (next c rest).2
termination_by text => text.length
decreasing_by
  have := length_next_le c rest
  simp only [List.length_cons]
  omega

/-- The pieces make up the text. -/
theorem flatMap_text_cut (source : List Char) : (cut source).flatMap text = source := by
  fun_induction cut source with
  | case1 => rfl
  | case2 c rest ih => simp [ih, text_next]

/-- What a piece says, if it is no gap. A number has at most 4300 digits. -/
def lexeme? : Piece → Except Fault (Option Lexeme)
  | .gap _ => .ok none
  | .digits text =>
    if 4300 < text.length then .error (.digitsToRead text.length)
    else .ok (some (.number (digitsValue text)))
  | .word text => .ok (some (.word (String.ofList text)))
  | .dots text => .ok (some (.dots text.length))
  | .symbol '=' => .ok (some .equals)
  | .symbol '(' => .ok (some .openParen)
  | .symbol ')' => .ok (some .closeParen)
  | .symbol ',' => .ok (some .comma)
  | .symbol '[' => .ok (some .openBracket)
  | .symbol ']' => .ok (some .closeBracket)
  | .symbol '<' => .ok (some .less)
  | .symbol '>' => .ok (some .greater)
  | .symbol char => .ok (some (.other char))

end Piece

namespace Token

/-- The tokens of a list of pieces that starts at the given place. -/
def ofPieces (p : Position) : List Piece → Except Fault (List Token)
  | [] => .ok []
  | piece :: rest => do
    let lexeme ← piece.lexeme?
    let tokens ← ofPieces (p.after piece.text) rest
    match lexeme with
    | none => return tokens
    | some lexeme => return ⟨lexeme, p.line, p.column⟩ :: tokens

end Token

/-- The tokens of a program text. -/
def tokenize (source : String) : Except Fault (List Token) :=
  Token.ofPieces .start (Piece.cut source.toList)

end TileScript
