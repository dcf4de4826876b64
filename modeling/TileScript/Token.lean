import TileScript.Fault

/-!
# Tokens

The units of a program text. A token is a lexeme with the line and column at which it starts, both
counted from one and in characters.
-/

namespace TileScript

/-- What a token says, without its place. -/
inductive Lexeme where
  | number (value : Nat)
  | word (name : String)
  | dots (count : Nat)
  | equals
  | openParen
  | closeParen
  | comma
  | openBracket
  | closeBracket
  | less
  | greater
  /-- Any other single character. No statement starts with one, and no value is one. -/
  | other (char : Char)
deriving DecidableEq

namespace Lexeme

/-- The name of the lexeme's class. -/
def className : Lexeme → String
  | .number _ => "NUMBER"
  | .word _ => "IDENTIFIER"
  | .dots _ => "DOTS"
  | .equals => "EQUALS"
  | .openParen => "LPAREN"
  | .closeParen => "RPAREN"
  | .comma => "COMMA"
  | .openBracket => "LBRACKET"
  | .closeBracket => "RBRACKET"
  | .less | .greater => "ANGLE"
  | .other _ => "CHAR"

/-- The value of a lexeme: the number of a number, the text of everything else. -/
def value : Lexeme → Scalar
  | .number value => .int value
  | .word name => name
  | .dots count => String.ofList (List.replicate count '.')
  | .equals => "="
  | .openParen => "("
  | .closeParen => ")"
  | .comma => ","
  | .openBracket => "["
  | .closeBracket => "]"
  | .less => "<"
  | .greater => ">"
  | .other char => String.ofList [char]

end Lexeme

/-- A lexeme and where it starts. -/
structure Token where
  lexeme : Lexeme
  line : Nat
  column : Nat
deriving DecidableEq

namespace Token

/-- The form in which a trace shows a token. -/
def display (token : Token) : Except Fault String :=
  match token.lexeme.value.quoted? with
  | none => .error .digitsToWrite
  | some value => Scalar.line ["Token(", token.lexeme.className, ", ", value, ", line=",
      .int token.line, ", col=", .int token.column, ")"]

end Token

end TileScript
