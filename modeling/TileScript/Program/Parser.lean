import TileScript.Program.Node
import TileScript.Token

/-!
# From tokens to programs

Statements start with their keyword, and each is as long as its tokens allow. At the top level a
token that starts no statement is passed over; inside a statement whatever does not fit is a
refusal at the token where parsing stopped. Line ends count in one place only: the arguments of a
call that stands as a statement without parentheses end with its line.

Nesting is bounded. Every parser takes the depth that is left and refuses at zero, so recursion
ends whatever the tokens are, and `parse` fixes the bound.

## Main definitions

* `Parser`, `Refusal`: a parser takes tokens off the front or refuses.
* `Parser.many`: repeats a parser while a test on the tokens ahead holds.
* `Parser.value`, `Parser.statement`: expressions and statements.
* `parseWithin`, `parse`: whole programs, with a given and with the usual bound on nesting.
-/

namespace TileScript

/-- Why parsing stopped, and the line of the token where it did; none at the end of the tokens. -/
structure Refusal where
  cause : GrammarFault
  line : Option Nat
deriving DecidableEq

/-- A parser takes tokens off the front of a list or refuses. -/
abbrev Parser := StateT (List Token) (Except Refusal)

namespace Parser

/-- Stops at the token ahead. -/
def refuse {α : Type} (cause : GrammarFault) : Parser α := fun tokens =>
  .error ⟨cause, tokens.head?.map Token.line⟩

/-- Whether the tokens ahead have the given lexemes. -/
def startsWith : List Lexeme → List Token → Bool
  | [], _ => true
  | _ :: _, [] => false
  | lexeme :: lexemes, token :: tokens => token.lexeme == lexeme && startsWith lexemes tokens

/-- A number. -/
def number : Parser Nat := fun tokens =>
  match tokens with
  | ⟨.number value, _, _⟩ :: rest => .ok (value, rest)
  | _ => refuse (.expected "NUMBER") tokens

/-- Any word. -/
def word : Parser String := fun tokens =>
  match tokens with
  | ⟨.word name, _, _⟩ :: rest => .ok (name, rest)
  | _ => refuse (.expected "IDENTIFIER") tokens

/-- One given word. -/
def keyword (name : String) : Parser Unit := fun tokens =>
  if startsWith [.word name] tokens then .ok ((), tokens.tail)
  else refuse (.expected ("IDENTIFIER '" ++ name ++ "'")) tokens

/-- One given symbol. -/
def symbol (lexeme : Lexeme) : Parser Unit := fun tokens =>
  if startsWith [lexeme] tokens then .ok ((), tokens.tail)
  else refuse (.expected lexeme.className) tokens

/-- Takes a lexeme off if it is ahead, and says whether it was. -/
def accept (lexeme : Lexeme) : Parser Bool := fun tokens =>
  if startsWith [lexeme] tokens then .ok (true, tokens.tail) else .ok (false, tokens)

/-- Repeats a parser while a test on the tokens ahead holds, at most once for each token of
`budget`. -/
def manyWithin {α : Type} (more : List Token → Bool) (item : Parser α) :
    List Token → Parser (List α)
  | [] => pure []
  | _ :: budget => fun tokens =>
    if more tokens then
      (do
        let a ← item
        let as ← manyWithin more item budget
        return a :: as) tokens
    else .ok ([], tokens)

/-- Repeats a parser while a test on the tokens ahead holds. Every repetition takes a token off, so
that there are no more of them than tokens. -/
def many {α : Type} (more : List Token → Bool) (item : Parser α) : Parser (List α) := fun tokens =>
  manyWithin more item tokens tokens

/-! ## Expressions -/

/-- The functions of the language. -/
def functionNames : List String := ["add", "sub", "mul", "div", "mod", "random", "rand"]

/-- The name that a function goes by in a tree. -/
def canonicalName (name : String) : String := if name = "rand" then "random" else name

/-- The value of a variable, `ref(NAME)`. -/
def variableRead : Parser Node := do
  keyword "ref"
  symbol .openParen
  let name ← word
  symbol .closeParen
  return .read name

/-- Whether `ref(` is ahead. -/
def readAhead (tokens : List Token) : Bool := startsWith [.word "ref", .openParen] tokens

/-- Whether a function's name is ahead. -/
def functionAhead : List Token → Bool
  | ⟨.word name, _, _⟩ :: _ => functionNames.contains name
  | _ => false

/-- Whether another argument of a call is ahead. A closing parenthesis or bracket ends the
arguments, and so does, without parentheses, the end of the line `stopLine` if there is one. -/
def argumentAhead (parens : Bool) (stopLine : Option Nat) : List Token → Bool
  | [] => false
  | token :: _ => token.lexeme != .closeParen && token.lexeme != .closeBracket &&
      (parens || stopLine.all (· == token.line))

/-- Passes over the commas ahead. -/
def skipCommas : Parser Unit := fun tokens =>
  .ok ((), tokens.dropWhile (·.lexeme == .comma))

mutual

/-- A value: a number, a word, `ref(NAME)` or an expression in brackets. -/
def value : Nat → Parser Node
  | 0 => refuse .tooDeep
  | depth + 1 => fun tokens =>
    match tokens with
    | [] => refuse .endOfInput tokens
    | token :: rest =>
      match token.lexeme with
      | .openBracket => (do
          let expr ← bracketed depth
          symbol .closeBracket
          return expr) rest
      | .number n => .ok (.number (.int n), rest)
      | .word name => if readAhead tokens then variableRead tokens else .ok (.label name, rest)
      | _ => refuse .expectedValue tokens

/-- What stands in brackets: a call without further marks, or a value. -/
def bracketed : Nat → Parser Node
  | 0 => refuse .tooDeep
  | depth + 1 => fun tokens =>
    match tokens with
    | [] => refuse .endOfInputInBrackets tokens
    | token :: rest =>
      match token.lexeme with
      | .word name =>
        if functionNames.contains name then call depth none tokens
        else if readAhead tokens then variableRead tokens
        else .ok (.label name, rest)
      | .number n => .ok (.number (.int n), rest)
      | .openBracket => (do
          let expr ← bracketed depth
          symbol .closeBracket
          return expr) rest
      | _ => refuse .expectedBracketed tokens

/-- A function's name and its arguments, in parentheses or not. -/
def call : Nat → Option Nat → Parser Node
  | 0, _ => refuse .tooDeep
  | depth + 1, stopLine => do
    let name ← word
    let parens ← accept .openParen
    let args ← many (argumentAhead parens stopLine) (do
      let arg ← argument depth
      skipCommas
      return arg)
    if parens then symbol .closeParen
    return .call (canonicalName name) args

/-- An argument: a call in parentheses or a value. -/
def argument : Nat → Parser Node
  | 0 => refuse .tooDeep
  | depth + 1 => fun tokens =>
    if functionAhead tokens && startsWith [.openParen] tokens.tail then call depth none tokens
    else value depth tokens

end

/-! ## Statements -/

/-- A named field with its value, `NAME=VALUE`. -/
def field (value : Parser Node) : Parser (String × Node) := do
  let name ← word
  symbol .equals
  let node ← value
  return (name, node)

/-- The last value given for a field. -/
def lastField? (name : String) (fields : List (String × Node)) : Option Node :=
  (fields.reverse.find? (·.1 == name)).map (·.2)

/-- Whether one of the given words is ahead. -/
def wordAhead (names : List String) : List Token → Bool
  | ⟨.word name, _, _⟩ :: _ => names.contains name
  | _ => false

/-- The size of the board. -/
def canvas : Parser Node := do
  let width ← number
  let height ← number
  return .canvas (.int width) (.int height)

/-- The id of an object to be taken off, which is always a plain number. -/
def despawn : Parser Node := do
  keyword "id"
  symbol .equals
  let id ← number
  return .despawn (.scalar (.int id))

/-- The rest of a variable's definition, `=NAME(VALUE)`. -/
def define (value : Parser Node) : Parser Node := do
  symbol .equals
  let name ← word
  symbol .openParen
  let node ← value
  symbol .closeParen
  return .define name node

/-- The fields of a new object; those left out are zero. -/
def spawn (value : Parser Node) : Parser Node := do
  let fields ← many (wordAhead ["id", "x", "y", "state"]) (field value)
  let get (name : String) : Node := (lastField? name fields).getD (.number (.int 0))
  return .spawn (get "id") (get "x") (get "y") (get "state")

/-- One part of a move. -/
inductive MovePart where
  | id (node : Node)
  | x (node : Node)
  | y (node : Node)
  | direction (name : String)
  | state (node : Node)
  | swap

/-- The directions of a move by their names and by the keys that stand for them. -/
def directions : List (String × String) :=
  [("left", "left"), ("right", "right"), ("up", "up"), ("down", "down"), ("over", "over"),
    ("under", "under"), ("w", "up"), ("a", "left"), ("s", "down"), ("d", "right")]

/-- The words that start a part of a move. -/
def movePartNames : List String := ["id", "x", "y", "set", "swap"] ++ directions.map (·.1)

/-- One part of a move. The mark after `set` may be left out. -/
def movePart (value : Parser Node) : Parser MovePart := do
  let name ← word
  if name = "id" then
    symbol .equals
    return .id (← value)
  else if name = "x" then
    symbol .equals
    return .x (← value)
  else if name = "y" then
    symbol .equals
    return .y (← value)
  else if name = "set" then
    let _ ← accept .equals
    return .state (← value)
  else
    match directions.lookup name with
    | some direction => return .direction direction
    | none => return .swap

/-- Adds a part to a move; of two parts for one field the later holds. -/
def addMovePart : Node → MovePart → Node
  | .move _ x y direction state swap, .id node => .move node x y direction state swap
  | .move id _ y direction state swap, .x node => .move id node y direction state swap
  | .move id x _ direction state swap, .y node => .move id x node direction state swap
  | .move id x y _ state swap, .direction name => .move id x y name state swap
  | .move id x y direction _ swap, .state node => .move id x y direction node swap
  | .move id x y direction state _, .swap => .move id x y direction state (.bool true)
  | node, _ => node

/-- The parts of a move, in any order. -/
def move (value : Parser Node) : Parser Node := do
  let parts ← many (wordAhead movePartNames) (movePart value)
  return parts.foldl addMovePart
    (.move (.number (.int 0)) .absent .absent .null .absent (.bool false))

/-- The count of a loop: a number, `forever`, or nothing. -/
def loopCount : Parser Scalar := fun tokens =>
  match tokens with
  | ⟨.number n, _, _⟩ :: rest => .ok (.int n, rest)
  | _ => if startsWith [.word "forever"] tokens then .ok ("forever", tokens.tail)
    else .ok (.null, tokens)

/-- The rest of a loop. -/
def loop (block : Parser (List Node)) : Parser Node := do
  let delay ← number
  let count ← loopCount
  let body ← block
  return .loop (.int delay) count body

/-- The relations that a condition may name. -/
def relationNames : List String := ["is", "on", "under", "over", "left", "right", "assigned"]

/-- The relation of a condition. Two ids with `is` between them name identity. -/
def relation : Parser String := fun tokens =>
  if startsWith [.word "id", .equals] tokens then .ok ("is", tokens)
  else match tokens with
    | ⟨.word name, _, _⟩ :: rest =>
      if relationNames.contains name then .ok (name, rest)
      else refuse (.unknownRelation name) tokens
    | _ => refuse .expectedRelation tokens

/-- Whether the label of a block, `..true` or `..false`, is ahead. -/
def blockLabelAhead (tokens : List Token) : Bool :=
  startsWith [.dots 2, .word "true"] tokens || startsWith [.dots 2, .word "false"] tokens

/-- A label and its block. -/
def labelledBlock (block : Parser (List Node)) : Parser (Bool × List Node) := do
  symbol (.dots 2)
  let label ← word
  let body ← block
  return (label = "true", body)

/-- The block that was given last under a label; none is an empty one. -/
def lastBlock (label : Bool) (blocks : List (Bool × List Node)) : List Node :=
  ((blocks.reverse.find? (·.1 == label)).map (·.2)).getD []

/-- The rest of a condition with its two blocks. -/
def branch (value : Parser Node) (block : Parser (List Node)) : Parser Node := do
  keyword "id"
  symbol .equals
  let left ← value
  keyword "is"
  let relation ← relation
  let (right, key) ←
    if relation = "assigned" then do
      let key ← word
      pure (Node.absent, Scalar.text key)
    else do
      keyword "id"
      symbol .equals
      let right ← value
      pure (right, Scalar.null)
  let blocks ← many blockLabelAhead (labelledBlock block)
  return .branch left relation right key (lastBlock true blocks) (lastBlock false blocks)

/-- The rest of a key binding: to a variable's value or to an id. -/
def assign (value : Parser Node) : Parser Node := do
  let key ← word
  keyword "to"
  let node ← fun tokens =>
    if readAhead tokens then variableRead tokens
    else if startsWith [.word "id", .equals] tokens then value (tokens.drop 2)
    else refuse .expectedBinding tokens
  return .assign key node

/-- The number of milliseconds of a pause. -/
def wait : Parser Node := fun tokens =>
  match tokens with
  | ⟨.number n, _, _⟩ :: rest => .ok (.wait (.int n), rest)
  | _ => refuse .expectedDuration tokens

/-- A run of statements, each after a single dot. A dot before something else stands for none. -/
def block (statement : Parser (Option Node)) : Parser (List Node) := do
  let nodes ← many (startsWith [.dots 1]) fun tokens => statement tokens.tail
  return nodes.filterMap id

/-- A statement; none, with no token taken off, if none starts here. -/
def statement : Nat → Parser (Option Node)
  | 0 => refuse .tooDeep
  | depth + 1 => fun tokens =>
    match tokens with
    | ⟨.word name, line, _⟩ :: rest =>
      if name = "canvas" then (some <$> canvas) rest
      else if name = "ref" && startsWith [.equals] rest then (some <$> define (value depth)) rest
      else if name = "ref" && startsWith [.openParen] rest then
        ((some ∘ Node.compute) <$> variableRead) tokens
      else if name = "spawn" then (some <$> spawn (value depth)) rest
      else if name = "despawn" then (some <$> despawn) rest
      else if name = "move" then (some <$> move (value depth)) rest
      else if functionNames.contains name then
        ((some ∘ Node.compute) <$> call depth (some line)) tokens
      else if name = "wait" then (some <$> wait) rest
      else if name = "repeat" then (some <$> loop (block (statement depth))) rest
      else if name = "if" then (some <$> branch (value depth) (block (statement depth))) rest
      else if name = "assign" then (some <$> assign (value depth)) rest
      else .ok (none, tokens)
    | _ => .ok (none, tokens)

/-- A statement, or the one token passed over where none starts. -/
def statementOrSkip (depth : Nat) : Parser (Option Node) := do
  match ← statement depth with
  | some node => return some node
  | none => fun tokens => .ok (none, tokens.tail)

end Parser

/-- The program of a list of tokens, with at most `depth` levels of nesting. A refusal at the end
of the tokens is located at the last of them. -/
def parseWithin (depth : Nat) (tokens : List Token) : Except Fault (List Node) :=
  match Parser.many (fun tokens => !tokens.isEmpty) (Parser.statementOrSkip depth) tokens with
  | .ok (nodes, _) => .ok (nodes.filterMap id)
  | .error refusal =>
    .error (.grammar refusal.cause
      (refusal.line.getD ((tokens.getLast?.map Token.line).getD 1)))

/-- How deeply programs may nest. What nests deeper is refused when the stack of calls of the host
is used up, and this number stands in the place of that stack.

The host has such limits everywhere: its stack of calls and its memory may give out while a program
is read, while it runs, and between two steps of a change to the world. They depend on the machine,
and the program neither sets them nor asks for them. Apart from this number they are outside the
model, which does all that it does as if the host had room for it. -/
def nestingLimit : Nat := 1000

/-- The program of a list of tokens. -/
def parse (tokens : List Token) : Except Fault (List Node) := parseWithin nestingLimit tokens

end TileScript
