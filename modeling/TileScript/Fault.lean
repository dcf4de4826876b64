import TileScript.Scalar

/-!
# Faults

Everything that can go wrong, by cause. A fault has a kind, which decides how a run reports it,
and a message. The message shows the values at fault; where one of them is an integer too long to
be written, the message is that of the failed conversion instead.

## Main definitions

* `GrammarFault`: what a program text violates, before it is located.
* `Fault`: the causes.
* `Fault.kind`, `Fault.message`: their kinds and texts.
-/

namespace TileScript

/-- What a program text violates. -/
inductive GrammarFault where
  | expected (what : String)
  | expectedDuration
  | unknownRelation (name : String)
  | expectedRelation
  | expectedBinding
  | endOfInput
  | expectedValue
  | endOfInputInBrackets
  | expectedBracketed
  | tooDeep
deriving DecidableEq

namespace GrammarFault

/-- The message without the line. -/
def message : GrammarFault → String
  | .expected what => "Expected " ++ what
  | .expectedDuration => "Expected duration (number) after wait"
  | .unknownRelation name => "Unknown relation '" ++ name ++ "'"
  | .expectedRelation => "Expected relation after 'is'"
  | .expectedBinding => "Expected ref(NAME) or id=VALUE after 'to'"
  | .endOfInput => "Unexpected end of input"
  | .expectedValue => "Expected value (number or [expression])"
  | .endOfInputInBrackets => "Unexpected end of input in [ ]"
  | .expectedBracketed => "Expected expression or value inside [ ]"
  | .tooDeep => "Block nesting too deep"

end GrammarFault

/-- The kinds of faults. -/
inductive FaultKind where
  | value
  | overflow
  | zeroDivision
  | recursion
  | type
  | key
  | index
  | memory
  | grammar
  | argument
deriving DecidableEq

namespace FaultKind

/-- The name of a kind in reports. -/
def name : FaultKind → String
  | .value => "ValueError"
  | .overflow => "OverflowError"
  | .zeroDivision => "ZeroDivisionError"
  | .recursion => "RecursionError"
  | .type => "TypeError"
  | .key => "KeyError"
  | .index => "IndexError"
  | .memory => "MemoryError"
  | .grammar => "SyntaxError"
  | .argument => "ArgumentTypeError"

end FaultKind

/-- A cause of failure. -/
inductive Fault where
  /-- An integer with more than 4300 digits is to be written. -/
  | digitsToWrite
  /-- A numeral with more than 4300 digits is to be read as an integer. -/
  | digitsToRead (count : Nat)
  | notInteger (text : String)
  | notFloat (text : String)
  /-- An integer is to be used as a floating point number but is beyond all finite ones. -/
  | tooLargeForFloat
  | quotientTooLarge
  | floorOfInfinity
  | floorOfNan
  | remainderOfInfinity
  | operands (operator : String) (left right : Scalar.Kind)
  | negation (kind : Scalar.Kind)
  | concatenation (kind : Scalar.Kind)
  | repetition (kind : Scalar.Kind)
  | repetitionCount
  | repetitionLength
  | noMemory
  | order (operator : String) (left right : Scalar.Kind)
  | notReal (kind : Scalar.Kind)
  | notCount (kind : Scalar.Kind)
  | noInteger (kind : Scalar.Kind)
  /-- An expression is nested too deeply to be evaluated. -/
  | evaluationDepth
  | divisionByZero
  | moduloByZero
  | noArguments (function : String)
  | tooFewBounds
  | boundsOutOfOrder (low high : Scalar)
  | invalidDimensions (width height : Scalar)
  | dimensionsNotPositive (width height : Scalar)
  | invalidCoordinates (x y : Scalar)
  | placementOutside (id : Scalar) (x y : Int) (width height : Scalar)
  | invalidId (action : String) (id : Scalar)
  | nothingToRemove (id : Scalar)
  | nothingToMove (id : Scalar)
  | unknownDirection (direction : Scalar)
  | invalidTarget (x y : Scalar)
  | targetOutside (x y : Int) (width height : Scalar)
  | unknownRelation (relation : Scalar)
  | outsideRow
  | indexTooLarge
  | missingField (name : String)
  | missingObject (id : Scalar)
  | invalidDuration (duration : Scalar)
  | invalidCount (count : Scalar)
  | missingKey
  | noCells
  | notExpression (shown : String)
  | notStatement (shown : String)
  | notJoinable (kind : Scalar.Kind)
  | scheduleEntry (entry : String)
  | negativeLimit
  | grammar (cause : GrammarFault) (line : Nat)
deriving DecidableEq

namespace Fault

/-- The kind of a fault. -/
def kind : Fault → FaultKind
  | .tooLargeForFloat | .quotientTooLarge | .floorOfInfinity | .repetitionCount
  | .repetitionLength => .overflow
  | .noMemory => .memory
  | .operands .. | .negation _ | .concatenation _ | .repetition _ | .order .. | .notReal _
  | .notCount _ | .noInteger _ | .notExpression _ | .notStatement _ | .notJoinable _ => .type
  | .evaluationDepth => .recursion
  | .divisionByZero | .moduloByZero => .zeroDivision
  | .outsideRow | .indexTooLarge => .index
  | .missingField _ | .missingObject _ => .key
  | .negativeLimit => .argument
  | .grammar .. => .grammar
  | _ => .value

/-- The message of an integer too long to be written. -/
def digitsToWriteText : String :=
  "Exceeds the limit (4300 digits) for integer string conversion; " ++
    "use sys.set_int_max_str_digits() to increase the limit"

/-- The first 200 characters of a text. -/
def briefly (text : String) : String := String.ofList (text.toList.take 200)

/-- The pieces of the message: fixed wording and the values at fault. -/
def pieces : Fault → List Scalar
  | .digitsToWrite => [digitsToWriteText]
  | .digitsToRead count =>
    ["Exceeds the limit (4300 digits) for integer string conversion: value has ", .int count,
      " digits; use sys.set_int_max_str_digits() to increase the limit"]
  | .notInteger text => ["invalid literal for int() with base 10: ", briefly (Text.quoted text)]
  | .notFloat text => ["could not convert string to float: ", Text.quoted text]
  | .tooLargeForFloat => ["int too large to convert to float"]
  | .quotientTooLarge => ["integer division result too large for a float"]
  | .floorOfInfinity => ["cannot convert float infinity to integer"]
  | .floorOfNan => ["cannot convert float NaN to integer"]
  | .remainderOfInfinity => ["math domain error"]
  | .operands operator left right =>
    ["unsupported operand type(s) for ", operator, ": '", left.name, "' and '", right.name, "'"]
  | .negation kind => ["bad operand type for unary -: '", kind.name, "'"]
  | .concatenation kind => ["can only concatenate str (not \"", kind.name, "\") to str"]
  | .repetition kind => ["can't multiply sequence by non-int of type '", kind.name, "'"]
  | .repetitionCount => ["cannot fit 'int' into an index-sized integer"]
  | .repetitionLength => ["repeated string is too long"]
  | .noMemory => []
  | .order operator left right =>
    ["'", operator, "' not supported between instances of '", left.name, "' and '", right.name,
      "'"]
  | .notReal kind => ["must be real number, not ", kind.name]
  | .notCount kind => ["'", kind.name, "' object cannot be interpreted as an integer"]
  | .noInteger kind =>
    ["int() argument must be a string, a bytes-like object or a real number, not '", kind.name,
      "'"]
  | .evaluationDepth => ["Too much recursion in value evaluation"]
  | .divisionByZero => ["Division by zero"]
  | .moduloByZero => ["Modulo by zero"]
  | .noArguments function => [function, " expects at least one argument"]
  | .tooFewBounds => ["random expects two arguments (lo, hi)"]
  | .boundsOutOfOrder low high => ["random bounds out of order: ", low, " > ", high]
  | .invalidDimensions width height =>
    ["Invalid board dimensions: width=", width, ", height=", height]
  | .dimensionsNotPositive width height =>
    ["Board dimensions must be positive: width=", width, ", height=", height]
  | .invalidCoordinates x y => ["Object has invalid coordinates: x=", x, ", y=", y]
  | .placementOutside id x y width height =>
    ["Object placement out of bounds: id=", id, " at (", .int x, ",", .int y, "), board size: ",
      width, "x", height]
  | .invalidId action id => ["Invalid id for ", action, ": ", id]
  | .nothingToRemove id => ["Attempted to remove non-existent object id=", id]
  | .nothingToMove id => ["Object with id=", id, " does not exist for move"]
  | .unknownDirection direction => ["Unknown direction: ", direction]
  | .invalidTarget x y => ["Move failed: invalid coordinates newX=", x, ", newY=", y]
  | .targetOutside x y width height =>
    ["Move failed: out of bounds (", .int x, ",", .int y, "), board size: ", width, "x", height]
  | .unknownRelation relation => ["Unknown relation: ", relation]
  | .outsideRow => ["list index out of range"]
  | .indexTooLarge => ["cannot fit 'int' into an index-sized integer"]
  | .missingField name => [Text.quoted name]
  | .missingObject (.text name) => [Text.quoted name]
  | .missingObject id => [id]
  | .invalidDuration duration => ["Invalid duration for wait: ", duration]
  | .invalidCount count => ["Invalid repeat count: ", count]
  | .missingKey => ["Malformed AST: missing assigned_key in 'assigned' relation"]
  | .noCells => ["max() arg is an empty sequence"]
  | .notExpression shown => ["Cannot format expression node: ", shown]
  | .notStatement shown => ["Cannot format statement node: ", shown]
  | .notJoinable kind => ["sequence item 1: expected str instance, ", kind.name, " found"]
  | .scheduleEntry entry => ["Invalid key schedule entry: '", entry, "'"]
  | .negativeLimit => ["limit must be >= 0"]
  | .grammar cause line => [cause.message, " (at line ", .int line, ")"]

/-- The message; a value that cannot be written makes it the message of that failure. -/
def message (fault : Fault) : String := (Scalar.line? fault.pieces).getD digitsToWriteText

end Fault

namespace Scalar

/-- A line put together from values, or the fault of one that cannot be written. -/
def line (pieces : List Scalar) : Except Fault String :=
  match line? pieces with
  | some written => .ok written
  | none => .error .digitsToWrite

end Scalar

end TileScript
