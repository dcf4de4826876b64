import TileScript.Amount
import TileScript.Schedule

/-!
# Arguments of the command line

The command takes one file name and options. An option may be shortened as long as it stays
unambiguous, and its value follows it or is attached with `=`. After `--` nothing is an option; where
`--` is attached to an option as its value, the option is left without one. Words that look like
options but are none, and words too many, are complained about at the end.

## Main definitions

* `Flag`, `Word`, `classify`: what a word on the command line is.
* `Arguments`: the file name and the options.
* `Arguments.parse`: reading the command line.
* `UsageFault.message`: the complaints.
-/

namespace TileScript.CommandLine

open TileScript

/-- The options. -/
inductive Flag where
  | help
  | debug
  | steps
  | keys
  | foreverLimit
  | csv
  | objectsCsv
deriving DecidableEq

/-- The spellings of the options, in the order in which they are listed. -/
def spellings : List (String × Flag) :=
  [("-h", .help), ("--help", .help), ("--debug", .debug), ("--steps", .steps), ("--keys", .keys),
    ("--forever-limit", .foreverLimit), ("--csv", .csv), ("--objects-csv", .objectsCsv)]

/-- The name of an option in complaints: all its spellings. -/
def Flag.name (flag : Flag) : String :=
  "/".intercalate ((spellings.filter (·.2 == flag)).map (·.1))

/-- Whether an option takes a value. -/
def Flag.takesValue : Flag → Bool
  | .help | .debug => false
  | _ => true

/-- What is wrong with a command line. -/
inductive UsageFault where
  | ambiguous (text : String) (spellings : List String)
  | expectedValue (flag : Flag)
  | ignoredValue (flag : Flag) (value : String)
  | invalidValue (flag : Flag) (type value : String)
  | refusedValue (flag : Flag) (message : String)
  | missingFile
  | unrecognized (texts : List String)

/-- The complaint. -/
def UsageFault.message : UsageFault → String
  | .ambiguous text spellings =>
    "ambiguous option: " ++ text ++ " could match " ++ ", ".intercalate spellings
  | .expectedValue flag => "argument " ++ flag.name ++ ": expected one argument"
  | .ignoredValue flag value =>
    "argument " ++ flag.name ++ ": ignored explicit argument " ++ Text.quoted value
  | .invalidValue flag type value =>
    "argument " ++ flag.name ++ ": invalid " ++ type ++ " value: " ++ Text.quoted value
  | .refusedValue flag message => "argument " ++ flag.name ++ ": " ++ message
  | .missingFile => "the following arguments are required: filename"
  | .unrecognized texts => "unrecognized arguments: " ++ " ".intercalate texts

/-! ## Words -/

/-- A word on the command line. -/
inductive Word where
  | plain (text : String)
  /-- The mark after which nothing is an option. -/
  | separator
  | option (flag : Flag) (attached : Option String)
  /-- A word that looks like an option and is none. -/
  | unknown (text : String)

/-- The word as it was written, where it is not an option. -/
def Word.text : Word → String
  | .plain text | .unknown text => text
  | .separator => "--"
  | .option flag _ => flag.name

/-- Whether a word is an option or looks like one. -/
def Word.isOption : Word → Bool
  | .option .. | .unknown _ => true
  | _ => false

/-- A text before and after its first `=`. -/
def splitEquals (text : String) : String × Option String :=
  let before := text.toList.takeWhile (· != '=')
  let after := text.toList.dropWhile (· != '=')
  (String.ofList before, if after.isEmpty then none else some (String.ofList after.tail))

/-- Whether a text is a negative number: digits with a minus before them, perhaps with a point
among them. A line feed may follow. -/
def isNegativeNumber (text : String) : Bool :=
  let isDigit (c : Char) : Bool := (Text.decimalValue? c).isSome
  match text.toList with
  | '-' :: rest =>
    let body := if rest.getLast? = some '\n' then rest.dropLast else rest
    let whole := body.takeWhile isDigit
    match body.dropWhile isDigit with
    | [] => !whole.isEmpty
    | '.' :: fraction => !fraction.isEmpty && fraction.all isDigit
    | _ => false
  | _ => false

/-- The options that a text with two minuses may stand for. -/
def longMatches (text : String) : List (String × Flag × Option String) :=
  let (start, attached) := splitEquals text
  (spellings.filter fun (spelling, _) => start.toList.isPrefixOf spelling.toList).map
    fun (spelling, flag) => (spelling, flag, attached)

/-- The options that a text with one minus may stand for: a short option, with its value directly
after it. -/
def shortMatches (text : String) : List (String × Flag × Option String) :=
  (spellings.filter fun (spelling, _) => spelling.toList == text.toList.take 2).map
    fun (spelling, flag) => (spelling, flag, some (String.ofList (text.toList.drop 2)))

/-- What is attached to a short option beyond more short options. The only one is `-h`, so its letter
may be repeated. -/
def beyondShort (attached : String) : Option String :=
  let rest := attached.toList.dropWhile (· == 'h')
  if rest.isEmpty && attached != "" then none else some (String.ofList rest)

/-- What is attached to an option as it was written: more options may follow a short one. -/
def attachment (spelling : String) (attached : Option String) : Option String :=
  if spelling.length = 2 then attached.bind beyondShort else attached

/-- What a word is, if it comes before any separator. -/
def classify (text : String) : Except UsageFault Word :=
  match text.toList with
  | '-' :: second :: _ =>
    let (start, attached) := splitEquals text
    match spellings.lookup text, spellings.lookup start with
    | some flag, _ => .ok (.option flag none)
    | none, some flag => .ok (.option flag (attachment start attached))
    | none, none =>
      match if second = '-' then longMatches text else shortMatches text with
      | [(spelling, flag, attached)] => .ok (.option flag (attachment spelling attached))
      | [] =>
        if isNegativeNumber text || text.toList.contains ' ' then .ok (.plain text)
        else .ok (.unknown text)
      | several => .error (.ambiguous text (several.map (·.1)))
  | _ => .ok (.plain text)

/-- What the words of a command line are. -/
def classifyAll : List String → Except UsageFault (List Word)
  | [] => .ok []
  | text :: rest =>
    if text = "--" then .ok (.separator :: rest.map .plain)
    else do
      let word ← classify text
      let words ← classifyAll rest
      return word :: words

/-! ## Arguments -/

/-- What a command line says. A path for the table of objects is read and not used. -/
structure Arguments where
  file? : Option String := none
  debug : Bool := false
  steps : Amount := .unspecified
  keys : String := ""
  foreverLimit : Amount := .ofInt 1000
  csv : String := ""

/-- What a command line asks for. -/
inductive Request where
  | help
  | run (file : String) (arguments : Arguments)

/-- The number of ticks that a text gives. -/
def parseSteps (text : String) : Except UsageFault Int :=
  match Text.readInteger text with
  | .ok n => .ok n
  | .error _ => .error (.invalidValue .steps "int" text)

/-- The limit that a text gives. -/
def parseForeverLimit (text : String) : Except UsageFault Amount :=
  match parseLimit text with
  | .ok (some limit) => .ok (.ofInt limit)
  | .ok none => .ok .unspecified
  | .error .negativeLimit => .error (.refusedValue .foreverLimit (Fault.message .negativeLimit))
  | .error _ => .error (.invalidValue .foreverLimit "limit_value" text)

namespace Arguments

/-- The arguments with the value of an option. -/
def set (arguments : Arguments) (flag : Flag) (value : String) : Except UsageFault Arguments :=
  match flag with
  | .steps => do
    let steps ← parseSteps value
    return { arguments with steps := .ofInt steps }
  | .foreverLimit => do
    let limit ← parseForeverLimit value
    return { arguments with foreverLimit := limit }
  | .keys => .ok { arguments with keys := value }
  | .csv => .ok { arguments with csv := value }
  | .objectsCsv | .help | .debug => .ok arguments

/-- The arguments with an option that is left without a value. -/
def clear (arguments : Arguments) : Flag → Arguments
  | .steps => { arguments with steps := .emptyList }
  | .foreverLimit => { arguments with foreverLimit := .emptyList }
  | .keys => { arguments with keys := "" }
  | .csv => { arguments with csv := "" }
  | .objectsCsv | .help | .debug => arguments

/-- The arguments with an option to which a text is attached. -/
def attach (arguments : Arguments) (flag : Flag) (value : String) : Except UsageFault Arguments :=
  if value = "--" then .ok (arguments.clear flag) else arguments.set flag value

/-- What is left after the last option: the file name if it is still missing, with the separator
before or after it, and words too many. -/
def finish (arguments : Arguments) (extras : List String) (words : List Word) :
    Arguments × List String :=
  match arguments.file?, words with
  | none, .separator :: .plain file :: rest
  | none, .plain file :: .separator :: rest
  | none, .plain file :: rest => ({ arguments with file? := some file }, extras ++ rest.map Word.text)
  | _, words => (arguments, extras ++ words.map Word.text)

/-- Reads words from left to right; `none` once help is asked for. The first plain word is the file
name, and the others are too many. -/
def readWords (arguments : Arguments) (extras : List String) :
    List Word → Except UsageFault (Option (Arguments × List String))
  | [] => .ok (some (arguments, extras))
  | word :: rest =>
    if !(word :: rest).any Word.isOption then
      .ok (some (finish arguments extras (word :: rest)))
    else match word with
      | .plain text =>
        match arguments.file? with
        | none => readWords { arguments with file? := some text } extras rest
        | some _ => readWords arguments (extras ++ [text]) rest
      | .separator => readWords arguments (extras ++ ["--"]) rest
      | .unknown text => readWords arguments (extras ++ [text]) rest
      | .option flag attached =>
        if flag.takesValue then
          match attached with
          | some value =>
            match arguments.attach flag value with
            | .error fault => .error fault
            | .ok arguments => readWords arguments extras rest
          | none =>
            match rest with
            | .plain value :: rest =>
              match arguments.set flag value with
              | .error fault => .error fault
              | .ok arguments => readWords arguments extras rest
            | _ => .error (.expectedValue flag)
        else
          match attached with
          | some value => .error (.ignoredValue flag value)
          | none =>
            if flag = .help then .ok none
            else readWords { arguments with debug := true } extras rest
termination_by words => words.length

/-- Reads a command line. A missing file name is the graver complaint. -/
def parse (words : List String) : Except UsageFault Request := do
  let words ← classifyAll words
  match ← readWords {} [] words with
  | none => return .help
  | some (arguments, extras) =>
    match arguments.file? with
    | none => throw .missingFile
    | some file =>
      if extras.isEmpty then return .run file arguments else throw (.unrecognized extras)

end Arguments

end TileScript.CommandLine
