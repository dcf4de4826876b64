import TileScript.Table
import TileScript.Text.Numeral

/-!
# Key schedules and limits

A schedule says at which tick which keys are pressed and released. It is written as entries
`TICK:KEY`, with a minus before a key that is released, separated by commas. The limit on loops
without end is a natural number or `none`.

## Main definitions

* `Schedule`, `Schedule.parse`: reading a schedule.
* `parseLimit`: reading a limit.
-/

namespace TileScript

instance : Key Int := ⟨(· == ·)⟩

/-- For each tick the keys that change, with one for pressed and zero for released. -/
abbrev Schedule := Table Int (Table String Scalar)

/-- The texts between the occurrences of a character. -/
def splitAt (mark : Char) : List Char → List (List Char)
  | [] => [[]]
  | c :: rest =>
    if c = mark then [] :: splitAt mark rest
    else match splitAt mark rest with
      | [] => [[c]]
      | first :: others => (c :: first) :: others

namespace Schedule

/-- The keys scheduled for a tick. -/
def keysAt (schedule : Schedule) (tick : Int) : Table String Scalar :=
  (schedule.get? tick).getD .empty

/-- The key of an entry and whether it is pressed: one minus before it means released. -/
def keyOf (chars : List Char) : String × Scalar :=
  match chars with
  | '-' :: rest => (String.ofList rest, .int 0)
  | chars => (String.ofList chars, .int 1)

/-- The tick, the key and its value of one entry. The tick is read only once the entry has the
right shape, so that a digit which is no decimal one has its own fault. -/
def parseEntry (entry : List Char) : Except Fault (Int × String × Scalar) := do
  let tick := entry.takeWhile (· != ':')
  let rest := entry.dropWhile (· != ':')
  let key := Text.strip Text.isBlank rest.tail
  let digits := Text.strip Text.isBlank tick
  if rest.isEmpty || digits.isEmpty || !digits.all Text.isDigitLike || key.all (· == '-') then
    throw (.scheduleEntry (String.ofList entry))
  let number ← Text.readInteger (String.ofList tick)
  let (name, value) := keyOf key
  return (number, name, value)

/-- The schedule with an entry put in. -/
def add (schedule : Schedule) (tick : Int) (key : String) (value : Scalar) : Schedule :=
  schedule.insert tick ((schedule.keysAt tick).insert key value)

/-- Reads a schedule; entries that are blank do not count. -/
def parse (text : String) : Except Fault Schedule :=
  let entries := (splitAt ',' text.toList).map (Text.strip Text.isBlank)
  (entries.filter (!·.isEmpty)).foldlM (fun schedule entry => do
    let (tick, key, value) ← parseEntry entry
    return add schedule tick key value) Table.empty

end Schedule

/-- Reads a limit: nothing for `none` in any case of letters. -/
def parseLimit (text : String) : Except Fault (Option Nat) := do
  if String.ofList (text.toList.map Char.toLower) = "none" then return none
  let limit ← Text.readInteger text
  if limit < 0 then throw .negativeLimit
  return some limit.toNat

end TileScript
