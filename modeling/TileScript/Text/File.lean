/-!
# Texts of files

A file holds bytes; its text is their UTF-8 reading with all line ends made the same. Bytes that are
no UTF-8 are refused at the first sequence that cannot be completed, with its place and the reason.

## Main definitions

* `Text.decodeUtf8`: the characters of a list of bytes.
* `Text.unifyLineEnds`: a text with plain line feeds at its line ends.
* `Text.ofBytes`: the text of a file.
-/

namespace TileScript.Text

/-- Why bytes are no UTF-8. -/
inductive Utf8Reason where
  | start
  | continuation
  | ending
deriving DecidableEq

/-- A sequence of bytes that is no UTF-8: the first of them, its place, how many there are, and what
is wrong. -/
structure Utf8Fault where
  first : UInt8
  position : Nat
  length : Nat
  reason : Utf8Reason
deriving DecidableEq

/-- Two hexadecimal digits of a byte. -/
def hexByte (byte : UInt8) : String :=
  String.ofList [Nat.digitChar (byte.toNat / 16), Nat.digitChar (byte.toNat % 16)]

namespace Utf8Fault

/-- The reason in words. -/
def reasonText : Utf8Reason → String
  | .start => "invalid start byte"
  | .continuation => "invalid continuation byte"
  | .ending => "unexpected end of data"

/-- The message. -/
def message (fault : Utf8Fault) : String :=
  "'utf-8' codec can't decode " ++
    (if fault.length = 1 then "byte 0x" ++ hexByte fault.first ++ " in position " ++
        toString fault.position
      else "bytes in position " ++ toString fault.position ++ "-" ++
        toString (fault.position + fault.length - 1)) ++
    ": " ++ reasonText fault.reason

end Utf8Fault

/-- How many bytes a first byte announces after itself, and the range of the next one; the range is
narrower where a longer form than needed, a surrogate or a value out of range would follow. -/
def announced? (first : UInt8) : Option (Nat × UInt8 × UInt8) :=
  if first < 0x80 then some (0, 0x80, 0xBF)
  else if first < 0xC2 then none
  else if first < 0xE0 then some (1, 0x80, 0xBF)
  else if first < 0xF0 then
    some (2, if first = 0xE0 then 0xA0 else 0x80, if first = 0xED then 0x9F else 0xBF)
  else if first < 0xF5 then
    some (3, if first = 0xF0 then 0x90 else 0x80, if first = 0xF4 then 0x8F else 0xBF)
  else none

/-- The bits that a first byte contributes. -/
def leadingBits (first : UInt8) : Nat :=
  if first < 0x80 then first.toNat
  else if first < 0xE0 then first.toNat % 0x20
  else if first < 0xF0 then first.toNat % 0x10
  else first.toNat % 0x08

/-- Reads `left` continuation bytes, the first of which lies in the given range, after `seen` bytes
of the sequence. Gives the value, or how many bytes are at fault and why. -/
def continuation (seen value : Nat) (low high : UInt8) :
    Nat → List UInt8 → Except (Nat × Utf8Reason) Nat
  | 0, _ => .ok value
  | _ + 1, [] => .error (seen, .ending)
  | left + 1, byte :: rest =>
    if low ≤ byte ∧ byte ≤ high then
      continuation (seen + 1) (value * 0x40 + byte.toNat % 0x40) 0x80 0xBF left rest
    else .error (seen, .continuation)

/-- The characters of bytes, the first of which stands at the given place. -/
def decodeFrom (position : Nat) : List UInt8 → Except Utf8Fault (List Char)
  | [] => .ok []
  | first :: rest =>
    match announced? first with
    | none => .error ⟨first, position, 1, .start⟩
    | some (more, low, high) =>
      match continuation 1 (leadingBits first) low high more rest with
      | .error (length, reason) => .error ⟨first, position, length, reason⟩
      | .ok value => do
        let chars ← decodeFrom (position + 1 + more) (rest.drop more)
        return Char.ofNat value :: chars
termination_by bytes => bytes.length
decreasing_by simp only [List.length_drop, List.length_cons]; omega

/-- The characters of bytes. -/
def decodeUtf8 (bytes : List UInt8) : Except Utf8Fault (List Char) := decodeFrom 0 bytes

/-- Turns carriage returns, with or without a line feed after them, into line feeds. -/
def unifyLineEnds : List Char → List Char
  | [] => []
  | '\r' :: '\n' :: rest => '\n' :: unifyLineEnds rest
  | c :: rest => (if c = '\r' then '\n' else c) :: unifyLineEnds rest

/-- The text of a file. -/
def ofBytes (bytes : List UInt8) : Except Utf8Fault String := do
  let chars ← decodeUtf8 bytes
  return String.ofList (unifyLineEnds chars)

end TileScript.Text
