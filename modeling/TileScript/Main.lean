import TileScript.CommandLine
import TileScript.Run.Draws

/-!
# The program

The command on the files and the streams of the system.
-/

namespace TileScript.CommandLine

/-- What a failure of the system means for a file. -/
def FileFault.ofSystem : IO.Error → FileFault
  | .noFileOrDirectory .. => .missing
  | .inappropriateType .. => .isDirectory
  | error => .other (toString error)

/-- The files of the system. -/
def systemFiles : FileAccess IO where
  read path := do
    try
      let bytes ← IO.FS.readBinFile path
      return .ok bytes.toList
    catch error => return .error (.ofSystem error)
  write path text := do
    try
      IO.FS.writeFile path text
      return .ok ()
    catch error => return .error (.ofSystem error)
  directory := do
    let path ← IO.currentDir
    return path.toString

/-- Goes on without end. -/
partial def goOn : IO Unit := do
  IO.sleep 1000
  goOn

end TileScript.CommandLine

/-- Runs the command and shows what it leaves behind. -/
def main (words : List String) : IO UInt32 := do
  let seed ← IO.rand 0 0xFFFFFFFF
  let result ← TileScript.CommandLine.execute TileScript.CommandLine.systemFiles
    (TileScript.drawsOfSeed seed) words
  IO.print result.shown
  IO.eprint result.complaint
  if result.endless then TileScript.CommandLine.goOn
  return UInt32.ofNat result.exitCode
