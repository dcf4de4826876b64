import TileScript.Text.Quoted

/-!
# Files and paths

The few things that the command does with files, either with those of the system or with a tree of
files in memory. Paths are texts with slashes between their parts. They start at the root of the
system or at the directory in which the command runs, and a path leads through directories only.

## Main definitions

* `FileFault`: why a file cannot be read or written.
* `FileAccess`: reading, writing and the directory that relative paths start from.
* `absolutePath`: a path without dots, from the root of the system.
* `FileTree`: files in memory, and `FileTree.access` to them.
* `FileTree.locate`: where a path leads.
-/

namespace TileScript.CommandLine

/-- Why a file cannot be read or written. -/
inductive FileFault where
  | missing
  | isDirectory
  | notDirectory
  | nameTooLong
  | nullByte
  /-- Any other failure, in the words of the system. -/
  | other (message : String)
deriving DecidableEq

/-- The message for a path. -/
def FileFault.message (path : String) : FileFault → String
  | .missing => "[Errno 2] No such file or directory: " ++ Text.quoted path
  | .isDirectory => "[Errno 21] Is a directory: " ++ Text.quoted path
  | .notDirectory => "[Errno 20] Not a directory: " ++ Text.quoted path
  | .nameTooLong => "[Errno 36] File name too long: " ++ Text.quoted path
  | .nullByte => "embedded null byte"
  | .other message => message

/-- Access to files. -/
structure FileAccess (m : Type → Type) where
  read : String → m (Except FileFault (List UInt8))
  write : String → String → m (Except FileFault Unit)
  /-- The directory that relative paths start from. -/
  directory : m String

/-- The parts of a path between its slashes. -/
def pathParts (path : String) : List String := path.splitOn "/"

/-- Adds a part to a path that is kept in reverse. A part of two dots takes the last one back,
unless there is none to take back and the path does not start at the root. -/
def addPart (fromRoot : Bool) (parts : List String) (part : String) : List String :=
  if part = "" || part = "." then parts
  else if part = ".." then
    match parts with
    | [] => if fromRoot then [] else [part]
    | last :: rest => if last = ".." then part :: parts else rest
  else part :: parts

/-- A path without empty parts and dots. Two slashes at the start, and no more, are kept. -/
def normalPath (path : String) : String :=
  let slashes := (path.toList.takeWhile (· == '/')).length
  let start := if slashes = 2 then "//" else if slashes = 0 then "" else "/"
  let parts := ((pathParts path).foldl (addPart (slashes != 0)) []).reverse
  let joined := start ++ "/".intercalate parts
  if joined = "" then "." else joined

/-- The path from the root of the system. -/
def absolutePath (directory path : String) : String :=
  if path.toList.head? = some '/' then normalPath path
  else if directory.toList.getLast? = some '/' then normalPath (directory ++ path)
  else normalPath (directory ++ "/" ++ path)

/-! ## Files in memory -/

/-- What stands at a path of a tree. -/
inductive FileEntry where
  | file (bytes : List UInt8)
  | directory
  /-- Takes everything that is written and gives nothing back. -/
  | sink

/-- A tree of files: what stands at each path from the root of the system, given by its parts, and
the directory that relative paths start from. -/
structure FileTree where
  entries : List (List String × FileEntry)
  directory : List String

namespace FileTree

/-- The directories that every system has at its root. -/
def rootDirectories : List String :=
  ["bin", "boot", "dev", "etc", "home", "lib", "media", "mnt", "opt", "proc", "root", "run", "sbin",
    "srv", "sys", "tmp", "usr", "var"]

/-- What every system has, and the given entries in the given directory. -/
def ofEntries (directory : List String) (entries : List (List String × FileEntry)) : FileTree where
  entries :=
    (directory, .directory) ::
      entries.map (fun (parts, entry) => (directory ++ parts, entry)) ++
      (["dev", "null"], .sink) :: rootDirectories.map fun name => ([name], .directory)
  directory := directory

/-- What stands at a place. The root, and every place on the way to another one, is a directory. -/
def find? (tree : FileTree) (place : List String) : Option FileEntry :=
  match tree.entries.lookup place with
  | some entry => some entry
  | none =>
    if place.isEmpty || tree.entries.any fun (other, _) => place.isPrefixOf other then
      some .directory
    else none

/-- A part of a path may have this many bytes. -/
def nameRoom : Nat := 255

/-- A path has to have fewer bytes than this. -/
def pathRoom : Nat := 4096

/-- The place of a name in a directory. -/
def child (place : List String) (name : String) : Except FileFault (List String) :=
  if nameRoom < name.utf8ByteSize then .error .nameTooLong else .ok (place ++ [name])

/-- Whether a part of a path is a name, and not one of the dots for the directory itself and for the
one above it. -/
def isName (part : String) : Bool := part != "." && part != ".."

/-- The directory to which dots lead. Above the root is the root. -/
def followDots (place : List String) (part : String) : List String :=
  if part = ".." then place.dropLast else place

/-- The directory to which a part of a path leads from another directory. -/
def enter (tree : FileTree) (place : List String) (part : String) :
    Except FileFault (List String) :=
  if isName part then do
    let place ← child place part
    match tree.find? place with
    | some .directory => return place
    | some _ => throw .notDirectory
    | none => throw .missing
  else .ok (followDots place part)

/-- The directory to which all parts of a path but the last lead, and the last if it is a name. A
path is not empty, has no null character and is not too long. -/
def locate (tree : FileTree) (path : String) : Except FileFault (List String × Option String) :=
  if path.toList.contains (Char.ofNat 0) then .error .nullByte
  else if pathRoom ≤ path.utf8ByteSize then .error .nameTooLong
  else if path = "" then .error .missing
  else do
    let start := if path.toList.head? = some '/' then [] else tree.directory
    let parts := (pathParts path).filter (· != "")
    let place ← parts.dropLast.foldlM tree.enter start
    match parts.getLast? with
    | none => return (place, none)
    | some last =>
      if isName last then return (place, some last) else return (followDots place last, none)

/-- Whether a path ends with a slash, so that only a directory can be meant. -/
def endsWithSlash (path : String) : Bool := path.toList.getLast? = some '/'

/-- The bytes of a file. -/
def read (tree : FileTree) (path : String) : Except FileFault (List UInt8) := do
  match ← tree.locate path with
  | (_, none) => throw .isDirectory
  | (place, some name) =>
    let place ← child place name
    match tree.find? place with
    | none => throw .missing
    | some .directory => throw .isDirectory
    | some (.file bytes) => if endsWithSlash path then throw .notDirectory else return bytes
    | some .sink => if endsWithSlash path then throw .notDirectory else return []

/-- The tree with a file put at a place. -/
def put (tree : FileTree) (place : List String) (bytes : List UInt8) : FileTree :=
  { tree with entries := (place, .file bytes) :: tree.entries.filter (·.1 != place) }

/-- Writes a file, anew if there is one. A path that ends with a slash is refused before its last
part is looked at. -/
def write (tree : FileTree) (path : String) (bytes : List UInt8) : Except FileFault FileTree := do
  match ← tree.locate path with
  | (_, none) => throw .isDirectory
  | (place, some name) =>
    if endsWithSlash path then throw .isDirectory
    let place ← child place name
    match tree.find? place with
    | some .directory => throw .isDirectory
    | some .sink => return tree
    | some (.file _) | none => return tree.put place bytes

/-- Access to a tree. -/
def access : FileAccess (StateM FileTree) where
  read path := do
    let tree ← get
    return tree.read path
  write path text := do
    let tree ← get
    match tree.write path text.toUTF8.toList with
    | .ok tree =>
      set tree
      return .ok ()
    | .error fault => return .error fault
  directory := do
    let tree ← get
    return "/" ++ "/".intercalate tree.directory

end FileTree

end TileScript.CommandLine
