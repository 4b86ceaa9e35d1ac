/-!
# File systems

A tree of folders and files as the command line sees it. Files are reached by paths with `/` between
names, which begin in the working folder or, after a slash, in the topmost one. A location is the
list of names that leads to a file or folder: from the working folder, up from it by `..`, or down
from the topmost folder `/`. What lies outside the working folder is taken to be empty folders.
Names and paths have a greatest length in bytes, and nothing can be reached by a longer one.

Reading and writing either succeed or change nothing. They may also be refused where the tree of
files would allow them.
-/

namespace SoftMenu

/-- The names that lead to a file or folder. -/
abbrev Location := List String

/-- What stands at a location. -/
inductive FileEntry where
  /-- A file and its bytes. -/
  | file (content : ByteArray)
  /-- A folder. -/
  | folder

/-- Files are compared byte by byte. -/
instance : DecidableEq FileEntry
  | .file first, .file second =>
    match ByteArray.instDecidableEq first second with
    | isTrue h => isTrue (congrArg FileEntry.file h)
    | isFalse h => isFalse fun hfile => h (FileEntry.file.inj hfile)
  | .file _, .folder => isFalse nofun
  | .folder, .file _ => isFalse nofun
  | .folder, .folder => isTrue rfl

/-- Why a file cannot be read or written. -/
inductive FileFault where
  /-- There is no such file, or a folder on the way to it is missing. -/
  | notFound
  /-- Something on the way to the file is not a folder. -/
  | notFolder
  /-- The path leads to a folder. -/
  | isFolder
  /-- The path, or a name in it, is too long. -/
  | nameTooLong
  /-- The bytes are not UTF-8 text. -/
  | notText
  /-- Any other reason, in the words of the system. -/
  | other (reason : String)
deriving DecidableEq, Repr

/-- The wording of a fault. -/
def FileFault.message : FileFault → String
  | .notFound => "No such file or directory (os error 2)"
  | .notFolder => "Not a directory (os error 20)"
  | .isFolder => "Is a directory (os error 21)"
  | .nameTooLong => "File name too long (os error 36)"
  | .notText => "stream did not contain valid UTF-8"
  | .other reason => reason

/-- The files and folders that have been made. -/
structure FileSystem where
  /-- What stands at each location; of two entries for one location the first counts. -/
  entries : List (Location × FileEntry) := []
  /-- Why the file that a path leads to cannot be read, if reading is refused: a lack of rights, a
  fault of the disk. -/
  readRefusal : String → Option FileFault := fun _ => none
  /-- Why the file that a path leads to cannot be written, if writing is refused. -/
  writeRefusal : String → Option FileFault := fun _ => none

/-- Cuts characters at every slash; there is always at least one piece. -/
def splitSlashes : List Char → List (List Char)
  | [] => [[]]
  | c :: cs =>
    if c = '/' then [] :: splitSlashes cs
    else match splitSlashes cs with
      | [] => [[c]]
      | piece :: pieces => (c :: piece) :: pieces

/-- The names of a path between its slashes. -/
def pathNames (path : String) : List String := (splitSlashes path.toList).map String.ofList

namespace Location

/-- The location of the folder that a folder lies in. The topmost folder lies in itself. -/
def parent (folder : Location) : Location :=
  match folder.getLast? with
  | none | some ".." => folder ++ [".."]
  | some "/" => folder
  | some _ => folder.dropLast

/-- The location that a name leads to from a folder. -/
def enter (folder : Location) (name : String) : Location :=
  if name = "" || name = "." then folder
  else if name = ".." then folder.parent
  else folder ++ [name]

/-- Whether a folder is always there: the working folder, one above it, or the topmost one. -/
def isStanding (location : Location) : Bool := location.all (· = "..") || location = ["/"]

/-- Whether a location lies in the working folder. -/
def isLocal (location : Location) : Bool := location.head? ≠ some ".." && location.head? ≠ some "/"

end Location

/-- The greatest length of a name in bytes. -/
def nameLimit : Nat := 255

/-- The greatest length of a path in bytes. -/
def pathLimit : Nat := 4095

/-- Refuses a text that is longer than a limit. -/
def requireLength (limit : Nat) (text : String) : Except FileFault Unit :=
  if limit < text.utf8ByteSize then .error .nameTooLong else .ok ()

namespace FileSystem

/-- What stands at a location. -/
def entryAt? (files : FileSystem) (location : Location) : Option FileEntry :=
  if location.isStanding then some .folder else files.entries.lookup location

/-- Whether a location is a folder, or why nothing can be reached through it. -/
def requireFolder (files : FileSystem) (location : Location) : Except FileFault Unit :=
  match files.entryAt? location with
  | some .folder => .ok ()
  | some (.file _) => .error .notFolder
  | none => .error .notFound

/-- Follows names from a location; every name but the last must lead to a folder. -/
def follow (files : FileSystem) (location : Location) : List String → Except FileFault Location
  | [] => .ok location
  | name :: names => do
    files.requireFolder location
    requireLength nameLimit name
    files.follow (location.enter name) names

/-- Where a path begins, and the names that it goes on with. -/
def startOf (path : String) : Except FileFault (Location × List String) := do
  requireLength pathLimit path
  return (if path.toList.head? = some '/' then ["/"] else [], pathNames path)

/-- The location that a path leads to, which need not hold anything. -/
def resolve (files : FileSystem) (path : String) : Except FileFault Location := do
  let (start, names) ← startOf path
  files.follow start names

/-- Goes on unless there is a refusal. -/
def permit (refusal : Option FileFault) : Except FileFault Unit :=
  match refusal with
  | some fault => .error fault
  | none => .ok ()

/-- Reads the bytes of a file. -/
def readBytes (files : FileSystem) (path : String) : Except FileFault ByteArray := do
  match files.entryAt? (← files.resolve path) with
  | some (.file content) =>
    permit (files.readRefusal path)
    return content
  | some .folder => .error .isFolder
  | none => .error .notFound

/-- The text of some bytes. -/
def decodeText (content : ByteArray) : Except FileFault String :=
  match String.fromUTF8? content with
  | some text => .ok text
  | none => .error .notText

/-- Reads a text file. -/
def readText (files : FileSystem) (path : String) : Except FileFault String := do
  decodeText (← files.readBytes path)

/-- The location of a file with the given name in a folder, if the path can be written to. -/
def targetIn (files : FileSystem) (path : String) (folder : Location) (name : String) :
    Except FileFault Location := do
  requireLength nameLimit name
  match files.entryAt? (folder ++ [name]) with
  | some .folder => throw .isFolder
  | _ =>
    permit (files.writeRefusal path)
    return folder ++ [name]

/-- The location that a file would be written to by a path. A path that ends in a slash or in a name
that stands for a folder cannot be written to. -/
def writeTarget (files : FileSystem) (path : String) : Except FileFault Location := do
  let (start, names) ← startOf path
  let proper := (names.reverse.dropWhile (· = "")).reverse
  let folder ← files.follow start proper.dropLast
  files.requireFolder folder
  match proper.getLast? with
  | none => throw .isFolder
  | some name =>
    if proper.length < names.length || name = "." || name = ".." then throw .isFolder
    else files.targetIn path folder name

/-- Puts an entry at a location, in place of what was there. -/
def put (files : FileSystem) (location : Location) (entry : FileEntry) : FileSystem :=
  { files with
    entries := (location, entry) :: files.entries.filter fun other => other.1 ≠ location }

/-- Writes a text file. -/
def writeText (files : FileSystem) (path text : String) : Except FileFault FileSystem := do
  return files.put (← files.writeTarget path) (.file text.toUTF8)

/-! ## Building file systems -/

/-- Makes the folders on the way from a location along some names, and gives the location that the
names lead to. -/
def makeFolders (files : FileSystem) (location : Location) :
    List String → FileSystem × Location
  | [] => (files, location)
  | name :: names =>
    let next := location.enter name
    let files := if (files.entryAt? next).isSome then files else files.put next .folder
    files.makeFolders next names

/-- Makes a folder and those on the way to it. -/
def addFolder (files : FileSystem) (path : String) : FileSystem :=
  (files.makeFolders [] (pathNames path)).1

/-- Makes a file and the folders on the way to it. -/
def addFile (files : FileSystem) (path : String) (content : ByteArray) : FileSystem :=
  let names := pathNames path
  let (files, folder) := files.makeFolders [] names.dropLast
  files.put (folder.enter (names.getLast?.getD "")) (.file content)

/-- The files in the working folder that differ from those of an earlier file system, by path. -/
def changedFiles (files before : FileSystem) : List (String × ByteArray) :=
  files.entries.filterMap fun (location, entry) =>
    match entry with
    | .file content =>
      if !location.isLocal || before.entryAt? location = some entry then none
      else some ("/".intercalate location, content)
    | .folder => none

end FileSystem

end SoftMenu
