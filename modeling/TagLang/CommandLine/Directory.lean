import TagLang.Text.Quoted

/-!
# Files to read

What reading a file can lead to, and a directory of files as a plain value: its
files by name.  A path is walked part by part.  An empty part or a dot stays in
place, two dots lead to the directory above, and a slash in front starts at the
topmost one.  Of the directories above the given one only that they exist is
known: nothing is found in them by name.
-/

namespace TagLang.CommandLine

/-- Why a file cannot be read as text. -/
inductive ReadFault where
  /-- The system refused, with its error number, the kind of error and a message. -/
  | system (number : Nat) (kind message : String)
  /-- The file is not UTF-8. -/
  | notText
  deriving DecidableEq, Repr

namespace ReadFault

/-- There is no such file. -/
def notFound : ReadFault :=
  system 2 "NotFound" "No such file or directory"

/-- A part of the path is a file and has nothing in it. -/
def notADirectory : ReadFault :=
  system 20 "NotADirectory" "Not a directory"

/-- The path leads to a directory. -/
def isADirectory : ReadFault :=
  system 21 "IsADirectory" "Is a directory"

/-- The path or one of its parts has too many bytes. -/
def nameTooLong : ReadFault :=
  system 36 "InvalidFilename" "File name too long"

/-- A fault with its details. -/
def text : ReadFault → String
  | system number kind message =>
    "Os \x7b code: " ++ toString number ++ ", kind: " ++ kind ++ ", message: "
      ++ Text.quoted message ++ " \x7d"
  | notText =>
    "Error \x7b kind: InvalidData, message: \"stream did not contain valid UTF-8\" \x7d"

end ReadFault

/-- How paths are read. -/
abbrev FileSystem := String → Except ReadFault ByteArray

/-- A directory: the names of its files and what they hold.  Of two files with
one name the later counts. -/
abbrev Directory := List (String × ByteArray)

/-- The most bytes that one part of a path may have. -/
def maxPartBytes : Nat := 255

/-- The most bytes that a path may have. -/
def maxPathBytes : Nat := 4095

/-- What lies between the slashes of a path. -/
def pathParts (path : String) : List String :=
  path.splitOn "/"

/-- Whether a part of a path stays where the walk is. -/
def staysInPlace (part : String) : Bool :=
  part = "" || part = "."

/-- The names that lead to a file from the directory that holds it. -/
def fileParts (name : String) : List String :=
  (pathParts name).filter fun part => !staysInPlace part

/-- What a walk along a path has come to. -/
inductive Place where
  /-- The directory that these names lead to, from the given one. -/
  | inside (names : List String)
  /-- A directory above the given one. -/
  | above
  /-- A file and what it holds. -/
  | file (bytes : ByteArray)

namespace Place

/-- Where a walk along a path begins. -/
def start (path : String) : Place :=
  if path.startsWith "/" then above else inside []

/-- The same place, which has to be a directory. -/
def stay : Place → Except ReadFault Place
  | file _ => .error .notADirectory
  | place => .ok place

/-- The directory above a place.  The topmost one is above itself. -/
def parent : Place → Except ReadFault Place
  | file _ => .error .notADirectory
  | inside [] => .ok above
  | inside names => .ok (inside names.dropLast)
  | above => .ok above

/-- What a place holds, which has to be a file. -/
def contents : Place → Except ReadFault ByteArray
  | file bytes => .ok bytes
  | _ => .error .isADirectory

end Place

namespace Directory

/-- What stands under some names: a file, or the directory of a file further down. -/
def entry (directory : Directory) (names : List String) : Except ReadFault Place :=
  match directory.reverse.find? fun (name, _) => fileParts name = names with
  | some (_, bytes) => .ok (.file bytes)
  | none =>
    if directory.any fun (name, _) => names.isPrefixOf (fileParts name) then .ok (.inside names)
    else .error .notFound

/-- Looks up a name in a place, which has to be a directory. -/
def lookup (directory : Directory) (name : String) : Place → Except ReadFault Place
  | .file _ => .error .notADirectory
  | .inside names =>
    if maxPartBytes < name.utf8ByteSize then .error .nameTooLong
    else directory.entry (names ++ [name])
  | .above => .error (if maxPartBytes < name.utf8ByteSize then .nameTooLong else .notFound)

/-- Walks one part of a path. -/
def step (directory : Directory) (place : Place) (part : String) : Except ReadFault Place :=
  if staysInPlace part then place.stay
  else if part = ".." then place.parent
  else directory.lookup part place

/-- Reads a path in a directory. -/
def read (directory : Directory) : FileSystem := fun path =>
  if path = "" then .error .notFound
  else if maxPathBytes < path.utf8ByteSize then .error .nameTooLong
  else (pathParts path).foldlM directory.step (.start path) >>= Place.contents

end Directory

end TagLang.CommandLine
