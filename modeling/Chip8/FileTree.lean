import Chip8.Text.Numeral

/-!
Files and directories as a tree, and what a path names in it. A path is walked
name by name from the working directory, or from the root if it begins with a
slash, and the first name that cannot be followed decides the fault. Only a file
can be read.
-/

namespace Chip8

inductive FileFault
  | notFound
  | permissionDenied
  | notDirectory
  | isDirectory
  | nameTooLong
  | other (code : Nat) (message : String)
  deriving DecidableEq, Repr

namespace FileFault

def code : FileFault → Nat
  | .notFound => 2
  | .permissionDenied => 13
  | .notDirectory => 20
  | .isDirectory => 21
  | .nameTooLong => 36
  | .other code _ => code

def kind : FileFault → String
  | .notFound => "NotFound"
  | .permissionDenied => "PermissionDenied"
  | .notDirectory => "NotADirectory"
  | .isDirectory => "IsADirectory"
  | .nameTooLong => "InvalidFilename"
  | .other _ _ => "Uncategorized"

def message : FileFault → String
  | .notFound => "No such file or directory"
  | .permissionDenied => "Permission denied"
  | .notDirectory => "Not a directory"
  | .isDirectory => "Is a directory"
  | .nameTooLong => "File name too long"
  | .other _ message => message

/-- The fault with a number; `message` is kept where the number has no name. -/
def ofCode (number : Nat) (message : String) : FileFault :=
  ([.notFound, .permissionDenied, .notDirectory, .isDirectory, .nameTooLong].find?
    fun fault => fault.code == number).getD (.other number message)

def record (fault : FileFault) : String :=
  "IoError(Os \x7b code: " ++ Text.decimal ' ' 1 fault.code ++ ", kind: " ++ fault.kind ++
    ", message: \"" ++ fault.message ++ "\" \x7d)"

end FileFault

inductive Entry
  | file (contents : List UInt8)
  | directory (entries : List (String × Entry))
  deriving Repr

/-- Where a walk has come to: a file, or a directory with the directories above
it, the nearest first. -/
inductive Place
  | file (contents : List UInt8)
  | directory (entries : List (String × Entry)) (above : List (List (String × Entry)))
  deriving Repr

namespace Place

def longestName : Nat := 255

def longestPath : Nat := 4095

/-- The place that one name of a path leads to. An empty name, as beside a doubled
or trailing slash, stays in its directory, and the root is above itself. -/
def follow : Place → String → Except FileFault Place
  | .file _, _ => .error .notDirectory
  | .directory entries above, name =>
      if name = "" ∨ name = "." then .ok (.directory entries above)
      else if name = ".." then
        match above with
        | [] => .ok (.directory entries [])
        | parent :: higher => .ok (.directory parent higher)
      else if longestName < name.utf8ByteSize then .error .nameTooLong
      else
        match entries.lookup name with
        | none => .error .notFound
        | some (.file contents) => .ok (.file contents)
        | some (.directory inner) => .ok (.directory inner (entries :: above))

def root : Place → Place
  | .file contents => .file contents
  | .directory entries above => .directory (above.getLastD entries) []

def walk (place : Place) (path : String) : Except FileFault Place :=
  if path = "" then .error .notFound
  else if longestPath < path.utf8ByteSize then .error .nameTooLong
  else
    let start := if path.startsWith "/" then place.root else place
    (path.splitOn "/").foldlM follow start

def contents : Place → Except FileFault (List UInt8)
  | .file contents => .ok contents
  | .directory _ _ => .error .isDirectory

def fileNamed (place : Place) (path : String) : Except FileFault (List UInt8) :=
  (place.walk path).bind contents

end Place

end Chip8
