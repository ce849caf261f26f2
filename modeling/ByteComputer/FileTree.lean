import ByteComputer.SystemError
import ByteComputer.Text.Lines

/-!
# File trees

Reading a file by its path. A path is followed name by name: every name but the last has to lead
to a directory, `.` stays where it is and `..` goes back up. A path that ends in `/` has to lead to
a directory too, as if it ended in `/.`. Above the directory that paths start from nothing is known.
-/

namespace ByteComputer

inductive FileTree where
  | file (bytes : List UInt8)
  | directory (entries : List (String × FileTree))

namespace FileTree

/-- The longest path, in bytes. -/
def maxPath : Nat := 4095

/-- The longest name within a path, in bytes. -/
def maxName : Nat := 255

/-- The names along a path. Separators in a row count once. -/
def names (path : String) : List String :=
  let parts := (Text.pieces '/' path.toList).map String.ofList
  let ended := if parts.getLast? = some "" then ["."] else []
  parts.filter (· ≠ "") ++ ended

/-- Follows names from a place. The place is given with the directories above it, itself first;
above the last of them there is an empty directory. -/
def walk (here : List FileTree) : List String → Except SystemError FileTree
  | [] => .ok (here.headD (directory []))
  | name :: rest =>
    match here.headD (directory []) with
    | file _ => .error .notDirectory
    | directory entries =>
      if name = "." then walk here rest
      else if name = ".." then walk here.tail rest
      else if maxName < name.utf8ByteSize then .error .nameTooLong
      else
        match entries.lookup name with
        | none => .error .noSuchFile
        | some found => walk (found :: here) rest

/-- What a path leads to. A path that starts with `/` starts above all that is known. -/
def find (root : FileTree) (path : String) : Except SystemError FileTree :=
  if path.contains (Char.ofNat 0) then .error .nulInPath
  else if path = "" then .error .noSuchFile
  else if maxPath < path.utf8ByteSize then .error .nameTooLong
  else walk (if path.startsWith "/" then [] else [root]) (names path)

/-- The contents of the file that a path leads to. -/
def read (root : FileTree) (path : String) : Except SystemError (List UInt8) :=
  match root.find path with
  | .ok (file bytes) => .ok bytes
  | .ok (directory _) => .error .isDirectory
  | .error e => .error e

end FileTree

end ByteComputer
