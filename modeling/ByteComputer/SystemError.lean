/-!
# Errors of the surrounding system

Why a file could not be read or output could not be written. The wording is that of the system's
error numbers.
-/

namespace ByteComputer

inductive SystemError where
  | noSuchFile
  | notDirectory
  | isDirectory
  | noSpace
  | nameTooLong
  | nulInPath
  /-- A cause known by its text alone. -/
  | other (text : String)
  /-- A cause known by its text, with a further error behind it. -/
  | causedBy (text : String) (source : SystemError)
deriving DecidableEq, Repr

/-- The error that the system gives a number to. -/
def SystemError.ofNumber? : Nat → Option SystemError
  | 2 => some .noSuchFile
  | 20 => some .notDirectory
  | 21 => some .isDirectory
  | 28 => some .noSpace
  | 36 => some .nameTooLong
  | _ => none

def SystemError.message : SystemError → String
  | .noSuchFile => "No such file or directory (os error 2)"
  | .notDirectory => "Not a directory (os error 20)"
  | .isDirectory => "Is a directory (os error 21)"
  | .noSpace => "No space left on device (os error 28)"
  | .nameTooLong => "File name too long (os error 36)"
  | .nulInPath => "file name contained an unexpected NUL byte"
  | .other text => text
  | .causedBy text _ => text

/-- The text of an error and those of the errors behind it. -/
def SystemError.texts : SystemError → List String
  | .causedBy text source => text :: source.texts
  | e => [e.message]

end ByteComputer
