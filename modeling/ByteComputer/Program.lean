import ByteComputer.Memory
import ByteComputer.SystemError
import ByteComputer.Text.Blank
import ByteComputer.Text.Lines
import ByteComputer.Text.Numeral
import ByteComputer.Text.Utf8

/-!
# Program text

A program is written with one byte on a line, as a binary numeral. What follows a `#` on a line is
a comment, white space around the numeral counts for nothing, and a line without a numeral is
skipped. A line with anything else makes the text unreadable, and the first such line is the one
reported; only a text without one can be too long.
-/

namespace ByteComputer

inductive LoadError where
  | notFound (path : String)
  | unreadable (path : String) (cause : SystemError)
  /-- The file does not hold UTF-8. -/
  | notText (path : String)
  /-- A line, counted from one, holds neither a byte nor nothing. -/
  | badLiteral (line : Nat) (text : String)
  | tooLarge (size : Nat)
deriving DecidableEq, Repr

namespace LoadError

def message : LoadError → String
  | notFound path => path ++ " file not found"
  | unreadable path _ => "failed to read " ++ path
  | notText path => path ++ " is not a text file"
  | badLiteral line text =>
    "line " ++ toString line ++ ": '" ++ text ++ "' is not an 8-bit binary literal"
  | tooLarge size =>
    "program is " ++ toString size ++ " bytes but memory holds " ++ toString Memory.size

def cause? : LoadError → Option SystemError
  | unreadable _ cause => some cause
  | _ => none

end LoadError

namespace Program

/-- The code on a line: what stands before the first `#`, without white space around it. -/
def code (line : List Char) : List Char := Text.trim (line.takeWhile (· ≠ '#'))

/-- The byte on the line with the given number, if there is any code on it. -/
def readLine (number : Nat) (line : List Char) : Except LoadError (Option UInt8) :=
  match code line with
  | [] => .ok none
  | c :: cs =>
    match Numeral.byte? 2 (c :: cs) with
    | some b => .ok (some b)
    | none => .error (.badLiteral number (String.ofList (c :: cs)))

/-- The bytes of a program, from its text. -/
def parse (text : List Char) : Except LoadError (List UInt8) := do
  let found ← ((Text.lines text).zipIdx 1).mapM fun (line, number) => readLine number line
  let program := found.filterMap id
  if program.length ≤ Memory.size then return program else throw (.tooLarge program.length)

/-- The bytes of a program, from what reading its file gave. -/
def ofFile (path : String) (contents : Except SystemError (List UInt8)) :
    Except LoadError (List UInt8) :=
  match contents with
  | .error .noSuchFile => .error (.notFound path)
  | .error cause => .error (.unreadable path cause)
  | .ok bytes =>
    match Utf8.decode? bytes with
    | some text => parse text
    | none => .error (.notText path)

end Program

end ByteComputer
