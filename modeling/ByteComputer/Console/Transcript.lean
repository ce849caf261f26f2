import ByteComputer.Console.Basic
import ByteComputer.Text.Blank
import ByteComputer.Text.Lines
import ByteComputer.Text.Utf8

/-!
# Transcripts

A console that keeps everything in memory and never fails. What was written can be looked at as
bytes, as text, or as the numbers that stand alone on a line of that text.
-/

namespace ByteComputer

structure Transcript where
  bytes : Array UInt8 := #[]
deriving DecidableEq

namespace Transcript

/-- The transcript in which nothing is written yet. -/
def empty : Transcript := {}

/-- The transcript with an output at its end. -/
def append (t : Transcript) (o : Output) : Transcript := ⟨t.bytes ++ o.bytes⟩

instance : Console Transcript where
  write t o := (t.append o, .ok ())
  flush t := (t, .ok ())

def chars (t : Transcript) : List Char := Utf8.lossy t.bytes.toList

/-- The bytes as text, with a replacement character for each part that is not UTF-8. -/
def text (t : Transcript) : String := String.ofList t.chars

/-- The values of the lines that, white space at both ends aside, are numerals of a byte. -/
def numbers (t : Transcript) : List UInt8 :=
  (Text.lines t.chars).filterMap fun line => Numeral.byte? 10 (Text.trim line)

@[simp] theorem toList_bytes_append (t : Transcript) (o : Output) :
    (t.append o).bytes.toList = t.bytes.toList ++ o.bytes := by
  simp [append]

end Transcript

end ByteComputer
