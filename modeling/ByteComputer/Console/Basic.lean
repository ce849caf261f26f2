import ByteComputer.SystemError
import ByteComputer.Text.Numeral

/-!
# Consoles

Where the output of a machine goes. The machine hands its console one `Output` at a time and asks
it to flush at the end of a run; both can fail, and a console may change even when it fails.
-/

namespace ByteComputer

inductive Output where
  /-- A value in decimal, on a line of its own. -/
  | number (value : UInt8)
  /-- A value as a single byte of text. -/
  | char (value : UInt8)
deriving DecidableEq, Repr

def lineFeed : UInt8 := 10

/-- The decimal digits of a value as bytes. -/
def Output.digits (value : UInt8) : List UInt8 :=
  (Numeral.decimal value.toNat).map Char.toUInt8

def Output.bytes : Output → List UInt8
  | .number value => Output.digits value ++ [lineFeed]
  | .char value => [value]

/-- Types whose values can take a machine's output. -/
class Console (κ : Type) where
  /-- Writes an output: the console afterwards, and whether it was written. -/
  write : κ → Output → κ × Except SystemError Unit
  /-- Passes on what was held back: the console afterwards, and whether that worked. -/
  flush : κ → κ × Except SystemError Unit

end ByteComputer
