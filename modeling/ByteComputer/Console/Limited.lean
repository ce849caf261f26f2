import ByteComputer.Console.Basic

/-!
# Consoles that fail

A console of which only the first few writes succeed, or no flush does. What fails leaves the
console inside untouched.
-/

namespace ByteComputer

structure Limited (κ : Type) where
  inner : κ
  /-- How many more writes succeed; without a number all of them do. -/
  writesLeft : Option Nat := none
  writeError : SystemError := .noSpace
  /-- What every flush fails with, if it does. -/
  flushError? : Option SystemError := none

namespace Limited

variable {κ : Type} [Console κ]

def write (c : Limited κ) (o : Output) : Limited κ × Except SystemError Unit :=
  if c.writesLeft = some 0 then (c, .error c.writeError)
  else
    let (inner, result) := Console.write c.inner o
    ({ c with inner, writesLeft := c.writesLeft.map (· - 1) }, result)

/-- Flushes the console inside, unless flushing fails. -/
def flush (c : Limited κ) : Limited κ × Except SystemError Unit :=
  match c.flushError? with
  | some e => (c, .error e)
  | none =>
    let (inner, result) := Console.flush c.inner
    ({ c with inner }, result)

instance : Console (Limited κ) where
  write := write
  flush := flush

end Limited

end ByteComputer
