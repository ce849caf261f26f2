/-!
# Numerals

Unsigned numbers in a base of at most ten. A numeral is one or more digits, most significant
first, after at most one plus sign; leading zeros count for nothing. `Numeral.byte?` accepts those
whose value fits into a byte.
-/

namespace ByteComputer.Numeral

/-! ## Writing -/

/-- The decimal digits of a number, without leading zeros. -/
def decimal (n : Nat) : List Char := Nat.toDigits 10 n

/-! ## Reading -/

/-- The value of a digit of the given base. -/
def digit? (base : Nat) (c : Char) : Option Nat :=
  if c.isDigit ∧ c.toNat - 48 < base then some (c.toNat - 48) else none

/-- The value of a sequence of digits; the empty sequence counts as zero. -/
def value? (base : Nat) (ds : List Char) : Option Nat :=
  ds.foldlM (fun n c => (digit? base c).map (base * n + ·)) 0

/-- Drops one leading plus sign. -/
def unsigned : List Char → List Char
  | '+' :: cs => cs
  | cs => cs

/-- The value of a numeral, if it is one and fits into a byte. -/
def byte? (base : Nat) (cs : List Char) : Option UInt8 :=
  match unsigned cs with
  | [] => none
  | d :: ds => do
    let n ← value? base (d :: ds)
    if n < 256 then some n.toUInt8 else none

end ByteComputer.Numeral
