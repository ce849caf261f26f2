/-!
# Hexadecimal text

A byte is written as two upper-case digits, the high half first. `Hex.byte?_byte` says that the
two digits give the byte back, so equal texts come from equal bytes.
-/

namespace ByteComputer.Hex

/-! ## Writing -/

/-- The upper-case digit for a value below sixteen. -/
def digit (n : Nat) : Char :=
  if n < 10 then Char.ofNat (48 + n) else Char.ofNat (55 + n)

def high (b : UInt8) : Char := digit (b.toNat / 16)

def low (b : UInt8) : Char := digit (b.toNat % 16)

def byte (b : UInt8) : String := String.ofList [high b, low b]

/-- The digits of a sequence of bytes, with nothing between them. -/
def bytes (bs : List UInt8) : String :=
  String.ofList (bs.flatMap fun b => [high b, low b])

/-! ## Reading -/

def digit? (c : Char) : Option Nat :=
  if 48 ≤ c.toNat ∧ c.toNat ≤ 57 then some (c.toNat - 48)
  else if 65 ≤ c.toNat ∧ c.toNat ≤ 70 then some (c.toNat - 55)
  else none

/-- The byte that two digits stand for. -/
def byte? (h l : Char) : Option UInt8 := do
  return (16 * (← digit? h) + (← digit? l)).toUInt8

/-- The bytes of a text with two digits for each of them. -/
def bytes? : List Char → Option (List UInt8)
  | [] => some []
  | [_] => none
  | h :: l :: cs => do return (← byte? h l) :: (← bytes? cs)

theorem digit?_digit {n : Nat} (hn : n < 16) : digit? (digit n) = some n := by
  have key : ∀ k : Fin 16, digit? (digit k.val) = some k.val := by decide
  exact key ⟨n, hn⟩

theorem byte?_byte (b : UInt8) : byte? (high b) (low b) = some b := by
  have hb : b.toNat < 256 := b.toNat_lt
  have hh : digit? (high b) = some (b.toNat / 16) := digit?_digit (by omega)
  have hl : digit? (low b) = some (b.toNat % 16) := digit?_digit (by omega)
  simp only [byte?, hh, hl, Option.bind_eq_bind, Option.bind_some, Option.pure_def,
    Nat.div_add_mod, Nat.toUInt8_eq, UInt8.ofNat_toNat]

end ByteComputer.Hex
