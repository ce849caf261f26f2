import ByteComputer.Machine.Execute
import Mathlib.Algebra.Group.Nat.Defs

/-!
# The table of instructions

What each instruction does, as a table over the bytes of the opcodes. A machine is a handful of
numbers here, the arithmetic is that of the integers, and a result is reduced modulo 256 where it is
put into a cell, a register or the counter.

* `Numbers.next?`: the numbers after the instruction at the program counter; none if the byte there
  is not in the table.
* `Numbers.output?`: what the instruction writes.

That a step which succeeds is a line of the table is `Machine.step_eq_table`, in
`ByteComputer.Proofs.Table.Agreement`.
-/

namespace ByteComputer

/-- A machine as numbers. There are 256 cells and 8 registers, and zeros behind them. -/
@[ext]
structure Numbers where
  cell : Nat → Nat
  register : Nat → Nat
  /-- The flag register, of which the three lowest bits are less, greater and equal. -/
  flags : Nat
  pc : Nat
  halted : Bool
  steps : Nat

/-- The numbers that make up a machine. -/
def Machine.numbers (m : Machine) : Numbers where
  cell n := if n < 256 then (m.read n.toUInt8).toNat else 0
  register n := if h : n < 8 then (m.register ⟨n, h⟩).toNat else 0
  flags := m.registers.flags.bits.toNat
  pc := m.pc.toNat
  halted := m.state = .halted
  steps := m.steps

namespace Numbers

/-- An integer as a byte. -/
def wrap (v : Int) : Nat := (v % 256).toNat

/-- Puts an integer at a place. -/
def put (f : Nat → Nat) (place : Nat) (v : Int) : Nat → Nat :=
  fun n => if n = place then wrap v else f n

/-- The next instruction in memory, when the current one begins with the byte `k`. -/
def ahead (n : Numbers) (k : Nat) : Numbers :=
  { n with pc := wrap (n.pc + k / 64 + 1), steps := n.steps + 1 }

def goTo (n : Numbers) (target : Nat) : Numbers :=
  { n with pc := target, steps := n.steps + 1 }

/-- The value of a register becomes an integer. -/
def give (n : Numbers) (r : Nat) (v : Int) : Numbers := { n with register := put n.register r v }

/-- Moves the stack pointer down and puts an integer into the cell there. -/
def push (n : Numbers) (v : Int) : Numbers :=
  { n.give 7 (n.register 7 - 1 : Int) with cell := put n.cell (wrap (n.register 7 - 1)) v }

def equal (n : Numbers) : Bool := n.flags.testBit 0

def greater (n : Numbers) : Bool := n.flags.testBit 1

def less (n : Numbers) : Bool := n.flags.testBit 2

/-- The instruction that begins with the byte `k` and has the operand bytes `a` and `b`. -/
def line? (n : Numbers) (k a b : Nat) : Option Numbers :=
  let x := n.register a
  let y := n.register b
  let top := n.cell (n.register 7)
  let ahead := n.ahead k
  let jump (taken : Bool) := some (if taken then n.goTo x else ahead)
  match k with
  | 0x00 => some ahead
  | 0x01 => some { n with halted := true, steps := n.steps + 1 }
  | 0x11 => some ((n.give 7 (n.register 7 + 1 : Int)).goTo top)
  | 0x45 => some (ahead.push x)
  | 0x46 => let popped := ahead.give a top; some (popped.give 7 (popped.register 7 + 1 : Int))
  | 0x47 => some ahead
  | 0x48 => some ahead
  | 0x50 => some ((n.push (n.pc + 2 : Int)).goTo x)
  | 0x54 => jump true
  | 0x55 => jump n.equal
  | 0x56 => jump (!n.equal)
  | 0x57 => jump n.greater
  | 0x58 => jump n.less
  | 0x59 => jump (n.less || n.equal)
  | 0x5A => jump (n.greater || n.equal)
  | 0x65 => some (ahead.give a (x + 1 : Int))
  | 0x66 => some (ahead.give a (x - 1 : Int))
  | 0x69 => some (ahead.give a (255 - x : Int))
  | 0x82 => some (ahead.give a b)
  | 0x83 => some (ahead.give a (n.cell y))
  | 0x84 => some { ahead with cell := put n.cell x y }
  | 0xA0 => some (ahead.give a (x + y : Int))
  | 0xA1 => some (ahead.give a (x - y : Int))
  | 0xA2 => some (ahead.give a (x * y : Int))
  | 0xA3 => some (if y = 0 then ahead else ahead.give a (x / y : Nat))
  | 0xA4 => some (if y = 0 then ahead else ahead.give a (x % y : Nat))
  | 0xA7 => some { ahead with flags := if x < y then 0b100 else if x = y then 0b001 else 0b010 }
  | 0xA8 => some (ahead.give a (x &&& y : Nat))
  | 0xAA => some (ahead.give a (x ||| y : Nat))
  | 0xAB => some (ahead.give a (x ^^^ y : Nat))
  | 0xAC => some (ahead.give a (x * 2 ^ y : Nat))
  | 0xAD => some (ahead.give a (x / 2 ^ y : Nat))
  | _ => none

/-- The byte at a distance from the program counter. -/
def fetch (n : Numbers) (distance : Nat) : Nat := n.cell ((n.pc + distance) % 256)

/-- The numbers after the instruction at the program counter. -/
def next? (n : Numbers) : Option Numbers := n.line? (n.fetch 0) (n.fetch 1) (n.fetch 2)

/-- What the instruction at the program counter writes. Whether a halt writes the first register is
a matter of setting. -/
def output? (n : Numbers) (echo : Bool) : Option Output :=
  let x := n.register (n.fetch 1)
  match n.fetch 0 with
  | 0x01 => if echo then some (.number (n.register 0).toUInt8) else none
  | 0x47 => some (.number x.toUInt8)
  | 0x48 => some (.char x.toUInt8)
  | _ => none

end Numbers

end ByteComputer
