import ByteComputer.Console.Limited
import ByteComputer.Console.Transcript

/-!
# Consoles that keep books

What is known of a console from the outside: the bytes that it has taken, and how many more writes
it takes. A console that has no limit never fails; one that has a limit fails every write beyond it
and takes nothing of what it fails.

* `Ledger`: an account of the consoles of a type, with the laws that make it one.
* `Ledger.transcript`, `Ledger.limited`: transcripts never fail, and consoles that fail after a
  number of writes keep the books of the console inside.
-/

namespace ByteComputer

/-- An account of the bytes on a console, and of the writes that it still takes; without a number it
takes all of them. -/
structure Ledger (κ : Type) [Console κ] where
  Shows : κ → List UInt8 → Option Nat → Prop
  taken : ∀ {c bytes left} (o : Output), Shows c bytes left → left ≠ some 0 →
    ∃ d, Console.write c o = (d, .ok ()) ∧ Shows d (bytes ++ o.bytes) (left.map (· - 1))
  refused : ∀ {c bytes} (o : Output), Shows c bytes (some 0) →
    ∃ d e, Console.write c o = (d, .error e) ∧ Shows d bytes (some 0)
  flushed : ∀ {c bytes left}, Shows c bytes left →
    ∃ d, Console.flush c = (d, .ok ()) ∧ Shows d bytes left

namespace Ledger

def transcript : Ledger Transcript where
  Shows t bytes left := t.bytes.toList = bytes ∧ left = none
  taken := by
    rintro t bytes left o ⟨rfl, rfl⟩ -
    exact ⟨t.append o, rfl, t.toList_bytes_append o, rfl⟩
  refused := by
    rintro t bytes o ⟨-, hleft⟩
    cases hleft
  flushed := fun h => ⟨_, rfl, h⟩

variable {κ : Type} [Console κ]

/-- The books of a console whose writes fail after a number of them, and whose flushes do not. -/
def limited (ledger : Ledger κ) : Ledger (Limited κ) where
  Shows c bytes left :=
    ledger.Shows c.inner bytes none ∧ c.writesLeft = left ∧ c.flushError? = none
  taken := by
    rintro c bytes left o ⟨hinner, rfl, hflush⟩ hleft
    obtain ⟨d, hwrite, hd⟩ := ledger.taken o hinner nofun
    refine ⟨{ c with inner := d, writesLeft := c.writesLeft.map (· - 1) }, ?_, hd, rfl, hflush⟩
    show Limited.write c o = _
    simp only [Limited.write, if_neg hleft, hwrite]
  refused := by
    rintro c bytes o ⟨hinner, hleft, hflush⟩
    exact ⟨c, c.writeError, if_pos hleft, hinner, hleft, hflush⟩
  flushed := by
    rintro c bytes left ⟨hinner, rfl, hflush⟩
    obtain ⟨d, hinnerFlush, hd⟩ := ledger.flushed hinner
    refine ⟨{ c with inner := d }, ?_, hd, rfl, hflush⟩
    show Limited.flush c = _
    simp only [Limited.flush, hflush, hinnerFlush]

end Ledger

end ByteComputer
