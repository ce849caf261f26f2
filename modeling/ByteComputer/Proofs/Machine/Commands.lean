import ByteComputer.Proofs.Console.Behaviour
import Mathlib.Data.List.Forall2

/-!
# Commands

A machine seen from outside: it is put to commands, and of each is seen what the machine answers, what
it asks of the console, and what it adds to the log.

* `Machine.replies`: the replies of a machine to commands one after the other.
* `Machine.Indistinguishable`: machines whose replies are the same, also on consoles that are not the
  same but behave alike. So is a machine and itself (`Machine.indistinguishable_self`).
-/

namespace ByteComputer

/-- An operation with the console that it is carried out on, and a bound on the steps of a run. -/
structure Command where
  {κ : Type}
  [isConsole : Console κ]
  operation : Operation
  console : κ
  fuel : Nat := 0

attribute [instance] Command.isConsole

/-- The two commands are the same, up to consoles that behave alike. -/
structure Command.Alike (a b : Command) : Prop where
  operation : a.operation = b.operation
  console : Console.BehavesAs a.console b.console
  fuel : a.fuel = b.fuel

/-- What is seen of an operation from outside. -/
structure Reply where
  result : Except Fault State
  calls : List Call
  log : List Log.Entry
deriving DecidableEq

/-- The bytes that an operation writes. -/
def Reply.bytes (r : Reply) : List UInt8 :=
  r.calls.flatMap fun
    | .write o => o.bytes
    | .flush => []

/-- The bytes of some writes and a flush behind them. -/
theorem Reply.bytes_map_write (result : Except Fault State) (os : List Output)
    (log : List Log.Entry) :
    Reply.bytes ⟨result, os.map .write ++ [.flush], log⟩ = os.flatMap Output.bytes := by
  simp [bytes, List.flatMap_map]

/-- The reply that a transition gives, and the machine that it leaves. -/
def Transition.shown {κ : Type} (t : Transition (Recorded κ)) : Reply × Machine :=
  (⟨t.result, t.console.calls, t.log⟩, t.machine)

/-- Transitions that match look the same. -/
theorem map_shown_of_matches {κ ι : Type} [Console κ] [Console ι]
    {x : Option (Transition (Recorded κ))} {y : Option (Transition (Recorded ι))}
    (h : Option.Rel Transition.Matches x y) :
    x.map Transition.shown = y.map Transition.shown := by
  cases h with
  | none => rfl
  | some h =>
    simp only [Option.map_some, Transition.shown, h.result, h.machine, h.log, h.console.calls]

namespace Machine

/-- The reply to a command and the machine afterwards, if a run ends within the bound. -/
def reply (m : Machine) (cmd : Command) : Option (Reply × Machine) :=
  (m.apply cmd.fuel (⟨cmd.console, []⟩ : Recorded cmd.κ) cmd.operation).map Transition.shown

/-- The replies to commands one after the other, and the machine after the last. -/
def replies (m : Machine) : List Command → Option (List Reply × Machine)
  | [] => some ([], m)
  | cmd :: cmds =>
    match m.reply cmd with
    | none => none
    | some (reply, next) => (next.replies cmds).map fun (rest, last) => (reply :: rest, last)

theorem replies_cons {m n last : Machine} {cmd : Command} {cmds : List Command} {reply : Reply}
    {replies : List Reply} (hreply : m.reply cmd = some (reply, n))
    (hreplies : n.replies cmds = some (replies, last)) :
    m.replies (cmd :: cmds) = some (reply :: replies, last) := by
  simp only [Machine.replies, hreply, hreplies, Option.map_some]

/-- Nothing that can be asked of the two machines tells them apart. -/
def Indistinguishable (m n : Machine) : Prop :=
  ∀ cmds cmds', List.Forall₂ Command.Alike cmds cmds' → m.replies cmds = n.replies cmds'

theorem reply_alike (m : Machine) {a b : Command} (h : a.Alike b) : m.reply a = m.reply b := by
  have hsame := m.apply_matches a.fuel a.operation
    (r := ⟨a.console, []⟩) (s := ⟨b.console, []⟩) ⟨rfl, h.console⟩
  rw [reply, reply, ← h.operation, ← h.fuel]
  exact map_shown_of_matches hsame

/-- A machine does not tell consoles apart that behave alike. -/
theorem indistinguishable_self (m : Machine) : m.Indistinguishable m := by
  intro cmds cmds' h
  induction h generalizing m with
  | nil => rfl
  | cons hcmd _ ih =>
    simp only [replies, reply_alike m hcmd]
    split
    · rfl
    · rw [ih]

end Machine

end ByteComputer
