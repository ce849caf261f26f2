import ByteComputer.Console.Transcript
import ByteComputer.Proofs.Cycle.Loading
import ByteComputer.Proofs.Machine.Commands
import ByteComputer.Proofs.Machine.Loading
import ByteComputer.Proofs.StackFloor

/-!
# Loading and resetting forget

What has happened to a machine before a program is loaded, or before it is reset, does not matter
afterwards.

* `Machine.reset_eq_reset_iff`: what a reset keeps.
* `Machine.load_of_history`: a program that is loaded comes into the machine that it would come into
  at power-on.
* `Machine.Fresh.reset_of_run`: what it takes to begin a run again.
* `Machine.history_erased`: machines that have forgotten cannot be told apart, and a run that leaves
  the memory as it was can be repeated.
-/

namespace ByteComputer.Machine

/-! ## Fresh machines -/

/-- The machine is as a load or a reset has left it. -/
inductive Fresh : Machine → Prop
  | loaded {origin fresh : Machine} {program : List UInt8} (hload : origin.load program = .ok fresh) :
      Fresh fresh
  | reset (origin : Machine) : Fresh origin.reset

variable {m n fresh : Machine} {program : List UInt8}

theorem Fresh.reset_eq (h : fresh.Fresh) : fresh.reset = fresh := by
  cases h with
  | loaded hload =>
    obtain ⟨memory, -, rfl⟩ := load_eq_ok_iff.1 hload
    rfl
  | reset origin => rfl

/-- A reset keeps the memory, the stack floor and the configuration, and nothing else. -/
theorem reset_eq_reset_iff : m.reset = n.reset ↔ m.memory = n.memory ∧ m.SameFrame n := by
  constructor
  · intro h
    have hmemory := congrArg Machine.memory h
    have hfloor := congrArg Machine.stackFloor h
    have hconfig := congrArg Machine.config h
    exact ⟨hmemory, hfloor.symm, hconfig.symm⟩
  · rintro ⟨hmemory, hfloor, hconfig⟩
    simp only [Machine.reset, hmemory, hfloor, hconfig]

/-! ## Loading -/

/-- Of the machine that a program is loaded into only the configuration stays. -/
theorem load_eq_load (h : m.config = n.config) : m.load program = n.load program := by
  simp only [load, Machine.reset, h]

/-- A program comes into a machine as it would have come into it at power-on. -/
theorem load_of_history {config : Config} {es : List Event} (h : (powerOn config).History es m) :
    m.load program = (powerOn config).load program :=
  load_eq_load (config_of_history h)

/-- A program that is too long is refused before anything is forgotten. -/
theorem install_of_lt {κ : Type} (hlong : 256 < program.length) (c : κ) :
    m.install program c = ⟨.error (.programTooLarge program.length), m, c, []⟩ := by
  simp only [install, load, Memory.ofProgram?_eq_none_iff.2 hlong]

/-! ## Runs that can be repeated -/

/-- What a run has left can be reset to what the run began with, if the memory is what it was. -/
theorem Fresh.reset_of_run {first : Command} {reply : Reply} {last : Machine} (h : fresh.Fresh)
    (hrun : first.operation = .run) (hreply : fresh.reply first = some (reply, last))
    (hmemory : last.memory = fresh.memory) : last.reset = fresh := by
  obtain ⟨t, ht, hshown⟩ := Option.map_eq_some_iff.1 hreply
  obtain ⟨-, rfl⟩ := Prod.mk.inj hshown
  rw [hrun] at ht
  have hframe := sameFrame_advance fresh.started first.fuel (⟨first.console, []⟩ : Recorded first.κ)
  rw [started, ← machine_of_run ht] at hframe
  have hsame : fresh.SameFrame t.machine := ⟨hframe.stackFloor_eq, hframe.config_eq⟩
  rw [← h.reset_eq]
  exact (reset_eq_reset_iff.2 ⟨hmemory.symm, hsame⟩).symm

/-- **Loading and resetting forget.** A machine that a program is loaded into cannot be told, then or
later, from one that has done nothing before; a program that is too long is not loaded, and nothing is
forgotten. Checks and changes that are made one at a time come to the same, also when a program is
refused. Machines that have the same memory, stack floor and configuration cannot be told apart once
they are reset. So a run of a fresh machine that leaves the memory as it was is the same run, step by
step, after a reset. -/
theorem history_erased {config : Config} {es : List Event} (h : (powerOn config).History es m) :
    (∀ program, program.length ≤ 256 →
      ∃ a b, m.load program = .ok a ∧ (powerOn config).load program = .ok b ∧
        a = b ∧ a.Indistinguishable b ∧
        ∀ (κ : Type) [Console κ] (c : κ),
          m.install program c = (powerOn config).install program c) ∧
    (∀ program, 256 < program.length → ∀ (κ : Type) [Console κ] (c : κ),
      m.install program c = ⟨.error (.programTooLarge program.length), m, c, []⟩) ∧
    (∀ (program : List UInt8) (κ : Type) [Console κ] (c : κ),
      m.loading program c = some (m.install program c)) ∧
    (∀ n n' : Machine, n.memory = n'.memory → n.SameFrame n' →
      n.reset = n'.reset ∧ n.reset.Indistinguishable n'.reset) ∧
    ∀ (fresh last : Machine) (reply : Reply) (first again : Command), fresh.Fresh →
      first.operation = .run → first.Alike again → fresh.reply first = some (reply, last) →
      last.memory = fresh.memory →
      last.reset.reply again = some (reply, last) ∧
        ∀ k, (fresh.started.advance k (⟨first.console, []⟩ : Recorded first.κ)).Matches
          (last.reset.started.advance k (⟨again.console, []⟩ : Recorded again.κ)) := by
  refine ⟨fun program hle => ?_, fun program hlong κ _ c => install_of_lt hlong c,
    fun program κ _ c => loading_eq_install m program c, ?_, ?_⟩
  · obtain ⟨fresh, hload⟩ := exists_load_iff (m := m).2 hle
    have hsame : m.load program = (powerOn config).load program := load_of_history h
    refine ⟨fresh, fresh, hload, hsame.symm.trans hload, rfl, fresh.indistinguishable_self, ?_⟩
    intro κ _ c
    simp only [install, ← hsame, hload]
  · intro n n' hmemory hframe
    have hreset := reset_eq_reset_iff.2 ⟨hmemory, hframe⟩
    rw [hreset]
    exact ⟨rfl, n'.reset.indistinguishable_self⟩
  · intro fresh last reply first again hfresh hrun halike hreply hmemory
    rw [hfresh.reset_of_run hrun hreply hmemory, ← fresh.reply_alike halike]
    exact ⟨hreply, fun k => advance_matches _ k ⟨rfl, halike.console⟩⟩

/-- A program that halts with an echo is run twice, the second time on a console that holds something
already. Then another program is loaded, and one that is too long is not. -/
theorem history_erased_at_halt :
    let memory : Memory := ⟨Vector.ofFn fun i => [0x01].getD i 0⟩
    let fresh := { powerOn { echoOnHalt := true } with memory, stackFloor := 1 }
    let first : Command := { operation := .run, console := Transcript.empty, fuel := 1 }
    let again : Command := { first with console := Transcript.empty.append (.char 72) }
    ∃ es last reply, (powerOn { echoOnHalt := true }).History es last ∧
      fresh.reply first = some (reply, last) ∧ reply.bytes = [48, 10] ∧ last.state = .halted ∧
      last.reset.reply again = some (reply, last) ∧
      (∃ a, last.load [0x00] = .ok a ∧ (powerOn { echoOnHalt := true }).load [0x00] = .ok a) ∧
      (last.install (List.replicate 257 0) Transcript.empty).machine = last ∧
      (last.loading (List.replicate 257 0) Transcript.empty).map Transition.machine = some last ∧
      (last.setRegister 0 72).reset.Indistinguishable last.reset := by
  intro memory fresh first again
  have hmemory : Memory.ofProgram? [0x01] = some memory := if_pos (by decide)
  have hload : (powerOn { echoOnHalt := true }).load [0x01] = .ok fresh :=
    load_eq_ok_iff.2 ⟨memory, hmemory, rfl⟩
  have hfetch : fresh.fetch = .ok .halt :=
    fetch_eq_ok_iff.2 ⟨(Memory.read_of_ofProgram? hmemory 0).symm, trivial⟩
  have houtput : fresh.output? .halt = some (.number 0) := rfl
  -- from here on the machine need not be looked into
  clear_value fresh
  have hstate := state_of_load hload
  have hstep := (Outcome.written (c := (⟨Transcript.empty, []⟩ : Recorded Transcript)) hstate
    (ready_eq_ok_iff.2 ⟨hfetch, rfl⟩) houtput rfl).eq_step
  have hhalted : (fresh.execute .halt).state = .halted := fresh.state_execute .halt
  have hrun : fresh.apply 1 (⟨Transcript.empty, []⟩ : Recorded Transcript) .run =
      some (fresh.step (⟨Transcript.empty, []⟩ : Recorded Transcript)).conclude := by
    simp only [apply, run, running_eq_self hstate, advance_one, hstep, Transition.goesOn, hhalted]
    rfl
  rw [hstep, hhalted] at hrun
  have hreply : fresh.reply first = _ := congrArg (Option.map Transition.shown) hrun
  have hhistory := History.operation 1 _ (History.start.load hload Transcript.empty) hrun
  have halike : first.Alike again := by
    refine ⟨rfl, ?_, rfl⟩
    exact (Ledger.transcript.neverFails ⟨rfl, rfl⟩).behavesAs
      (Ledger.transcript.neverFails ⟨rfl, rfl⟩)
  obtain ⟨hloads, hrefuses, hactions, hresets, hrepeats⟩ := history_erased hhistory
  obtain ⟨a, b, ha, hb, rfl, -⟩ := hloads [0x00] (by decide)
  have hlong : 256 < (List.replicate 257 (0 : UInt8)).length := by
    rw [List.length_replicate]
    decide
  have hrefused := hrefuses (List.replicate 257 0) hlong Transcript Transcript.empty
  have hloading := hactions (List.replicate 257 0) Transcript Transcript.empty
  rw [hrefused] at hloading
  have hreset := hresets ((fresh.execute .halt).setRegister 0 72) (fresh.execute .halt) rfl ⟨rfl, rfl⟩
  have hrepeat := hrepeats fresh _ _ first again (.loaded hload) rfl halike hreply rfl
  exact ⟨_, fresh.execute .halt, _, hhistory, hreply, rfl, hhalted, hrepeat.1,
    ⟨a, ha, hb⟩, congrArg Transition.machine hrefused,
    congrArg (Option.map Transition.machine) hloading, hreset.2⟩

end ByteComputer.Machine
