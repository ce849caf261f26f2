import ByteComputer.Proofs.Execution.Basic

/-!
# Faults that a flush hides

A run that has come to a fault still flushes its console, and if that fails the fault is lost: the
run ends with the refusal of the console, the log is told nothing, and the exit status is that of a
failure of any kind.

* `Execution.status_of_loop`: the status of an execution, from the end of the loop and the flush.
* `Machine.fault_kept_iff`: a run ends with the fault of its loop, and its process with the code of
  that fault, if the flush works and only then.
-/

namespace ByteComputer

variable {κ : Type} [Console κ]

namespace Execution

/-- The executions of a program, by itself or from a file that holds it. -/
inductive Runs (program : List UInt8) (config : Config) (c : κ) : Execution κ → Prop
  | program {fuel : Nat} {e : Execution κ} (h : ofProgram fuel program config c = some e) :
      Runs program config c e
  | file {fuel : Nat} {path : String} {contents : Except SystemError (List UInt8)}
      {e : Execution κ} (hfile : Program.ofFile path contents = .ok program)
      (h : ofFile fuel path contents config c = some e) : Runs program config c e

variable {config : Config} {program : List UInt8} {fresh : Machine} {c : κ} {e : Execution κ}
  {t : Transition κ}

/-- The file adds a context and an entry to the log, and neither changes the status. -/
theorem Runs.exists_ofProgram (h : Runs program config c e) :
    ∃ fuel e', ofProgram fuel program config c = some e' ∧ e.status = e'.status := by
  cases h with
  | program h => exact ⟨_, e, h, rfl⟩
  | file hfile h =>
    rw [ofFile_of_program hfile] at h
    obtain ⟨e', he', rfl⟩ := Option.map_eq_some_iff.1 h
    exact ⟨_, e', he', status_inContext _ e'⟩

theorem status_of_loop (hload : (Machine.powerOn config).load program = .ok fresh)
    (hloop : fresh.LoopEnds c t) (h : Runs program config c e) :
    e.status =
      match Console.flushFault? t.console, t.result with
      | some _, _ => .failure
      | none, .ok _ => .halted
      | none, .error fault => fault.status := by
  obtain ⟨fuel, e', he', hstatus⟩ := h.exists_ofProgram
  rw [hstatus, ofProgram_of_loop hload hloop he', status_ofTransition]
  simp only [result_conclude]
  rcases hflush : Console.flush t.console with ⟨d, why | done⟩
  · simp only [Console.flushFault?, hflush]
    rfl
  · simp only [Console.flushFault?, hflush]
    cases t.result with
    | ok s => rfl
    | error fault => rfl

end Execution

namespace Machine

variable {m : Machine} {c : κ} {t u : Transition κ} {fault : Fault}

/-- What a run keeps of a fault. -/
theorem run_eq_fault_iff (hloop : ({ m with state := .running } : Machine).LoopEnds c t)
    (hfault : t.result = .error fault) {fuel : Nat} (h : m.run fuel c = some u) :
    u.result = .error fault ↔
      Console.flushFault? t.console = none ∨ Console.flushFault? t.console = some fault := by
  rw [run_of_loopEnds hloop h, result_conclude, hfault]
  cases Console.flushFault? t.console with
  | none => simp
  | some lost => simp

/-- **A fault is kept if the flush works.** When the loop of a run ends with a fault, the run ends
too, and with that fault if the console can be flushed, and otherwise only if the flush comes to
the very same fault. A process that ran the program has the code of the class of the fault if the
console can be flushed, and the code of a general failure if not. -/
theorem fault_kept_iff (hloop : ({ m with state := .running } : Machine).LoopEnds c t)
    (hfault : t.result = .error fault) :
    (∃ fuel u, m.run fuel c = some u) ∧
    (∀ fuel u, m.run fuel c = some u →
      (u.result = .error fault ↔
        Console.flushFault? t.console = none ∨ Console.flushFault? t.console = some fault)) ∧
    ∀ config program, (powerOn config).load program = .ok m →
      (∃ e, Execution.Runs program config c e) ∧
      ∀ e, Execution.Runs program config c e →
        ((∃ k pc, fault = .unknownOpcode k pc) →
          (e.status.code = 4 ↔ Console.flushFault? t.console = none)) ∧
        ((∃ sp pc, fault = .stackOverflow sp pc ∨ fault = .stackUnderflow sp pc) →
          (e.status.code = 5 ↔ Console.flushFault? t.console = none)) ∧
        ((∃ i pc, fault = .noSuchRegister i pc) →
          (e.status.code = 6 ↔ Console.flushFault? t.console = none)) ∧
        (Console.flushFault? t.console ≠ none → e.status.code = 1) := by
  refine ⟨?_, fun fuel u h => run_eq_fault_iff hloop hfault h, ?_⟩
  · obtain ⟨fuel, hrun⟩ := exists_run_iff.2 ⟨t, hloop, rfl⟩
    exact ⟨fuel, _, hrun⟩
  · intro config program hload
    rw [running_eq_self (state_of_load hload)] at hloop
    constructor
    · obtain ⟨fuel, h⟩ := (Execution.exists_ofProgram_iff hload).2 ⟨t, hloop, rfl⟩
      exact ⟨_, .program h⟩
    · intro e he
      have hstatus := Execution.status_of_loop hload hloop he
      obtain ⟨hunknown, hstack, hregister, -⟩ := fault.code_status_iff
      rw [hfault] at hstatus
      cases hflush : Console.flushFault? t.console with
      | none =>
        rw [hflush] at hstatus
        rw [hstatus]
        exact ⟨fun h => iff_of_true (hunknown.2 h) rfl, fun h => iff_of_true (hstack.2 h) rfl,
          fun h => iff_of_true (hregister.2 h) rfl, fun h => absurd rfl h⟩
      | some lost =>
        rw [hflush] at hstatus
        rw [hstatus]
        simp [ExitStatus.code]

/-- A program that prints a number and comes to a byte that is no opcode, on a console that cannot
be flushed: the fault is lost, and the code is 1 where it should be 4. -/
theorem fault_lost_at_unknown_opcode :
    let program : List UInt8 := [0x47, 0x00, 0xFF]
    let memory : Memory := ⟨Vector.ofFn fun i => program.getD i 0⟩
    let fresh := { powerOn {} with memory, stackFloor := 3 }
    let c : Limited Transcript := { inner := .empty, flushError? := some (.other "flush failed") }
    let t := fresh.advance 2 c
    (powerOn {}).load program = .ok fresh ∧ fresh.LoopEnds c t ∧
      t.result = .error (.unknownOpcode 0xFF 2) ∧
      (∃ fuel u, fresh.run fuel c = some u ∧ u.result ≠ .error (.unknownOpcode 0xFF 2)) ∧
      ∃ e, Execution.Runs program {} c e ∧ e.status.code = 1 ∧ e.status.code ≠ 4 := by
  intro program memory fresh c t
  have hload : (powerOn {}).load program = .ok fresh :=
    load_eq_ok_iff.2 ⟨memory, if_pos (by decide), rfl⟩
  have hresult : t.result = .error (.unknownOpcode 0xFF 2) := by decide +kernel
  have hloop : fresh.LoopEnds c t := loopEnds_advance (by decide +kernel)
  have hflush : Console.flushFault? t.console = some (.outputRefused (.other "flush failed")) := by
    decide +kernel
  -- from here on the machine and its steps need not be looked into
  have hstate : fresh.state = .running := state_of_load hload
  clear_value t fresh
  rw [← running_eq_self hstate] at hloop
  obtain ⟨⟨fuel, u, hrun⟩, hkept, hcodes⟩ := fault_kept_iff hloop hresult
  obtain ⟨⟨e, he⟩, hstatus⟩ := hcodes {} program hload
  obtain ⟨hunknown, -, -, hlost⟩ := hstatus e he
  rw [running_eq_self hstate] at hloop
  refine ⟨hload, hloop, hresult, ⟨fuel, u, hrun, ?_⟩, e, he, hlost (by simp [hflush]), ?_⟩
  · simp [hkept fuel u hrun, hflush]
  · simp [hunknown ⟨0xFF, 2, rfl⟩, hflush]

end Machine

end ByteComputer
