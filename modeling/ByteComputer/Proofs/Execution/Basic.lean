import ByteComputer.Execution
import ByteComputer.Proofs.Console.Flushing
import ByteComputer.Proofs.Machine.Loading
import ByteComputer.Proofs.ProgramText

/-!
# From a program to an exit status

What an execution comes to, in terms of the parts that it is made of: the text that the file holds,
the loop of the run, and the flush at its end.

* `LoadError.status_of_ofFile`, `Program.ofFile_eq_ok_iff`: what comes of reading a program.
* `Execution.exists_ofProgram_iff`, `Execution.ofProgram_of_loop`: what comes of running it.
* `Execution.status`: the status of a process that ends with an execution. No context changes it
  (`Execution.status_inContext`).
-/

namespace ByteComputer

/-! ## Codes of faults -/

/-- Each class of faults has a code of its own. -/
theorem Fault.code_status_iff (fault : Fault) :
    (fault.status.code = 4 ↔ ∃ k pc, fault = .unknownOpcode k pc) ∧
    (fault.status.code = 5 ↔ ∃ sp pc, fault = .stackOverflow sp pc ∨ fault = .stackUnderflow sp pc) ∧
    (fault.status.code = 6 ↔ ∃ i pc, fault = .noSuchRegister i pc) ∧
    (fault.status.code = 3 ↔ ∃ size, fault = .programTooLarge size) ∧
    (fault.status.code = 1 ↔ (∃ e, fault = .outputRefused e) ∨ fault = .halted) ∧
    fault.status.code ≠ 0 ∧ fault.status.code ≠ 2 := by
  cases fault <;> simp [status, ExitStatus.code]

/-! ## Reports -/

namespace Report

theorem status_context (text : String) (r : Report) : (context text r).status = r.status := rfl

theorem status_machine (fault : Fault) : (failure (.machine fault)).status = fault.status := rfl

theorem status_load (error : LoadError) : (failure (.load error)).status = error.status := rfl

end Report

/-! ## Reading the program -/

namespace Program

theorem length_of_parse {text : List Char} {program : List UInt8} (h : parse text = .ok program) :
    program.length ≤ 256 := by
  have hverdict := verdict_parse text
  rw [h] at hverdict
  cases hverdict with
  | accepted _ hsize => exact hsize

theorem status_of_parse {text : List Char} {error : LoadError} (h : parse text = .error error) :
    error.status = .malformedProgram := by
  have hverdict := verdict_parse text
  rw [h] at hverdict
  cases hverdict with
  | tooLarge => rfl
  | bad => rfl

/-- What reading the file gave is a text. -/
def Holds (contents : Except SystemError (List UInt8)) (text : List Char) : Prop :=
  ∃ bytes, contents = .ok bytes ∧ Utf8.decode? bytes = some text

variable {path : String} {contents : Except SystemError (List UInt8)} {program : List UInt8}

theorem ofFile_eq_ok_iff :
    ofFile path contents = .ok program ↔ ∃ text, Holds contents text ∧ parse text = .ok program := by
  unfold ofFile Holds
  split
  · simp
  · simp
  · rename_i bytes
    cases hdecode : Utf8.decode? bytes with
    | none => simp [hdecode]
    | some text => simp [hdecode]

/-- A file that cannot be read is told from one that does not hold a program. -/
theorem status_of_ofFile {error : LoadError} (h : ofFile path contents = .error error) :
    ((∃ why, contents = .error why) ∧ error.status = .programNotFound) ∨
      ((∃ bytes, contents = .ok bytes) ∧ error.status = .malformedProgram) := by
  unfold ofFile at h
  split at h
  · cases h
    exact Or.inl ⟨⟨_, rfl⟩, rfl⟩
  · cases h
    exact Or.inl ⟨⟨_, rfl⟩, rfl⟩
  · rename_i bytes
    right
    refine ⟨⟨bytes, rfl⟩, ?_⟩
    split at h
    · exact status_of_parse h
    · cases h
      rfl

end Program

namespace Execution

variable {κ : Type}

/-! ## The status of an execution -/

/-- The status of a process that ends with an execution. -/
def status (e : Execution κ) : ExitStatus :=
  match e.result with
  | .ok _ => .halted
  | .error why => why.status

theorem status_ofTransition (t : Transition κ) :
    (ofTransition t).status =
      match t.result with
      | .ok _ => .halted
      | .error fault => fault.status := by
  obtain ⟨result, machine, console, log⟩ := t
  cases result with
  | ok s => rfl
  | error fault => exact Report.status_machine fault

theorem status_inContext (text : String) (e : Execution κ) :
    (e.inContext text).status = e.status := by
  unfold status inContext
  cases e.result with
  | ok m => rfl
  | error why => exact Report.status_context text why

/-! ## Running the program -/

variable [Console κ] {config : Config} {program : List UInt8} {fresh : Machine} {c : κ}
  {e : Execution κ} {t : Transition κ}

theorem ofProgram_of_load (hload : (Machine.powerOn config).load program = .ok fresh) (fuel : Nat)
    (c : κ) :
    ofProgram fuel program config c =
      (fresh.run fuel c).map fun u =>
        ofTransition { u with log := .loadedProgram program.length :: u.log } := by
  simp only [ofProgram, Machine.install, hload]
  rfl

/-- An execution comes to an end if its loop does. -/
theorem exists_ofProgram_iff (hload : (Machine.powerOn config).load program = .ok fresh) :
    (∃ fuel, ofProgram fuel program config c = some e) ↔
      ∃ t, fresh.LoopEnds c t ∧
        e = ofTransition
          { t.conclude with log := .loadedProgram program.length :: t.conclude.log } := by
  have hrunning := Machine.running_eq_self (Machine.state_of_load hload)
  constructor
  · rintro ⟨fuel, h⟩
    rw [ofProgram_of_load hload] at h
    obtain ⟨u, hu, rfl⟩ := Option.map_eq_some_iff.1 h
    obtain ⟨t, ht, rfl⟩ := Machine.exists_run_iff.1 ⟨fuel, hu⟩
    rw [hrunning] at ht
    exact ⟨t, ht, rfl⟩
  · rintro ⟨t, ht, rfl⟩
    rw [← hrunning] at ht
    obtain ⟨fuel, hrun⟩ := Machine.exists_run_iff.2 ⟨t, ht, rfl⟩
    refine ⟨fuel, ?_⟩
    rw [ofProgram_of_load hload, hrun, Option.map_some]

/-- The result of an execution is that of the loop, unless the flush fails. -/
theorem ofProgram_of_loop (hload : (Machine.powerOn config).load program = .ok fresh)
    (hloop : fresh.LoopEnds c t) {fuel : Nat} (h : ofProgram fuel program config c = some e) :
    e = ofTransition
      { t.conclude with log := .loadedProgram program.length :: t.conclude.log } := by
  obtain ⟨u, hu, rfl⟩ := (exists_ofProgram_iff hload).1 ⟨fuel, h⟩
  rw [hu.unique hloop]

theorem ofFile_of_program {path : String} {contents : Except SystemError (List UInt8)}
    (hfile : Program.ofFile path contents = .ok program) (fuel : Nat) (config : Config) (c : κ) :
    ofFile fuel path contents config c =
      (ofProgram fuel program config c).map fun e =>
        (e.inContext (contextOf path)).loggedAfter [.loadedFile program.length path] := by
  simp only [ofFile, hfile]

theorem ofFile_of_error {path : String} {contents : Except SystemError (List UInt8)}
    {error : LoadError} (hfile : Program.ofFile path contents = .error error) (fuel : Nat)
    (config : Config) (c : κ) :
    ofFile fuel path contents config c = some ⟨.error (.failure (.load error)), c, []⟩ := by
  simp only [ofFile, hfile]

end Execution

end ByteComputer
