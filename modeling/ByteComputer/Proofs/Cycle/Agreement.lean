import ByteComputer.Proofs.Cycle.Handling

/-!
# Cycles and steps

* `Machine.cycle_eq_step`: a cycle has an answer for every machine and every console, and it is that
  of `Machine.step`.

The proof goes through the ways in which a step can end (`Machine.Outcome`).
-/

namespace ByteComputer.Machine

variable {κ : Type} [Console κ]

theorem cycle_of_running {m : Machine} (hstate : m.state = .running) (c : κ) :
    Action.cycle ⟨m, c, []⟩ =
      Action.route (m.read m.pc) (m.read (m.pc + 1)) (m.read (m.pc + 2)) ⟨m, c, m.traceNotes⟩ := by
  unfold Action.cycle
  cases ht : m.config.trace with
  | true => simp [Action.bind_apply, hstate, ht, traceNotes]
  | false => simp [Action.bind_apply, hstate, ht, traceNotes]

/-- A cycle with the halt. -/
theorem cycle_of_halt {m : Machine} (hstate : m.state = .running)
    (hbyte : Opcode.halt.byte = m.read m.pc) (c : κ) :
    Action.cycle ⟨m, c, []⟩ =
      (do Action.halt; Action.count; return .halted : Action κ State) ⟨m, c, m.traceNotes⟩ := by
  rw [cycle_of_running hstate, ← hbyte, Action.route_halt]

/-- A cycle with an instruction that is not the halt. -/
theorem cycle_of_opcode {m : Machine} {op : Opcode} (hstate : m.state = .running)
    (hbyte : op.byte = m.read m.pc) (hop : op ≠ .halt) (c : κ) :
    Action.cycle ⟨m, c, []⟩ =
      (do Action.handle op (m.read (m.pc + 1)) (m.read (m.pc + 2)); Action.moveOn op.byte :
        Action κ State) ⟨m, c, m.traceNotes⟩ := by
  rw [cycle_of_running hstate, ← hbyte, Action.route_handle hop]

theorem cycle_of_fault {m : Machine} {fault : Fault} (hstate : m.state = .running)
    (hready : m.ready = .error fault) (c : κ) :
    Action.cycle ⟨m, c, []⟩ = some (.error fault, ⟨m, c, m.traceNotes⟩) := by
  rcases ready_eq_error_iff.1 hready with hfetch | ⟨i, hfetch, hstack⟩
  · cases hop : Opcode.ofByte? (m.read m.pc) with
    | none =>
      have hunknown : m.fetch = .error (.unknownOpcode (m.read m.pc) m.pc) := by
        simp only [fetch, hop]
      obtain rfl := Except.error.inj (hfetch.symm.trans hunknown)
      rw [cycle_of_running hstate, Action.route_unknown hop]
    | some op =>
      have hbyte := Opcode.ofByte?_eq_some_iff.1 hop
      obtain ⟨i, rfl, hi⟩ := (fetch_eq_error_of_byte hbyte).1 hfetch
      have hne : op ≠ .halt := by
        rintro rfl
        cases hi
      rw [cycle_of_opcode hstate hbyte hne, Action.bind_apply, Action.handle_misnamed hi]
  · obtain ⟨hbyte, hreads⟩ := fetch_eq_ok_iff.1 hfetch
    have hi : i ≠ .halt := by
      rintro rfl
      cases hstack
    rw [cycle_of_opcode hstate hbyte (mt Instruction.opcode_eq_halt_iff.1 hi), Action.bind_apply,
      Action.handle_stackFault hreads hstack]

theorem cycle_of_silent {m : Machine} {i : Instruction} (hstate : m.state = .running)
    (hready : m.ready = .ok i) (houtput : m.output? i = none) (c : κ) :
    Action.cycle ⟨m, c, []⟩ =
      some (.ok (m.execute i).state, ⟨m.execute i, c, m.traceNotes ++ m.notes i⟩) := by
  obtain ⟨hfetch, hstack⟩ := ready_eq_ok_iff.1 hready
  obtain ⟨hbyte, hreads⟩ := fetch_eq_ok_iff.1 hfetch
  by_cases hi : i = .halt
  · subst hi
    rw [cycle_of_halt hstate hbyte]
    simp only [Action.bind_apply, Action.halt_apply, houtput]
    rfl
  · rw [cycle_of_opcode hstate hbyte (mt Instruction.opcode_eq_halt_iff.1 hi), Action.bind_apply,
      Action.handle_silent hi hreads hstack houtput, state_execute, if_neg hi, hstate]
    exact Action.moveOn_apply hi m c _

/-- An instruction other than the halt that writes changes nothing else and notes nothing. -/
theorem quiet_of_output {m : Machine} {i : Instruction} {o : Output} (hi : i ≠ .halt)
    (houtput : m.output? i = some o) :
    Action.handled m i = m ∧ m.notes i = [] ∧ m.refused i = m := by
  cases i with
  | halt => exact absurd rfl hi
  | printNumber source | printChar source => exact ⟨rfl, rfl, rfl⟩
  | _ => cases houtput

theorem cycle_of_written {m : Machine} {i : Instruction} {o : Output} {c d : κ}
    (hstate : m.state = .running) (hready : m.ready = .ok i) (houtput : m.output? i = some o)
    (hwrite : Console.write c o = (d, .ok ())) :
    Action.cycle ⟨m, c, []⟩ =
      some (.ok (m.execute i).state, ⟨m.execute i, d, m.traceNotes ++ m.notes i⟩) := by
  obtain ⟨hbyte, hreads⟩ := fetch_eq_ok_iff.1 (ready_eq_ok_iff.1 hready).1
  by_cases hi : i = .halt
  · subst hi
    rw [cycle_of_halt hstate hbyte]
    simp only [Action.bind_apply, Action.halt_apply, houtput, Action.write_apply_ok hwrite]
    rfl
  · obtain ⟨hhandled, hnotes, -⟩ := quiet_of_output hi houtput
    have hmove := Action.moveOn_apply hi m d m.traceNotes
    rw [hhandled] at hmove
    rw [cycle_of_opcode hstate hbyte (mt Instruction.opcode_eq_halt_iff.1 hi), Action.bind_apply,
      Action.handle_output hi hreads houtput, Action.write_apply_ok hwrite, state_execute,
      if_neg hi, hstate, hnotes, List.append_nil]
    exact hmove

theorem cycle_of_refused {m : Machine} {i : Instruction} {o : Output} {c d : κ} {e : SystemError}
    (hstate : m.state = .running) (hready : m.ready = .ok i) (houtput : m.output? i = some o)
    (hwrite : Console.write c o = (d, .error e)) :
    Action.cycle ⟨m, c, []⟩ =
      some (.error (.outputRefused e), ⟨m.refused i, d, m.traceNotes ++ m.notes i⟩) := by
  obtain ⟨hbyte, hreads⟩ := fetch_eq_ok_iff.1 (ready_eq_ok_iff.1 hready).1
  by_cases hi : i = .halt
  · subst hi
    rw [cycle_of_halt hstate hbyte]
    simp only [Action.bind_apply, Action.halt_apply, houtput, Action.write_apply_error hwrite]
    rfl
  · obtain ⟨-, hnotes, hrefused⟩ := quiet_of_output hi houtput
    rw [cycle_of_opcode hstate hbyte (mt Instruction.opcode_eq_halt_iff.1 hi), Action.bind_apply,
      Action.handle_output hi hreads houtput, Action.write_apply_error hwrite, hnotes, hrefused,
      List.append_nil]

/-- **A cycle has an answer, and it is that of a step.** No place that is not meant to be reached
is reached, and the faults come in the same order and leave the same machine behind. -/
theorem cycle_eq_step (m : Machine) (c : κ) : m.cycle c = some (m.step c) := by
  have ho := m.outcome_step c
  generalize m.step c = t at ho ⊢
  unfold cycle
  cases ho with
  | atRest hstate =>
    simp [Action.cycle, Action.bind_apply, hstate]
  | faulted hstate hready => rw [cycle_of_fault hstate hready]; rfl
  | silent hstate hready houtput => rw [cycle_of_silent hstate hready houtput]; rfl
  | written hstate hready houtput hwrite =>
    rw [cycle_of_written hstate hready houtput hwrite]; rfl
  | refused hstate hready houtput hwrite =>
    rw [cycle_of_refused hstate hready houtput hwrite]; rfl

end ByteComputer.Machine
