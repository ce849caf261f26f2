import ByteComputer.Machine.Run
import ByteComputer.Proofs.Machine.Decoding
import ByteComputer.Proofs.Machine.Fields

/-!
# What a step can come to

`Machine.Outcome` lists the five ways in which a step can end, each with all that it leaves behind,
and `Machine.outcome_step` says that there is no other. What holds of every step is proved from this
list, without a look at `Machine.step`; what the step of a machine is follows from the list as well
(`Machine.Outcome.eq_step`). Two machines that are ready for the same come to the same kind of end
(`Machine.jointOutcome_step`).
-/

namespace ByteComputer

variable {κ : Type} [Console κ]

namespace Machine

/-- The ways in which a step can end. -/
inductive Outcome (m : Machine) (c : κ) : Transition κ → Prop
  /-- A machine that has halted takes no step. -/
  | atRest (hstate : m.state = .halted) : Outcome m c ⟨.error .halted, m, c, []⟩
  /-- A fault is found before anything is done. -/
  | faulted {fault : Fault} (hstate : m.state = .running) (hready : m.ready = .error fault) :
      Outcome m c ⟨.error fault, m, c, m.traceNotes⟩
  /-- An instruction is executed that writes nothing. -/
  | silent {i : Instruction} (hstate : m.state = .running) (hready : m.ready = .ok i)
      (houtput : m.output? i = none) :
      Outcome m c ⟨.ok (m.execute i).state, m.execute i, c, m.traceNotes ++ m.notes i⟩
  /-- An instruction is executed whose output is taken. -/
  | written {i : Instruction} {o : Output} {d : κ} (hstate : m.state = .running)
      (hready : m.ready = .ok i) (houtput : m.output? i = some o)
      (hwrite : Console.write c o = (d, .ok ())) :
      Outcome m c ⟨.ok (m.execute i).state, m.execute i, d, m.traceNotes ++ m.notes i⟩
  /-- The console refuses the output. -/
  | refused {i : Instruction} {o : Output} {d : κ} {e : SystemError} (hstate : m.state = .running)
      (hready : m.ready = .ok i) (houtput : m.output? i = some o)
      (hwrite : Console.write c o = (d, .error e)) :
      Outcome m c ⟨.error (.outputRefused e), m.refused i, d, m.traceNotes ++ m.notes i⟩

theorem outcome_step (m : Machine) (c : κ) : Outcome m c (m.step c) := by
  cases hstate : m.state with
  | halted =>
    simp only [step, hstate]
    exact .atRest hstate
  | running =>
    cases hready : m.ready with
    | error fault =>
      simp only [step, hstate, hready]
      exact .faulted hstate hready
    | ok i =>
      simp only [step, hstate, hready, perform]
      cases houtput : m.output? i with
      | none => exact .silent hstate hready houtput
      | some o =>
        rcases hwrite : Console.write c o with ⟨d, e | done⟩
        · simp only [hwrite]
          exact .refused hstate hready houtput hwrite
        · simp only [hwrite]
          exact .written hstate hready houtput hwrite

theorem Outcome.eq_step {m : Machine} {c : κ} {t : Transition κ} (h : Outcome m c t) :
    m.step c = t := by
  cases h with
  | atRest hstate => simp only [step, hstate]
  | faulted hstate hready => simp only [step, hstate, hready]
  | silent hstate hready houtput => simp only [step, hstate, hready, perform, houtput]
  | written hstate hready houtput hwrite | refused hstate hready houtput hwrite =>
    simp only [step, hstate, hready, perform, houtput, hwrite]

/-- No step configures the machine anew. -/
theorem config_step (m : Machine) (c : κ) : (m.step c).machine.config = m.config := by
  have ho := m.outcome_step c
  generalize m.step c = t at ho ⊢
  cases ho with
  | atRest | faulted => rfl
  | silent | written => exact m.config_execute _
  | @refused i => cases i <;> rfl

/-- No step moves the stack floor. -/
theorem stackFloor_step (m : Machine) (c : κ) : (m.step c).machine.stackFloor = m.stackFloor := by
  have ho := m.outcome_step c
  generalize m.step c = t at ho ⊢
  cases ho with
  | atRest | faulted => rfl
  | silent | written => exact m.stackFloor_execute _
  | @refused i => cases i <;> rfl

/-! ## Two machines -/

/-- The ways in which a step can end on two machines that are ready for the same. -/
inductive JointOutcome (m n : Machine) : Transition κ → Transition κ → Prop
  | atRest {c : κ} (hstate : m.state = .halted) :
      JointOutcome m n ⟨.error .halted, m, c, []⟩ ⟨.error .halted, n, c, []⟩
  | faulted {fault : Fault} {c : κ} (hstate : m.state = .running)
      (hready : m.ready = .error fault) :
      JointOutcome m n ⟨.error fault, m, c, m.traceNotes⟩ ⟨.error fault, n, c, n.traceNotes⟩
  | executed {i : Instruction} {d : κ} (hstate : m.state = .running) (hready : m.ready = .ok i) :
      JointOutcome m n ⟨.ok (m.execute i).state, m.execute i, d, m.traceNotes ++ m.notes i⟩
        ⟨.ok (n.execute i).state, n.execute i, d, n.traceNotes ++ n.notes i⟩
  | refused {i : Instruction} {o : Output} {d : κ} {e : SystemError} (hstate : m.state = .running)
      (hready : m.ready = .ok i) (houtput : m.output? i = some o) :
      JointOutcome m n ⟨.error (.outputRefused e), m.refused i, d, m.traceNotes ++ m.notes i⟩
        ⟨.error (.outputRefused e), n.refused i, d, n.traceNotes ++ n.notes i⟩

theorem jointOutcome_step {m n : Machine} (hstate : n.state = m.state)
    (hready : m.state = .running → n.ready = m.ready)
    (houtput : ∀ i, n.output? i = m.output? i) (c : κ) :
    JointOutcome m n (m.step c) (n.step c) := by
  have ho := m.outcome_step c
  generalize m.step c = t at ho ⊢
  cases ho with
  | atRest hm =>
    rw [(Outcome.atRest (hstate.trans hm)).eq_step]
    exact .atRest hm
  | faulted hm hfault =>
    rw [(Outcome.faulted (hstate.trans hm) ((hready hm).trans hfault)).eq_step]
    exact .faulted hm hfault
  | silent hm hi ho =>
    rw [(Outcome.silent (hstate.trans hm) ((hready hm).trans hi) ((houtput _).trans ho)).eq_step]
    exact .executed hm hi
  | written hm hi ho hwrite =>
    rw [(Outcome.written (hstate.trans hm) ((hready hm).trans hi) ((houtput _).trans ho)
      hwrite).eq_step]
    exact .executed hm hi
  | refused hm hi ho hwrite =>
    rw [(Outcome.refused (hstate.trans hm) ((hready hm).trans hi) ((houtput _).trans ho)
      hwrite).eq_step]
    exact .refused hm hi ho

/-! ## Steps that succeed -/

/-- A step that succeeds executes the instruction that the machine is ready for. -/
theorem execute_of_step_ok {m : Machine} {c : κ} {s : State} (h : (m.step c).result = .ok s) :
    ∃ i, m.state = .running ∧ m.ready = .ok i ∧ (m.step c).machine = m.execute i ∧
      s = (m.execute i).state := by
  have ho := m.outcome_step c
  generalize m.step c = t at ho h
  cases ho with
  | atRest => cases h
  | faulted => cases h
  | silent hstate hready => cases h; exact ⟨_, hstate, hready, rfl, rfl⟩
  | written hstate hready => cases h; exact ⟨_, hstate, hready, rfl, rfl⟩
  | refused => cases h

/-- What a step that succeeds has written. -/
theorem console_of_step_ok {m : Machine} {c : κ} {s : State} {i : Instruction}
    (h : (m.step c).result = .ok s) (hready : m.ready = .ok i) :
    (m.output? i = none ∧ (m.step c).console = c) ∨
      ∃ o, m.output? i = some o ∧ Console.write c o = ((m.step c).console, .ok ()) := by
  have ho := m.outcome_step c
  generalize m.step c = t at ho h
  cases ho with
  | atRest => cases h
  | faulted => cases h
  | @silent j _ hj houtput =>
    obtain rfl : j = i := Except.ok.inj (hj.symm.trans hready)
    exact Or.inl ⟨houtput, rfl⟩
  | @written j o d _ hj houtput hwrite =>
    obtain rfl : j = i := Except.ok.inj (hj.symm.trans hready)
    exact Or.inr ⟨o, houtput, hwrite⟩
  | refused => cases h

end Machine

/-! ## Runs that end -/

variable {t : Transition κ} {d : κ}

/-- A flush that works leaves the result as it is, and the log is told how the run went. -/
theorem conclude_of_flush (h : Console.flush t.console = (d, .ok ())) :
    t.conclude =
      { t with
        console := d
        log := t.log ++ [match t.result with
          | .ok _ => .halted t.machine.steps
          | .error fault => .stopped t.machine.steps fault] } := by
  cases hresult : t.result with
  | ok state => simp only [Transition.conclude, h, hresult]
  | error fault => simp only [Transition.conclude, h, hresult]

/-- A flush that fails takes the place of the result, and the log is told nothing. -/
theorem conclude_of_flush_error {e : SystemError}
    (h : Console.flush t.console = (d, .error e)) :
    t.conclude = { t with result := .error (.outputRefused e), console := d } := by
  simp only [Transition.conclude, h]

namespace Machine

theorem machine_conclude (t : Transition κ) : t.conclude.machine = t.machine := by
  unfold Transition.conclude
  split <;> rfl

/-- The machine at the end of a run is the one after its last step. -/
theorem machine_of_run {m : Machine} {fuel : Nat} {c : κ} {t : Transition κ}
    (h : m.run fuel c = some t) :
    t.machine = ({ m with state := .running }.advance fuel c).machine := by
  simp only [run] at h
  split at h
  · cases h
  · rw [← Option.some.inj h, machine_conclude]

end Machine

end ByteComputer
