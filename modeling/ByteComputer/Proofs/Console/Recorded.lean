import ByteComputer.Proofs.Machine.Outcome

/-!
# Consoles that keep a record

A console behind a record of the requests made to it. The record changes nothing for the machine
(`Machine.step_recorded`), so it tells which requests a step makes of any console
(`Machine.calls_eq`): it offers one output or none, and never asks for a flush. What has become of the
console is what the writes have made of it (`Console.after`, `Machine.console_step`).
`Machine.outputs` are those of several steps (`Machine.advance_recorded`), and a run asks for a flush
behind them (`Machine.run_recorded`).
-/

namespace ByteComputer

/-- The console when the outputs have been handed to it, one after the other. -/
def Console.after {κ : Type} [Console κ] (c : κ) (os : List Output) : κ :=
  os.foldl (fun d o => (Console.write d o).1) c

/-- A request to a console. -/
inductive Call where
  | write (o : Output)
  | flush
deriving DecidableEq, Repr

/-- A console with the requests made to it so far, the latest last. -/
structure Recorded (κ : Type) where
  inner : κ
  calls : List Call

variable {κ : Type} [Console κ]

instance : Console (Recorded κ) where
  write r o := (⟨(Console.write r.inner o).1, r.calls ++ [.write o]⟩, (Console.write r.inner o).2)
  flush r := (⟨(Console.flush r.inner).1, r.calls ++ [.flush]⟩, (Console.flush r.inner).2)

theorem Recorded.write_eq {c d : κ} {o : Output} {result : Except SystemError Unit}
    (h : Console.write c o = (d, result)) (calls : List Call) :
    Console.write (⟨c, calls⟩ : Recorded κ) o = (⟨d, calls ++ [.write o]⟩, result) := by
  show (_, _) = _
  rw [h]

namespace Machine

/-- The output that a step hands to the console, whether or not the console takes it. -/
def offered (m : Machine) : List Output :=
  match m.state, m.ready with
  | .running, .ok i => (m.output? i).toList
  | _, _ => []

theorem length_offered_le (m : Machine) : m.offered.length ≤ 1 := by
  unfold offered
  split
  · cases m.output? _ <;> simp
  · simp

theorem offered_of_ready {m : Machine} {i : Instruction} (hstate : m.state = .running)
    (hready : m.ready = .ok i) : m.offered = (m.output? i).toList := by
  simp only [offered, hstate, hready]

/-- An output is offered by an instruction that the machine is ready for. -/
theorem ready_of_offered {m : Machine} {o : Output} (h : o ∈ m.offered) :
    ∃ i, m.state = .running ∧ m.ready = .ok i ∧ m.output? i = some o := by
  unfold offered at h
  split at h
  · rename_i i hstate hready
    exact ⟨i, hstate, hready, Option.mem_toList.1 h⟩
  · cases h

theorem step_recorded (m : Machine) (c : κ) (calls : List Call) :
    m.step (⟨c, calls⟩ : Recorded κ) =
      { m.step c with
        console := ⟨(m.step c).console, calls ++ m.offered.map .write⟩ } := by
  unfold step offered
  cases m.state with
  | halted => simp
  | running =>
    cases m.ready with
    | error fault => simp
    | ok i =>
      simp only [perform]
      cases m.output? i with
      | none => simp
      | some o =>
        rcases hwrite : Console.write c o with ⟨d, e | done⟩
        · simp [hwrite, Recorded.write_eq hwrite]
        · simp [hwrite, Recorded.write_eq hwrite]

/-- A step hands its console what it offers, and asks nothing more of it. -/
theorem console_step (m : Machine) (c : κ) : (m.step c).console = Console.after c m.offered := by
  have ho := m.outcome_step c
  generalize m.step c = t at ho
  cases ho with
  | atRest hstate => simp only [offered, hstate, Console.after, List.foldl_nil]
  | faulted hstate hready => simp only [offered, hstate, hready, Console.after, List.foldl_nil]
  | silent hstate hready houtput => rw [offered_of_ready hstate hready, houtput]; rfl
  | written hstate hready houtput hwrite | refused hstate hready houtput hwrite =>
    rw [offered_of_ready hstate hready, houtput]
    exact (congrArg Prod.fst hwrite).symm

/-- The requests that a step makes of its console. -/
def calls (m : Machine) (c : κ) : List Call := (m.step (⟨c, []⟩ : Recorded κ)).console.calls

theorem calls_eq (m : Machine) (c : κ) : m.calls c = m.offered.map .write := by
  unfold calls
  rw [step_recorded]
  rfl

/-! ## Steps in a row -/

/-- The outputs that the first `k` steps hand to the console, the latest last. -/
def outputs (m : Machine) (c : κ) : Nat → List Output
  | 0 => []
  | k + 1 =>
    m.outputs c k ++ if (m.advance k c).goesOn then (m.advance k c).machine.offered else []

theorem advance_recorded (m : Machine) (c : κ) (k : Nat) :
    m.advance k (⟨c, []⟩ : Recorded κ) =
      { m.advance k c with
        console := ⟨(m.advance k c).console, (m.outputs c k).map .write⟩ } := by
  induction k with
  | zero => rfl
  | succ k ih =>
    rw [advance_succ_last, advance_succ_last, ih, outputs]
    by_cases hgoes : (m.advance k c).goesOn
    · have hgoes' : Transition.goesOn { m.advance k c with
          console := (⟨(m.advance k c).console, (m.outputs c k).map .write⟩ : Recorded κ) } :=
        hgoes
      simp only [hgoes, hgoes', if_true, step_recorded, Transition.followedBy, List.map_append]
    · have hgoes' : ¬ Transition.goesOn { m.advance k c with
          console := (⟨(m.advance k c).console, (m.outputs c k).map .write⟩ : Recorded κ) } :=
        hgoes
      simp [hgoes, hgoes']

end Machine

/-! ## Runs -/

/-- The end of a run asks for a flush, and for nothing else. -/
theorem conclude_recorded (t : Transition κ) (calls : List Call) :
    Transition.conclude { t with console := (⟨t.console, calls⟩ : Recorded κ) } =
      { t.conclude with console := ⟨t.conclude.console, calls ++ [.flush]⟩ } := by
  have hrecord : Console.flush (⟨t.console, calls⟩ : Recorded κ) =
      (⟨(Console.flush t.console).1, calls ++ [.flush]⟩, (Console.flush t.console).2) := rfl
  rcases hflush : Console.flush t.console with ⟨d, e | done⟩
  · rw [hflush] at hrecord
    rw [conclude_of_flush_error hflush, conclude_of_flush_error hrecord]
  · rw [hflush] at hrecord
    rw [conclude_of_flush hflush, conclude_of_flush hrecord]

namespace Machine

theorem run_recorded (m : Machine) (c : κ) (fuel : Nat) :
    m.run fuel (⟨c, []⟩ : Recorded κ) =
      (m.run fuel c).map fun t =>
        { t with
          console :=
            ⟨t.console,
              (({ m with state := .running } : Machine).outputs c fuel).map .write ++ [.flush]⟩ } := by
  simp only [run, advance_recorded]
  generalize ({ m with state := .running } : Machine).advance fuel c = t
  by_cases hgoes : t.goesOn = true
  · rw [if_pos hgoes, if_pos (by exact hgoes)]
    rfl
  · rw [if_neg hgoes, if_neg (by exact hgoes), Option.map_some, conclude_recorded]

end Machine

end ByteComputer
