import ByteComputer.Console.Transcript
import ByteComputer.Proofs.Machine.Commands
import ByteComputer.Proofs.SingleSteps

/-!
# Machines that come round again

A step depends on memory, registers, flags and program counter, and on what no step changes; it does
not look at the number of steps taken so far, or at what has been written. So a machine that comes
back to where it has been goes on as it did from there, and never comes to an end.

* `Machine.replyAt`, `Machine.written`: what is seen of a single step, and the bytes of some steps in
  a row.
* `Machine.Recurs`: before two steps the machine is in the same position.
* `Machine.shown_withSteps`: a step of the same machine with another count.
* `Machine.Recurs.attempts`: from then on each step is the same as the one a round before.
* `Machine.recurring_never_ends`: no run of the machine ends, and it writes what it wrote on the first
  round over and over.
-/

namespace ByteComputer.Machine

variable {κ ι : Type} [Console κ] [Console ι]

/-- What is seen of the step behind the first `k` steps. -/
def replyAt (m : Machine) (c : κ) (k : Nat) : Reply :=
  ((m.attempts k c).machine.step (⟨(m.attempts k c).console, []⟩ : Recorded κ)).shown.1

/-- The bytes that `n` steps write, behind the first `i` steps. -/
def written (m : Machine) (c : κ) (i n : Nat) : List UInt8 :=
  (List.range n).flatMap fun k => (m.replyAt c (i + k)).bytes

/-- The two machines hold the same in memory, registers and flags, and are at the same address. -/
structure SamePosition (m n : Machine) : Prop where
  memory : n.memory = m.memory
  values : n.registers.values = m.registers.values
  flags : n.registers.flags = m.registers.flags
  pc : n.pc = m.pc

/-- The machine is in the same position after `i` steps and, later, after `j` steps, and all steps up
to then go on. -/
structure Recurs (m : Machine) (c : κ) (i j : Nat) : Prop where
  lt : i < j
  goesOn : ∀ k, k < j → (m.replyAt c k).result = .ok .running
  same : (m.attempts i c).machine.SamePosition (m.attempts j c).machine

/-- The machine with another count of the steps that it has taken. -/
def withSteps (m : Machine) (steps : Nat) : Machine := { m with steps }

variable {m n : Machine} {c : κ} {d : ι} {i j k : Nat}

/-! ## One step -/

theorem SamePosition.eq_withSteps (h : m.SamePosition n) (hstate : n.state = m.state)
    (hfloor : n.stackFloor = m.stackFloor) (hconfig : n.config = m.config) :
    n = m.withSteps n.steps := by
  obtain ⟨memory, ⟨values, flags⟩, pc, state, floor, config, steps⟩ := m
  obtain ⟨memory', ⟨values', flags'⟩, pc', state', floor', config', steps'⟩ := n
  cases h.memory
  cases h.values
  cases h.flags
  cases h.pc
  cases hstate
  cases hfloor
  cases hconfig
  rfl

theorem effect_withSteps (m : Machine) (steps : Nat) (i : Instruction) :
    (m.withSteps steps).effect i = (m.effect i).withSteps steps := by
  cases i with
  | binary op target source =>
    exact effect_binary_comm (f := (withSteps · steps)) rfl (fun _ _ => rfl) op target source
  | _ => rfl

theorem execute_withSteps (m : Machine) (steps : Nat) (i : Instruction) :
    (m.withSteps steps).execute i = (m.execute i).withSteps (steps + 1) := by
  have hsuccessor : (m.withSteps steps).successor i = m.successor i := by
    cases i <;> rfl
  simp only [execute, effect_withSteps, hsuccessor]
  rfl

/-- The count makes no difference to a step that goes on. -/
theorem shown_withSteps (hd : Console.NeverFails d) (hc : Console.NeverFails c)
    (hgoes : (m.step c).result = .ok .running) (steps : Nat) :
    ((m.withSteps steps).step (⟨d, []⟩ : Recorded ι)).shown =
      ((m.step (⟨c, []⟩ : Recorded κ)).shown.1, (m.step c).machine.withSteps (steps + 1)) := by
  obtain ⟨i, hstate, hready, hmachine, -⟩ := execute_of_step_ok hgoes
  have hready' : (m.withSteps steps).ready = .ok i := hready
  obtain ⟨c', -, hstep⟩ := step_of_ready (r := (⟨c, []⟩ : Recorded κ)) hc hstate hready
  obtain ⟨d', -, hstep'⟩ :=
    step_of_ready (m := m.withSteps steps) (r := (⟨d, []⟩ : Recorded ι)) hd hstate hready'
  have houtput : (m.withSteps steps).output? i = m.output? i := by
    cases i <;> rfl
  have hnotes : (m.withSteps steps).notes i = m.notes i := by
    cases i <;> rfl
  rw [hstep, hstep', hmachine, execute_withSteps, houtput, hnotes]
  rfl

/-! ## Steps in a row -/

theorem result_replyAt (m : Machine) (c : κ) (k : Nat) :
    (m.replyAt c k).result = (m.attempts (k + 1) c).result := by
  unfold replyAt
  rw [step_recorded]
  rfl

theorem neverFails_attempts (hc : Console.NeverFails c) (m : Machine) (k : Nat) :
    Console.NeverFails (m.attempts k c).console := by
  induction k with
  | zero => exact hc
  | succ k ih => exact ih.reaches (reaches_step .refl)

/-- A step that goes on executes an instruction, and counts. -/
theorem execute_of_replyAt (h : (m.replyAt c k).result = .ok .running) :
    (m.attempts k c).machine.state = .running ∧ (m.attempts (k + 1) c).machine.state = .running ∧
      (m.attempts (k + 1) c).machine.steps = (m.attempts k c).machine.steps + 1 := by
  rw [result_replyAt] at h
  obtain ⟨i, hstate, -, hmachine, hafter⟩ := execute_of_step_ok h
  refine ⟨hstate, state_of_step_ok h, ?_⟩
  show ((m.attempts k c).machine.step _).machine.steps = _
  rw [hmachine]
  rfl

/-- Two steps of machines that differ in their counts alone. -/
theorem replyAt_of_withSteps (hc : Console.NeverFails c) {k l steps : Nat}
    (hgoes : (m.replyAt c k).result = .ok .running)
    (hmachine : (m.attempts l c).machine = (m.attempts k c).machine.withSteps steps) :
    m.replyAt c l = m.replyAt c k ∧
      (m.attempts (l + 1) c).machine = (m.attempts (k + 1) c).machine.withSteps (steps + 1) := by
  rw [result_replyAt] at hgoes
  have hshown := shown_withSteps (neverFails_attempts hc m l) (neverFails_attempts hc m k) hgoes steps
  rw [← hmachine] at hshown
  have hreply := congrArg Prod.fst hshown
  have hafter := congrArg Prod.snd hshown
  rw [step_recorded] at hafter
  exact ⟨hreply, hafter⟩

/-! ## Rounds -/

variable {p : Nat}

/-- The second time the machine differs in its count alone. -/
theorem Recurs.exists_withSteps (h : m.Recurs c i j) :
    ∃ steps, (m.attempts j c).machine = (m.attempts i c).machine.withSteps steps := by
  have hfirst := (execute_of_replyAt (h.goesOn i h.lt)).1
  obtain ⟨k, rfl⟩ : ∃ k, j = k + 1 := Nat.exists_eq_succ_of_ne_zero (Nat.ne_zero_of_lt h.lt)
  have hlast := (execute_of_replyAt (h.goesOn k (Nat.lt_succ_self k))).2.1
  refine ⟨_, h.same.eq_withSteps (hlast.trans hfirst.symm) ?_ ?_⟩
  · rw [stackFloor_attempts, stackFloor_attempts]
  · rw [config_attempts, config_attempts]

/-- From the first time on every step goes on, and a round later the machine differs in its count
alone. -/
theorem Recurs.goesOn_and_exists_withSteps (hc : Console.NeverFails c) (h : m.Recurs c i (i + p))
    (n : Nat) :
    (m.replyAt c (i + n)).result = .ok .running ∧
      ∃ steps, (m.attempts (i + n + p) c).machine =
        (m.attempts (i + n) c).machine.withSteps steps := by
  have hpos : 0 < p := Nat.pos_of_lt_add_right h.lt
  induction n using Nat.strongRecOn with
  | ind n ih =>
    constructor
    · -- a step of a later round is a step of the round before
      by_cases hn : n < p
      · exact h.goesOn (i + n) (Nat.add_lt_add_left hn i)
      · obtain ⟨r, rfl⟩ := Nat.exists_eq_add_of_le' (Nat.le_of_not_lt hn)
        obtain ⟨hgoes, steps, hmachine⟩ := ih r (Nat.lt_add_of_pos_right hpos)
        rw [← Nat.add_assoc, (replyAt_of_withSteps hc hgoes hmachine).1]
        exact hgoes
    · cases n with
      | zero => exact h.exists_withSteps
      | succ n =>
        obtain ⟨hgoes, steps, hmachine⟩ := ih n (Nat.lt_succ_self n)
        have hnext := (replyAt_of_withSteps hc hgoes hmachine).2
        rw [Nat.add_right_comm] at hnext
        exact ⟨steps + 1, hnext⟩

theorem Recurs.replyAt_add (hc : Console.NeverFails c) (h : m.Recurs c i (i + p)) (n : Nat) :
    m.replyAt c (i + n + p) = m.replyAt c (i + n) := by
  obtain ⟨hgoes, steps, hmachine⟩ := h.goesOn_and_exists_withSteps hc n
  exact (replyAt_of_withSteps hc hgoes hmachine).1

theorem Recurs.result_replyAt (hc : Console.NeverFails c) (h : m.Recurs c i j) (k : Nat) :
    (m.replyAt c k).result = .ok .running := by
  obtain ⟨p, rfl⟩ := Nat.exists_eq_add_of_le (Nat.le_of_lt h.lt)
  by_cases hk : k < i
  · exact h.goesOn k (Nat.lt_trans hk h.lt)
  · obtain ⟨n, rfl⟩ := Nat.exists_eq_add_of_le (Nat.le_of_not_lt hk)
    exact (h.goesOn_and_exists_withSteps hc n).1

/-! ## What is written -/

theorem written_add (m : Machine) (c : κ) (i a b : Nat) :
    m.written c i (a + b) = m.written c i a ++ m.written c (i + a) b := by
  simp only [written, List.range_add, List.flatMap_append, List.flatMap_map, Nat.add_assoc]

/-- Each round writes what the one before has written. -/
theorem Recurs.written_round (hc : Console.NeverFails c) (h : m.Recurs c i (i + p)) (n : Nat) :
    m.written c (i + p) n = m.written c i n := by
  have hreply : ∀ k, m.replyAt c (i + p + k) = m.replyAt c (i + k) := by
    intro k
    rw [Nat.add_right_comm, h.replyAt_add hc]
  simp only [written, hreply]

theorem Recurs.written_rounds (hc : Console.NeverFails c) (h : m.Recurs c i (i + p)) (n r : Nat) :
    m.written c i (n * p + r) = (List.replicate n (m.written c i p)).flatten ++ m.written c i r := by
  induction n with
  | zero => simp
  | succ n ih =>
    have hsplit : (n + 1) * p + r = p + (n * p + r) := by
      rw [Nat.succ_mul]
      omega
    rw [hsplit, written_add, h.written_round hc, ih, List.replicate_succ, List.flatten_cons,
      List.append_assoc]

/-! ## Runs -/

/-- A run that is taken up while all further steps go on does not end. -/
theorem not_runsTo_of_goesOn (hgoes : ∀ k, (m.replyAt c k).result = .ok .running) (k : Nat) :
    ¬ ∃ t, (m.attempts k c).machine.RunsTo (m.attempts k c).console t := by
  rintro ⟨t, ht⟩
  obtain ⟨n, hstops, -⟩ := runsTo_iff_stopsAt.1 ht
  have hstate := (execute_of_replyAt (hgoes k)).1
  refine hstops.stops ?_
  rw [started, running_eq_self hstate]
  cases n with
  | zero => exact congrArg Except.ok hstate
  | succ n =>
    have hlater := hgoes (k + n)
    rw [Machine.result_replyAt, Nat.add_assoc, attempts_add_succ] at hlater
    exact hlater

theorem steps_attempts_of_goesOn (hgoes : ∀ k, (m.replyAt c k).result = .ok .running) (k : Nat) :
    (m.attempts k c).machine.steps = m.steps + k := by
  induction k with
  | zero => rfl
  | succ k ih => rw [(execute_of_replyAt (hgoes k)).2.2, ih, Nat.add_assoc]

/-- **A machine that comes round again never ends.** On a console that never fails, let a machine be in
the same position after `i` and after `j` steps, and let all steps up to then go on. Then all further
steps go on as well, and each is seen to do what the step one round before has done. No run comes to
an end, wherever it is taken up; from the first time on, what is written is what was written on the
first round, over and over; and the count of steps grows with each. -/
theorem recurring_never_ends (hc : Console.NeverFails c) (h : m.Recurs c i j) :
    (∀ k, (m.replyAt c k).result = .ok .running) ∧
    (∀ k, i ≤ k → m.replyAt c (k + (j - i)) = m.replyAt c k) ∧
    (∀ k, ¬ ∃ t, (m.attempts k c).machine.RunsTo (m.attempts k c).console t) ∧
    (∀ n r, m.written c i (n * (j - i) + r) =
      (List.replicate n (m.written c i (j - i))).flatten ++ m.written c i r) ∧
    ∀ k, (m.attempts k c).machine.steps = m.steps + k := by
  have hgoes := h.result_replyAt hc
  obtain ⟨p, rfl⟩ := Nat.exists_eq_add_of_le (Nat.le_of_lt h.lt)
  rw [Nat.add_sub_cancel_left]
  refine ⟨hgoes, fun k hk => ?_, not_runsTo_of_goesOn hgoes, h.written_rounds hc,
    steps_attempts_of_goesOn hgoes⟩
  obtain ⟨n, rfl⟩ := Nat.exists_eq_add_of_le hk
  exact h.replyAt_add hc n

/-- A machine with a program that loads an address, prints it and jumps to it. -/
def circling : Machine :=
  ((((((powerOn {}).write 0 0x82).write 1 1).write 2 3).write 3 0x47).write 4 1
    |>.write 5 0x54).write 6 1

/-- Behind the load it comes round every two steps, and prints a line on each round. -/
theorem recurring_never_ends_at_jump :
    let c := Transcript.empty
    circling.Recurs c 1 3 ∧ circling.written c 1 2 = [51, 10] ∧
      circling.written c 1 5 = [51, 10, 51, 10, 51, 10] ∧ ¬ ∃ t, circling.RunsTo c t := by
  have hgoes : ∀ k, k < 3 → (circling.replyAt Transcript.empty k).result = .ok .running := by
    decide +kernel
  have hsame : (circling.attempts 1 Transcript.empty).machine.SamePosition
      (circling.attempts 3 Transcript.empty).machine :=
    ⟨by rfl, by decide +kernel, by decide +kernel, by decide +kernel⟩
  have hrecurs : circling.Recurs Transcript.empty 1 3 := ⟨by decide, hgoes, hsame⟩
  have hround : circling.written Transcript.empty 1 2 = [51, 10] := by decide +kernel
  have hprint : circling.written Transcript.empty 1 1 = [51, 10] := by decide +kernel
  have hnever : Console.NeverFails Transcript.empty := Ledger.transcript.neverFails ⟨rfl, rfl⟩
  obtain ⟨-, -, hruns, hwritten, -⟩ := recurring_never_ends hnever hrecurs
  have htwice := hwritten 2 1
  rw [hround, hprint] at htwice
  exact ⟨hrecurs, hround, htwice, hruns 0⟩

end ByteComputer.Machine
