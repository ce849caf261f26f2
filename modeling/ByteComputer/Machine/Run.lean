import ByteComputer.Machine.Step

/-!
# Runs

A run takes steps until the machine halts or a step fails, then flushes the console and notes in
the log how it ended. Not every run ends, so a run is asked for with a bound on its steps and has
no answer if the bound is too small; a larger one does not change the answer (`Machine.run_of_le`).
`Machine.advance_succ` and `Machine.advance_add` say that a number of steps is taken one after the
other and may be split anywhere.
-/

namespace ByteComputer

variable {κ : Type}

/-! ## Transitions in a row -/

/-- Whether a further step may follow: nothing has failed and the machine has not halted. -/
def Transition.goesOn (t : Transition κ) : Bool :=
  match t.result with
  | .ok .running => true
  | _ => false

theorem Transition.result_of_goesOn {t : Transition κ} (h : t.goesOn) : t.result = .ok .running := by
  unfold goesOn at h
  split at h
  · assumption
  · cases h

/-- What comes of a further transition after this one. -/
def Transition.followedBy (t u : Transition κ) : Transition κ := { u with log := t.log ++ u.log }

@[simp] theorem Transition.goesOn_followedBy (t u : Transition κ) :
    (t.followedBy u).goesOn = u.goesOn := rfl

theorem Transition.followedBy_assoc (t u v : Transition κ) :
    (t.followedBy u).followedBy v = t.followedBy (u.followedBy v) := by
  simp [followedBy]

/-! ## Several steps -/

variable [Console κ]

/-- Takes at most `n` further steps, none after one that does not go on. The log so far is kept
backwards. -/
def Machine.advanceFrom (log : List Log.Entry) : Nat → Machine → κ → Transition κ
  | 0, m, c => ⟨.ok .running, m, c, log.reverse⟩
  | n + 1, m, c =>
    let t := m.step c
    if t.goesOn then advanceFrom (t.log.reverse ++ log) n t.machine t.console
    else { t with log := log.reverse ++ t.log }

/-- Takes at most `n` steps, none after one that does not go on. The result is that of the last
step; it is running also when there was no step to take. -/
def Machine.advance (n : Nat) (m : Machine) (c : κ) : Transition κ := Machine.advanceFrom [] n m c

theorem Machine.advanceFrom_eq (log : List Log.Entry) (n : Nat) (m : Machine) (c : κ) :
    advanceFrom log n m c = { advance n m c with log := log.reverse ++ (advance n m c).log } := by
  induction n generalizing log m c with
  | zero => simp [advance, advanceFrom]
  | succ n ih =>
    simp only [advance, advanceFrom]
    split
    · rw [ih, ih ((m.step c).log.reverse ++ [])]
      simp
    · simp

@[simp] theorem Machine.advance_zero (m : Machine) (c : κ) :
    m.advance 0 c = ⟨.ok .running, m, c, []⟩ := rfl

/-- The first step decides whether there are more. -/
theorem Machine.advance_succ (n : Nat) (m : Machine) (c : κ) :
    m.advance (n + 1) c =
      if (m.step c).goesOn then
        (m.step c).followedBy ((m.step c).machine.advance n (m.step c).console)
      else m.step c := by
  conv => lhs; simp only [advance, advanceFrom]
  split
  · simp [advanceFrom_eq, Transition.followedBy]
  · simp

/-- Steps may be counted in two parts: the second part is taken up where the first ends, unless
the first does not go on. -/
theorem Machine.advance_add (j k : Nat) (m : Machine) (c : κ) :
    m.advance (j + k) c =
      if (m.advance j c).goesOn then
        (m.advance j c).followedBy ((m.advance j c).machine.advance k (m.advance j c).console)
      else m.advance j c := by
  induction j generalizing m c with
  | zero => simp [Transition.goesOn, Transition.followedBy]
  | succ j ih =>
    rw [Nat.succ_add, advance_succ, advance_succ, ih]
    by_cases h : (m.step c).goesOn
    · simp only [h, if_true, Transition.goesOn_followedBy]
      split
      · exact (Transition.followedBy_assoc ..).symm
      · rfl
    · simp [h]

theorem Machine.advance_one (m : Machine) (c : κ) : m.advance 1 c = m.step c := by
  rw [advance_succ, advance_zero]
  split
  · rename_i hgoes
    rw [Transition.followedBy, ← Transition.result_of_goesOn hgoes, List.append_nil]
  · rfl

/-- The last step is taken if all before it go on. -/
theorem Machine.advance_succ_last (n : Nat) (m : Machine) (c : κ) :
    m.advance (n + 1) c =
      if (m.advance n c).goesOn then
        (m.advance n c).followedBy ((m.advance n c).machine.step (m.advance n c).console)
      else m.advance n c := by
  rw [advance_add, advance_one]

/-! ## Whole runs -/

/-- The end of a run: the console is flushed and the log told how it went. A flush that fails is
what the run ends with, and then the log is told nothing. -/
def Transition.conclude (t : Transition κ) : Transition κ :=
  match Console.flush t.console with
  | (console, .error e) => { t with result := .error (.outputRefused e), console }
  | (console, .ok ()) =>
    let verdict := match t.result with
      | .ok _ => .halted t.machine.steps
      | .error fault => .stopped t.machine.steps fault
    { t with console, log := t.log ++ [verdict] }

/-- Runs the machine to its end, if it comes within `fuel` steps. A machine that has halted is set
running again. -/
def Machine.run (fuel : Nat) (m : Machine) (c : κ) : Option (Transition κ) :=
  let t := { m with state := .running }.advance fuel c
  if t.goesOn then none else some t.conclude

theorem Machine.run_of_le {j k : Nat} (hjk : j ≤ k) {m : Machine} {c : κ} {t : Transition κ}
    (h : m.run j c = some t) : m.run k c = some t := by
  obtain ⟨n, rfl⟩ := Nat.exists_eq_add_of_le hjk
  simp only [run] at h ⊢
  rw [advance_add]
  split at h
  · cases h
  · rename_i hends
    simpa [hends] using h

end ByteComputer
