import ByteComputer.Proofs.Faults

/-!
# The loop of a run

A run takes steps until one of them halts the machine or fails. Here this is said without a bound on
the number of steps, as a relation that looks at one step after the other.

* `Machine.LoopEnds`: the steps from a machine on come to an end, and what has come of them by then.
* `Machine.loopEnds_iff`, `Machine.exists_run_iff`: so it is exactly if some bound is large enough, and
  then a run ends with what the end of the loop and the flush make of it.
* `Machine.RunsTo`: a run that ends, and what has come of it.
* `Machine.attempts`: steps that are taken singly, also after one that has failed.
* `Machine.LoopEnds.last_step`: the loop of a machine that is running ends with a step of a machine
  that is running.
-/

namespace ByteComputer

variable {κ : Type}

theorem Transition.goesOn_iff {t : Transition κ} : t.goesOn = true ↔ t.result = .ok .running := by
  constructor
  · exact result_of_goesOn
  · intro h
    simp only [goesOn, h]

variable [Console κ]

namespace Machine

/-- Steps are taken until one does not leave the machine running. The transition is that of the
last step, with all that the log was told on the way. -/
inductive LoopEnds : Machine → κ → Transition κ → Prop
  | last {m : Machine} {c : κ} (hends : (m.step c).result ≠ .ok .running) :
      LoopEnds m c (m.step c)
  | next {m : Machine} {c : κ} {t : Transition κ} (hgoes : (m.step c).result = .ok .running)
      (hrest : LoopEnds (m.step c).machine (m.step c).console t) :
      LoopEnds m c ((m.step c).followedBy t)

variable {m : Machine} {c : κ} {t u : Transition κ}

theorem LoopEnds.result_ne_running (h : m.LoopEnds c t) : t.result ≠ .ok .running := by
  induction h with
  | last hends => exact hends
  | next _ _ ih => exact ih

/-! ## The loop with a bound -/

theorem LoopEnds.exists_advance (h : m.LoopEnds c t) : ∃ n, m.advance n c = t := by
  induction h with
  | @last m c _ => exact ⟨1, m.advance_one c⟩
  | @next m c t hgoes _ ih =>
    obtain ⟨n, hn⟩ := ih
    refine ⟨n + 1, ?_⟩
    rw [advance_succ, if_pos (Transition.goesOn_iff.2 hgoes), hn]

theorem loopEnds_advance {n : Nat} (h : (m.advance n c).result ≠ .ok .running) :
    m.LoopEnds c (m.advance n c) := by
  induction n generalizing m c with
  | zero => exact absurd rfl h
  | succ n ih =>
    rw [advance_succ] at h ⊢
    by_cases hgoes : (m.step c).goesOn = true
    · rw [if_pos hgoes] at h ⊢
      exact .next (Transition.result_of_goesOn hgoes) (ih h)
    · rw [if_neg hgoes] at h ⊢
      exact .last h

theorem loopEnds_iff : m.LoopEnds c t ↔ t.result ≠ .ok .running ∧ ∃ n, m.advance n c = t := by
  constructor
  · intro h
    exact ⟨h.result_ne_running, h.exists_advance⟩
  · rintro ⟨hends, n, rfl⟩
    exact loopEnds_advance hends

theorem LoopEnds.unique (ht : m.LoopEnds c t) (hu : m.LoopEnds c u) : t = u := by
  induction ht generalizing u with
  | last hends =>
    cases hu with
    | last => rfl
    | next hgoes => exact absurd hgoes hends
  | next hgoes _ ih =>
    cases hu with
    | last hends => exact absurd hgoes hends
    | next _ hrest => rw [ih hrest]

/-- A run ends if its loop does, and then as the flush makes it. -/
theorem exists_run_iff :
    (∃ fuel, m.run fuel c = some u) ↔
      ∃ t, ({ m with state := .running } : Machine).LoopEnds c t ∧ u = t.conclude := by
  constructor
  · rintro ⟨fuel, h⟩
    simp only [run] at h
    split at h
    · cases h
    · rename_i hends
      exact ⟨_, loopEnds_advance (mt Transition.goesOn_iff.2 hends), (Option.some.inj h).symm⟩
  · rintro ⟨t, ht, rfl⟩
    obtain ⟨hends, n, rfl⟩ := loopEnds_iff.1 ht
    exact ⟨n, if_neg (mt Transition.goesOn_iff.1 hends)⟩

theorem run_of_loopEnds (ht : ({ m with state := .running } : Machine).LoopEnds c t) {fuel : Nat}
    (h : m.run fuel c = some u) : u = t.conclude := by
  obtain ⟨v, hv, rfl⟩ := exists_run_iff.1 ⟨fuel, h⟩
  rw [hv.unique ht]

/-! ## Runs without a bound -/

/-- The machine that a run begins with. -/
def started (m : Machine) : Machine := { m with state := .running }

/-- The run comes to an end, and the transition is what has come of it. -/
def RunsTo (m : Machine) (c : κ) (t : Transition κ) : Prop := ∃ fuel, m.run fuel c = some t

theorem runsTo_iff : m.RunsTo c u ↔ ∃ t, m.started.LoopEnds c t ∧ u = t.conclude :=
  exists_run_iff

theorem RunsTo.unique (ht : m.RunsTo c t) (hu : m.RunsTo c u) : t = u := by
  obtain ⟨j, hj⟩ := ht
  obtain ⟨k, hk⟩ := hu
  have hj' := run_of_le (Nat.le_max_left j k) hj
  have hk' := run_of_le (Nat.le_max_right j k) hk
  exact Option.some.inj (hj'.symm.trans hk')

/-- A run that has ended has not left the machine running. -/
theorem RunsTo.result_ne_running (h : m.RunsTo c t) : t.result ≠ .ok .running := by
  obtain ⟨u, hu, rfl⟩ := runsTo_iff.1 h
  rcases hflush : Console.flush u.console with ⟨d, e | done⟩
  · rw [conclude_of_flush_error hflush]
    nofun
  · rw [conclude_of_flush hflush]
    exact hu.result_ne_running

/-! ## Single steps -/

/-- Takes `k` steps, each of them also if the one before has failed. -/
def attempts : Nat → Machine → κ → Transition κ
  | 0, m, c => ⟨.ok m.state, m, c, []⟩
  | k + 1, m, c =>
    let t := m.attempts k c
    t.followedBy (t.machine.step t.console)

theorem config_attempts (m : Machine) (c : κ) (k : Nat) :
    (m.attempts k c).machine.config = m.config := by
  induction k with
  | zero => rfl
  | succ k ih => exact (config_step _ _).trans ih

theorem stackFloor_attempts (m : Machine) (c : κ) (k : Nat) :
    (m.attempts k c).machine.stackFloor = m.stackFloor := by
  induction k with
  | zero => rfl
  | succ k ih => exact (stackFloor_step _ _).trans ih

/-- Single steps may be counted in two parts. -/
theorem attempts_add_succ (m : Machine) (c : κ) (j k : Nat) :
    m.attempts (j + (k + 1)) c =
      (m.attempts j c).followedBy
        ((m.attempts j c).machine.attempts (k + 1) (m.attempts j c).console) := by
  induction k with
  | zero => rfl
  | succ k ih =>
    rw [← Nat.add_assoc, attempts, ih]
    exact Transition.followedBy_assoc ..

/-- Steps that go on are those that a loop takes. -/
theorem advance_eq_attempts {n : Nat} (hstate : m.state = .running)
    (hgoes : ∀ i, i < n → (m.attempts i c).result = .ok .running) :
    m.advance n c = m.attempts n c := by
  induction n with
  | zero => simp only [advance_zero, attempts, hstate]
  | succ n ih =>
    have hbefore := ih fun i hi => hgoes i (Nat.lt_succ_of_lt hi)
    have hlast : (m.advance n c).goesOn = true := by
      rw [hbefore, Transition.goesOn_iff]
      exact hgoes n (Nat.lt_succ_self n)
    rw [advance_succ_last, if_pos hlast, hbefore]
    rfl

/-! ## The last step -/

theorem state_of_step_ok {s : State} (h : (m.step c).result = .ok s) :
    (m.step c).machine.state = s := by
  obtain ⟨i, -, -, hmachine, hs⟩ := execute_of_step_ok h
  rw [hmachine, hs]

theorem LoopEnds.last_step (h : m.LoopEnds c t) (hstate : m.state = .running) :
    ∃ (before : Machine) (d : κ), before.state = .running ∧
      t.result = (before.step d).result ∧ t.machine = (before.step d).machine := by
  induction h with
  | last => exact ⟨_, _, hstate, rfl, rfl⟩
  | next hgoes _ ih => exact ih (state_of_step_ok hgoes)

/-- What a loop can end with. -/
theorem LoopEnds.ending (h : m.LoopEnds c t) (hstate : m.state = .running) :
    t.result = .ok .halted ∨ (∃ k pc, t.result = .error (.unknownOpcode k pc)) ∨
      (∃ i pc, t.result = .error (.noSuchRegister i pc)) ∨
      (∃ sp pc, t.result = .error (.stackOverflow sp pc)) ∨
      (∃ sp pc, t.result = .error (.stackUnderflow sp pc)) ∨
      ∃ e, t.result = .error (.outputRefused e) := by
  obtain ⟨before, d, hbefore, hresult, -⟩ := h.last_step hstate
  have hends := h.result_ne_running
  rw [hresult] at hends ⊢
  have htooLarge := before.result_step_ne_programTooLarge d
  have hhalted := mt (result_step_eq_halted_iff (m := before) (c := d)).1 (by simp [hbefore])
  cases hlast : (before.step d).result with
  | ok s =>
    rw [hlast] at hends
    cases s with
    | running => exact absurd rfl hends
    | halted => exact Or.inl rfl
  | error fault =>
    rw [hlast] at htooLarge hhalted
    cases fault with
    | programTooLarge size => exact absurd rfl (htooLarge size)
    | halted => exact absurd rfl hhalted
    | _ => simp

end Machine

end ByteComputer
