import ByteComputer.Console.Transcript
import ByteComputer.Proofs.Console.Flushing
import ByteComputer.Proofs.Console.Recorded
import ByteComputer.Proofs.Machine.Loading
import ByteComputer.Proofs.Machine.Loop
import Mathlib.Data.Nat.Find

/-!
# Runs as single steps

A run sets the machine running and takes one step after the other up to the first that does not leave
it running. It may be taken over from single steps at any point before that.

* `Machine.StopsAt`: how many single steps a run takes.
* `Machine.loopEnds_iff_stopsAt`: the loop of a run ends if there is such a number, and then with that
  many steps.
* `Machine.LoopEnds.split`: what is left of a loop after some of its steps.
* `Machine.run_iterates_steps`: a run is that many steps and a flush, and can be split anywhere.
-/

namespace ByteComputer

variable {κ : Type} [Console κ]

/-- What comes before the end of a run does not take part in it. -/
theorem Transition.conclude_followedBy (s t : Transition κ) :
    (s.followedBy t).conclude = s.followedBy t.conclude := by
  rcases hflush : Console.flush t.console with ⟨d, e | done⟩
  · rw [conclude_of_flush_error hflush, conclude_of_flush_error (t := s.followedBy t) hflush]
    rfl
  · rw [conclude_of_flush hflush, conclude_of_flush (t := s.followedBy t) hflush]
    simp only [followedBy, List.append_assoc]

namespace Machine

/-- Of `n` single steps the last is the first that does not leave the machine running. -/
structure StopsAt (m : Machine) (c : κ) (n : Nat) : Prop where
  goesOn : ∀ i, i < n → (m.attempts i c).result = .ok .running
  stops : (m.attempts n c).result ≠ .ok .running

variable {m : Machine} {c : κ} {t : Transition κ} {k n : Nat}

/-! ## The loop of a run -/

theorem StopsAt.unique (h : m.StopsAt c n) (h' : m.StopsAt c k) : n = k := by
  rcases Nat.lt_trichotomy n k with hlt | heq | hgt
  · exact absurd (h'.goesOn n hlt) h.stops
  · exact heq
  · exact absurd (h.goesOn k hgt) h'.stops

theorem StopsAt.loopEnds (h : m.StopsAt c n) (hstate : m.state = .running) :
    m.LoopEnds c (m.attempts n c) := by
  have hsteps := advance_eq_attempts hstate h.goesOn
  rw [← hsteps]
  refine loopEnds_advance ?_
  rw [hsteps]
  exact h.stops

theorem LoopEnds.exists_stopsAt (h : m.LoopEnds c t) (hstate : m.state = .running) :
    ∃ n, m.StopsAt c n := by
  classical
  have hstops : ∃ n, (m.attempts n c).result ≠ .ok .running := by
    obtain ⟨n, hn⟩ := h.exists_advance
    -- if all steps went on, the loop would have gone on as well
    by_contra hnone
    have hgoes : ∀ i, (m.attempts i c).result = .ok .running := by simpa using hnone
    rw [advance_eq_attempts hstate fun i _ => hgoes i] at hn
    exact h.result_ne_running (hn ▸ hgoes n)
  refine ⟨Nat.find hstops, fun i hi => ?_, Nat.find_spec hstops⟩
  exact not_not.1 (Nat.find_min hstops hi)

theorem loopEnds_iff_stopsAt (hstate : m.state = .running) :
    m.LoopEnds c t ↔ ∃ n, m.StopsAt c n ∧ t = m.attempts n c := by
  constructor
  · intro h
    obtain ⟨n, hn⟩ := h.exists_stopsAt hstate
    exact ⟨n, hn, h.unique (hn.loopEnds hstate)⟩
  · rintro ⟨n, hn, rfl⟩
    exact hn.loopEnds hstate

/-- After some steps of a loop the rest of it is the loop from there on. -/
theorem LoopEnds.split (h : m.LoopEnds c t)
    (hgoes : ∀ i, i ≤ k → (m.attempts i c).result = .ok .running) :
    ∃ u, (m.attempts k c).machine.LoopEnds (m.attempts k c).console u ∧
      t = (m.attempts k c).followedBy u := by
  induction k with
  | zero => exact ⟨t, h, rfl⟩
  | succ k ih =>
    obtain ⟨u, hu, rfl⟩ := ih fun i hi => hgoes i (Nat.le_succ_of_le hi)
    have hstep := hgoes (k + 1) (Nat.le_refl _)
    cases hu with
    | last hends => exact absurd hstep hends
    | @next _ _ rest _ hrest => exact ⟨rest, hrest, (Transition.followedBy_assoc ..).symm⟩

theorem state_of_attempts {i : Nat} (hstate : m.state = .running)
    (h : (m.attempts i c).result = .ok .running) : (m.attempts i c).machine.state = .running := by
  cases i with
  | zero => exact hstate
  | succ i => exact state_of_step_ok h

/-! ## Runs -/

/-- A run is as many single steps as it takes, and a flush. -/
theorem runsTo_iff_stopsAt :
    m.RunsTo c t ↔ ∃ n, m.started.StopsAt c n ∧ t = (m.started.attempts n c).conclude := by
  rw [runsTo_iff]
  constructor
  · rintro ⟨u, hu, rfl⟩
    obtain ⟨n, hn, rfl⟩ := (loopEnds_iff_stopsAt rfl).1 hu
    exact ⟨n, hn, rfl⟩
  · rintro ⟨n, hn, rfl⟩
    exact ⟨_, hn.loopEnds rfl, rfl⟩

/-- A run that takes over from single steps is what is left of the whole run. -/
theorem RunsTo.split (h : m.RunsTo c t)
    (hgoes : ∀ i, i ≤ k → (m.started.attempts i c).result = .ok .running) :
    ∃ u, (m.started.attempts k c).machine.RunsTo (m.started.attempts k c).console u ∧
      t = (m.started.attempts k c).followedBy u := by
  obtain ⟨w, hw, rfl⟩ := runsTo_iff.1 h
  obtain ⟨u, hu, rfl⟩ := hw.split hgoes
  have hrunning : (m.started.attempts k c).machine.started = (m.started.attempts k c).machine :=
    running_eq_self (state_of_attempts rfl (hgoes k (Nat.le_refl k)))
  refine ⟨u.conclude, runsTo_iff.2 ⟨u, ?_, rfl⟩, Transition.conclude_followedBy _ u⟩
  rw [hrunning]
  exact hu

/-- A run never begins with a machine that takes no steps, so it does not end as if it had. -/
theorem RunsTo.result_ne_halted (h : m.RunsTo c t) : t.result ≠ .error .halted := by
  obtain ⟨u, hu, rfl⟩ := runsTo_iff.1 h
  rcases hflush : Console.flush u.console with ⟨d, e | done⟩
  · rw [conclude_of_flush_error hflush]
    simp
  · rw [conclude_of_flush hflush]
    rcases hu.ending rfl with h | ⟨_, _, h⟩ | ⟨_, _, h⟩ | ⟨_, _, h⟩ | ⟨_, _, h⟩ | ⟨_, h⟩ <;> simp [h]

theorem run_of_stopsAt (hstops : m.started.StopsAt c n) :
    m.run n c = some (m.started.attempts n c).conclude := by
  have hsteps : m.started.advance n c = m.started.attempts n c :=
    advance_eq_attempts rfl hstops.goesOn
  have hends : ¬ (m.started.advance n c).goesOn = true := by
    rw [hsteps, Transition.goesOn_iff]
    exact hstops.stops
  rw [← hsteps]
  exact if_neg hends

/-- What a run of `n` steps asks of its console: the writes of its steps, and then one flush. -/
theorem RunsTo.recorded (hstops : m.started.StopsAt c n) (h : m.RunsTo c t) :
    m.RunsTo (⟨c, []⟩ : Recorded κ)
      { t with console := ⟨t.console, (m.started.outputs c n).map .write ++ [.flush]⟩ } := by
  have hrun := run_of_stopsAt hstops
  obtain rfl := h.unique ⟨n, hrun⟩
  refine ⟨n, ?_⟩
  rw [run_recorded, hrun]
  rfl

/-- **A run is single steps in a row.** It ends if there is a first step that does not leave the
machine running, and then it is that step and those before it, and a flush behind all that they
write: it has their machine and their console, and what the last step has answered unless the flush
fails. Up to that step it can be taken over from single steps. It never refuses to begin. -/
theorem run_iterates_steps (m : Machine) (c : κ) :
    ((∃ t, m.RunsTo c t) ↔ ∃ n, m.started.StopsAt c n) ∧
    (∀ t, m.RunsTo c t → t.result ≠ .error .halted) ∧
    ∀ n t, m.started.StopsAt c n → m.RunsTo c t →
      let last := m.started.attempts n c
      t.machine = last.machine ∧ t.console = (Console.flush last.console).1 ∧
      ((Console.flush last.console).2 = .ok () → t.result = last.result) ∧
      (∀ e, (Console.flush last.console).2 = .error e → t.result = .error (.outputRefused e)) ∧
      m.RunsTo (⟨c, []⟩ : Recorded κ)
        { t with console := ⟨t.console, (m.started.outputs c n).map .write ++ [.flush]⟩ } ∧
      ∀ k, k < n →
        let before := m.started.attempts k c
        ∃ u, before.machine.RunsTo before.console u ∧ t = before.followedBy u := by
  refine ⟨?_, fun t h => h.result_ne_halted, ?_⟩
  · constructor
    · rintro ⟨t, h⟩
      obtain ⟨n, hn, -⟩ := runsTo_iff_stopsAt.1 h
      exact ⟨n, hn⟩
    · rintro ⟨n, hn⟩
      exact ⟨_, runsTo_iff_stopsAt.2 ⟨n, hn, rfl⟩⟩
  · intro n t hstops h last
    have hrecorded := h.recorded hstops
    have hsplit : ∀ k, k < n → ∃ u, (m.started.attempts k c).machine.RunsTo
        (m.started.attempts k c).console u ∧ t = (m.started.attempts k c).followedBy u :=
      fun k hk => h.split fun i hi => hstops.goesOn i (Nat.lt_of_le_of_lt hi hk)
    have ht : t = last.conclude := h.unique (runsTo_iff_stopsAt.2 ⟨n, hstops, rfl⟩)
    rcases hflush : Console.flush last.console with ⟨d, e | done⟩
    · rw [conclude_of_flush_error hflush] at ht
      refine ⟨by rw [ht], by rw [ht], nofun, ?_, hrecorded, hsplit⟩
      intro e' he'
      cases he'
      rw [ht]
    · rw [conclude_of_flush hflush] at ht
      exact ⟨by rw [ht], by rw [ht], fun _ => by rw [ht], nofun, hrecorded, hsplit⟩

/-- A machine that has halted, with a program that prints a number and halts: its run is two steps,
of which the first may be taken singly. -/
theorem run_iterates_steps_at_halted :
    let m := { ((powerOn {}).write 0 0x47).write 2 0x01 with state := .halted }
    let before := m.started.attempts 1 Transcript.empty
    m.started.StopsAt Transcript.empty 2 ∧
      ∃ t u, m.RunsTo Transcript.empty t ∧ t.result = .ok .halted ∧
        t.console.bytes.toList = [48, 10] ∧
        before.machine.RunsTo before.console u ∧ t = before.followedBy u := by
  intro m before
  have hstops : m.started.StopsAt Transcript.empty 2 := ⟨by decide +kernel, by decide +kernel⟩
  have hresult : (m.started.attempts 2 Transcript.empty).result = .ok .halted := by decide +kernel
  have hbytes : (m.started.attempts 2 Transcript.empty).console.bytes.toList = [48, 10] := by
    decide +kernel
  obtain ⟨hends, -, hrun⟩ := run_iterates_steps m Transcript.empty
  obtain ⟨t, ht⟩ := hends.2 ⟨2, hstops⟩
  obtain ⟨-, hconsole, hflushed, -, -, hsplit⟩ := hrun 2 t hstops ht
  obtain ⟨u, hu, hsame⟩ := hsplit 1 (Nat.lt_succ_self 1)
  refine ⟨hstops, t, u, ht, (hflushed rfl).trans hresult, ?_, hu, hsame⟩
  rw [hconsole]
  exact hbytes

end Machine

end ByteComputer
