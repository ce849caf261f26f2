import ByteComputer.Proofs.Machine.Frame
import ByteComputer.Proofs.Machine.Outcome

/-!
# Views of a machine

A view puts a machine into another frame, that is, it changes stack floor and configuration, and
leaves entries out of its log. What an instruction does is the same in every frame; so as long as a
machine is ready for the same in both, a view shows each of its steps as a step, and then also
several steps and runs.

* `View`, `Transition.through`: a view, and what it shows of a transition.
* `Machine.execute_machine`: what an instruction does, seen through a view.
* `Machine.stepsThrough_of_ready`: the step of a machine that is ready for the same in both frames.
* `Machine.advance_through`, `Machine.run_through`: from single steps to several steps and to runs.
-/

namespace ByteComputer

/-- Another way to look at machines and their logs: in another frame, and without the steps that the
log is told in advance if the frame is one without a trace. -/
structure View where
  floor : Nat → Nat
  config : Config → Config
  shows : Log.Entry → Bool
  echoOnHalt : ∀ cfg, (config cfg).echoOnHalt = cfg.echoOnHalt
  trace : ∀ cfg before, (config cfg).trace = (cfg.trace && shows (.aboutToStep before))
  shows_of_level : ∀ e : Log.Entry, e.level ≠ .trace → shows e = true

/-- The machine in the frame of the view. -/
def View.machine (v : View) (m : Machine) : Machine :=
  { m with stackFloor := v.floor m.stackFloor, config := v.config m.config }

variable {κ : Type}

namespace Transition

/-- What a view shows of a transition. -/
def through (v : View) (t : Transition κ) : Transition κ :=
  { t with machine := v.machine t.machine, log := t.log.filter v.shows }

variable (v : View) (t u : Transition κ)

@[simp] theorem goesOn_through : (t.through v).goesOn = t.goesOn := rfl

theorem followedBy_through :
    (t.followedBy u).through v = (t.through v).followedBy (u.through v) := by
  simp only [through, followedBy, List.filter_append]

theorem conclude_through [Console κ] : (t.through v).conclude = t.conclude.through v := by
  rcases hflush : Console.flush t.console with ⟨d, e | done⟩
  · rw [conclude_of_flush_error hflush, conclude_of_flush_error (t := t.through v) hflush]
    rfl
  · rw [conclude_of_flush hflush, conclude_of_flush (t := t.through v) hflush]
    cases hresult : t.result with
    | ok s =>
      have hshows : v.shows (.halted t.machine.steps) = true := v.shows_of_level _ nofun
      simp only [through, hresult, List.filter_append, List.filter_cons_of_pos hshows,
        List.filter_nil]
      rfl
    | error fault =>
      have hshows : v.shows (.stopped t.machine.steps fault) = true := v.shows_of_level _ nofun
      simp only [through, hresult, List.filter_append, List.filter_cons_of_pos hshows,
        List.filter_nil]
      rfl

end Transition

namespace Machine

variable {v : View} {m : Machine}

/-! ## One instruction -/

theorem execute_machine (i : Instruction) : (v.machine m).execute i = v.machine (m.execute i) := by
  refine (m.execute_inFrame _ _ i).trans ?_
  rw [← stackFloor_execute m i, ← config_execute m i]
  rfl

theorem state_execute_machine (v : View) (i : Instruction) :
    ((v.machine m).execute i).state = (m.execute i).state := by
  rw [execute_machine]
  rfl

theorem refused_machine (i : Instruction) : (v.machine m).refused i = v.machine (m.refused i) := by
  cases i <;> rfl

theorem output?_machine (i : Instruction) : (v.machine m).output? i = m.output? i :=
  m.output?_inFrame _ _ i (v.echoOnHalt m.config)

theorem traceNotes_machine : (v.machine m).traceNotes = m.traceNotes.filter v.shows := by
  have htrace : (v.machine m).config.trace = (m.config.trace && v.shows (.aboutToStep m.snapshot)) :=
    v.trace m.config m.snapshot
  have hsnapshot : (v.machine m).snapshot = m.snapshot := rfl
  unfold traceNotes
  rw [htrace, hsnapshot]
  cases m.config.trace with
  | false => rfl
  | true => simp [List.filter_cons]

/-- What is noted about an instruction itself is no part of a trace. -/
theorem level_of_notes {i : Instruction} {e : Log.Entry} (h : e ∈ m.notes i) : e.level ≠ .trace := by
  cases i with
  | halt =>
    cases List.mem_singleton.1 h
    nofun
  | binary op target source =>
    simp only [notes] at h
    split at h
    · cases h
    · cases List.mem_singleton.1 h
      nofun
  | _ => cases h

theorem notes_machine (i : Instruction) : (v.machine m).notes i = (m.notes i).filter v.shows := by
  have hnotes : (v.machine m).notes i = m.notes i := m.notes_inFrame _ _ i
  rw [hnotes, List.filter_eq_self.2 fun e he => v.shows_of_level e (level_of_notes he)]

/-! ## Steps and runs -/

variable [Console κ] {c : κ}

/-- The view shows the next step as the step of the machine that it shows. -/
def StepsThrough (v : View) (m : Machine) (c : κ) : Prop :=
  (v.machine m).step c = (m.step c).through v

/-- A machine that is ready for the same in both frames takes the same step in both. -/
theorem stepsThrough_of_ready (hready : (v.machine m).ready = m.ready) : StepsThrough v m c := by
  have hstate : (v.machine m).state = m.state := rfl
  have hjoint := jointOutcome_step hstate (fun _ => hready) output?_machine c
  unfold StepsThrough
  generalize m.step c = t, (v.machine m).step c = u at hjoint ⊢
  cases hjoint with
  | atRest => rfl
  | faulted => rw [Transition.through, ← traceNotes_machine]
  | executed =>
    rw [Transition.through, List.filter_append, ← traceNotes_machine, ← notes_machine,
      ← execute_machine, state_execute_machine]
  | refused =>
    rw [Transition.through, List.filter_append, ← traceNotes_machine, ← notes_machine,
      ← refused_machine]

theorem advance_through {n : Nat}
    (hstep : ∀ k, k < n → (m.advance k c).goesOn = true →
      StepsThrough v (m.advance k c).machine (m.advance k c).console) :
    (v.machine m).advance n c = (m.advance n c).through v := by
  induction n with
  | zero => rfl
  | succ n ih =>
    rw [advance_succ_last, advance_succ_last, ih fun k hk => hstep k (Nat.lt_succ_of_lt hk),
      Transition.goesOn_through]
    by_cases hgoes : (m.advance n c).goesOn = true
    · have hlast := hstep n (Nat.lt_succ_self n) hgoes
      rw [if_pos hgoes, if_pos hgoes, Transition.followedBy_through, ← hlast]
      rfl
    · rw [if_neg hgoes, if_neg hgoes]

theorem run_through {fuel : Nat}
    (hstep : ∀ k, k < fuel → (({ m with state := .running } : Machine).advance k c).goesOn = true →
      StepsThrough v (({ m with state := .running } : Machine).advance k c).machine
        (({ m with state := .running } : Machine).advance k c).console) :
    (v.machine m).run fuel c = (m.run fuel c).map (Transition.through v) := by
  have hsteps : ({ v.machine m with state := .running } : Machine).advance fuel c =
      (({ m with state := .running } : Machine).advance fuel c).through v := advance_through hstep
  simp only [run, hsteps, Transition.goesOn_through]
  split
  · rfl
  · rw [Option.map_some, Transition.conclude_through]

end Machine

end ByteComputer
