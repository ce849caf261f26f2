import ByteComputer.Proofs.Atomicity
import ByteComputer.Proofs.Machine.Commands
import ByteComputer.Proofs.Machine.Frame
import ByteComputer.Proofs.SingleSteps

/-!
# The echo of a halt

A machine can be set up to write its first register when it halts. On consoles that never fail this
is one more line at the end of the output, and nothing else comes of it.

* `Machine.echoing`: the same machine, set up to echo.
* `Transition.Alongside`: transitions of two such machines, of which the second has written more.
* `Machine.step_echoing`, `Machine.attempts_echoing`, `Machine.advance_echoing`: from one step to
  several, without a halt and up to one.
* `Machine.echo_adds_one_line`: any number of steps, and whole runs.
-/

namespace ByteComputer

variable {κ ι : Type}

/-- The same machine, set up to echo. -/
def Machine.echoing (m : Machine) : Machine :=
  { m with config := { m.config with echoOnHalt := true } }

/-- The next step of the machine is a halt. -/
def Machine.HaltsNext (m : Machine) : Prop :=
  m.state = .running ∧ m.read m.pc = Opcode.halt.byte

/-- What a transition is echoed with: the first register, if it has halted the machine. -/
def Transition.echo (t : Transition κ) : List Output :=
  match t.result with
  | .ok .halted => [.number (t.machine.register .first)]
  | _ => []

theorem Transition.echo_of_ne {t : Transition κ} (h : t.result ≠ .ok .halted) : t.echo = [] := by
  unfold echo
  split
  · exact absurd ‹_› h
  · rfl

variable [Console κ] [Console ι]

/-- Transitions of a machine and of the same machine set up to echo, on consoles that never fail. The
second has written some outputs more. -/
structure Transition.Alongside (more : List Output) (t : Transition (Recorded κ))
    (u : Transition (Recorded ι)) : Prop where
  result : u.result = t.result
  machine : u.machine = t.machine.echoing
  log : u.log = t.log
  calls : u.console.calls = t.console.calls ++ more.map .write
  quiet : t.machine.config.echoOnHalt = false
  never : Console.NeverFails t.console.inner
  never' : Console.NeverFails u.console.inner

theorem Transition.Alongside.goesOn {more : List Output} {t : Transition (Recorded κ)}
    {u : Transition (Recorded ι)} (h : Alongside more t u) : u.goesOn = t.goesOn := by
  unfold Transition.goesOn
  rw [h.result]

theorem Transition.Alongside.followedBy {more : List Output} {t v : Transition (Recorded κ)}
    {u w : Transition (Recorded ι)} (h : Alongside [] t u) (hnext : Alongside more v w) :
    Alongside more (t.followedBy v) (u.followedBy w) where
  result := hnext.result
  machine := hnext.machine
  log := by
    show u.log ++ w.log = t.log ++ v.log
    rw [h.log, hnext.log]
  calls := hnext.calls
  quiet := hnext.quiet
  never := hnext.never
  never' := hnext.never'

namespace Machine

variable {m : Machine} {r : Recorded κ} {s : Recorded ι}

/-! ## One step -/

theorem execute_echoing (m : Machine) (i : Instruction) :
    m.echoing.execute i = (m.execute i).echoing := by
  show (m.inFrame m.stackFloor { m.config with echoOnHalt := true }).execute i =
    (m.execute i).inFrame (m.execute i).stackFloor
      { (m.execute i).config with echoOnHalt := true }
  rw [execute_inFrame, stackFloor_execute, config_execute]

/-- A machine that echoes writes more when it executes a halt, and only then. -/
theorem output?_echoing (hquiet : m.config.echoOnHalt = false) (i : Instruction) :
    (m.echoing.output? i).toList =
      (m.output? i).toList ++ if i = .halt then [.number (m.register .first)] else [] := by
  by_cases hi : i = .halt
  · subst hi
    simp only [output?, hquiet]
    rfl
  · have hsame : m.echoing.output? i = m.output? i :=
      m.output?_inFrame_of_ne_halt m.stackFloor { m.config with echoOnHalt := true } hi
    rw [hsame, if_neg hi, List.append_nil]

/-- A step of the machine that echoes is that of the other one, with the echo behind it. -/
theorem step_echoing (hquiet : m.config.echoOnHalt = false) (hr : Console.NeverFails r.inner)
    (hs : Console.NeverFails s.inner) (hcalls : s.calls = r.calls) :
    Transition.Alongside (m.step r).echo (m.step r) (m.echoing.step s) := by
  cases hstate : m.state with
  | halted =>
    rw [(Outcome.atRest hstate).eq_step, (Outcome.atRest (m := m.echoing) hstate).eq_step]
    exact ⟨rfl, rfl, rfl, by simp [Transition.echo, hcalls], hquiet, hr, hs⟩
  | running =>
    cases hready : m.ready with
    | error fault =>
      rw [(Outcome.faulted hstate hready).eq_step,
        (Outcome.faulted (m := m.echoing) hstate hready).eq_step]
      exact ⟨rfl, rfl, rfl, by simp [Transition.echo, hcalls], hquiet, hr, hs⟩
    | ok i =>
      obtain ⟨d, hd, hstep⟩ := step_of_ready hr hstate hready
      obtain ⟨d', hd', hstep'⟩ := step_of_ready (m := m.echoing) hs hstate hready
      have hnotes : m.echoing.notes i = m.notes i := m.notes_inFrame m.stackFloor _ i
      rw [hstep, hstep', execute_echoing, hnotes, output?_echoing hquiet]
      refine ⟨rfl, rfl, rfl, ?_, ?_, hd, hd'⟩
      · rw [hcalls, List.map_append, ← List.append_assoc, Transition.echo, state_execute, hstate]
        by_cases hi : i = .halt
        · subst hi
          rfl
        · simp [hi]
      · rw [← hquiet, ← config_execute m i]

/-- A step that has halted the machine was a halt. -/
theorem haltsNext_of_step {c : κ} (h : (m.step c).result = .ok .halted) : m.HaltsNext := by
  obtain ⟨i, hstate, hready, -, hafter⟩ := execute_of_step_ok h
  rw [state_execute, hstate] at hafter
  by_cases hi : i = .halt
  · exact ⟨hstate, (byte_eq_halt_iff hready).2 hi⟩
  · rw [if_neg hi] at hafter
    cases hafter

/-! ## Several steps -/

/-- As long as no halt is executed the two machines do the same. -/
theorem attempts_echoing (hquiet : m.config.echoOnHalt = false) (hr : Console.NeverFails r.inner)
    (hs : Console.NeverFails s.inner) (hcalls : s.calls = r.calls) {k : Nat}
    (hnone : ∀ i, i < k → ¬ (m.attempts i r).machine.HaltsNext) :
    Transition.Alongside [] (m.attempts k r) (m.echoing.attempts k s) := by
  induction k with
  | zero => exact ⟨rfl, rfl, rfl, hcalls.trans (List.append_nil _).symm, hquiet, hr, hs⟩
  | succ k ih =>
    have hbefore := ih fun i hi => hnone i (Nat.lt_succ_of_lt hi)
    have hnext := step_echoing hbefore.quiet hbefore.never hbefore.never'
      (hbefore.calls.trans (List.append_nil _))
    rw [Transition.echo_of_ne fun h => hnone k (Nat.lt_succ_self k) (haltsNext_of_step h),
      ← hbefore.machine] at hnext
    exact hbefore.followedBy hnext

/-- Up to the first step that does not go on the two machines do the same, and an echo is the last
that is written. -/
theorem advance_echoing (hquiet : m.config.echoOnHalt = false) (hr : Console.NeverFails r.inner)
    (hs : Console.NeverFails s.inner) (hcalls : s.calls = r.calls) (k : Nat) :
    Transition.Alongside (m.advance k r).echo (m.advance k r) (m.echoing.advance k s) := by
  induction k with
  | zero => exact ⟨rfl, rfl, rfl, hcalls.trans (List.append_nil _).symm, hquiet, hr, hs⟩
  | succ k ih =>
    rw [advance_succ_last, advance_succ_last, ih.goesOn]
    split
    · rename_i hgoes
      rw [Transition.echo_of_ne (by simp [Transition.result_of_goesOn hgoes])] at ih
      have hnext := step_echoing ih.quiet ih.never ih.never' (ih.calls.trans (List.append_nil _))
      rw [← ih.machine] at hnext
      exact ih.followedBy hnext
    · exact ih

end Machine

/-! ## Runs -/

/-- What two runs have come to, the second that of a machine that echoes. -/
structure Transition.Echoed (t : Transition (Recorded κ)) (u : Transition (Recorded ι)) : Prop where
  result : u.result = t.result
  machine : u.machine = t.machine.echoing
  log : u.log = t.log
  calls : ∃ os, t.console.calls = os.map .write ++ [.flush] ∧
    u.console.calls = (os ++ t.echo).map .write ++ [.flush]

/-- The end of a run is a flush, behind the echo. -/
theorem Transition.Alongside.conclude {t : Transition (Recorded κ)} {u : Transition (Recorded ι)}
    (h : Alongside t.echo t u) {os : List Output} (hos : t.console.calls = os.map .write) :
    t.conclude.Echoed u.conclude := by
  obtain ⟨d, hflush, -⟩ := Recorded.exists_answer h.never .flush
  obtain ⟨d', hflush', -⟩ := Recorded.exists_answer h.never' .flush
  rw [conclude_of_flush hflush, conclude_of_flush hflush']
  refine ⟨h.result, h.machine, ?_, os, ?_, ?_⟩
  · rw [h.log, h.result, h.machine]
    rfl
  · show t.console.calls ++ [.flush] = _
    rw [hos]
  · show u.console.calls ++ [.flush] = _
    rw [h.calls, hos, List.map_append]
    rfl

namespace Machine

variable {m : Machine} {c : κ} {d : ι}

theorem run_echoing (hquiet : m.config.echoOnHalt = false) (hc : Console.NeverFails c)
    (hd : Console.NeverFails d) (fuel : Nat) :
    Option.Rel Transition.Echoed (m.run fuel (⟨c, []⟩ : Recorded κ))
      (m.echoing.run fuel (⟨d, []⟩ : Recorded ι)) := by
  have hsteps := advance_echoing (m := m.started) (r := ⟨c, []⟩) (s := ⟨d, []⟩) hquiet hc hd rfl fuel
  have hcalls : (m.started.advance fuel (⟨c, []⟩ : Recorded κ)).console.calls =
      (m.started.outputs c fuel).map .write := by
    rw [advance_recorded]
  have hgoes := hsteps.goesOn
  unfold run
  show Option.Rel _ (if (m.started.advance fuel _).goesOn then _ else _)
    (if (m.started.echoing.advance fuel _).goesOn then _ else _)
  rw [hgoes]
  split
  · exact .none
  · exact .some (hsteps.conclude hcalls)

/-- A run of the machine that echoes ends if that of the other one does. -/
theorem exists_echoed {t : Transition (Recorded κ)} (hquiet : m.config.echoOnHalt = false)
    (hc : Console.NeverFails c) (hd : Console.NeverFails d)
    (h : m.RunsTo (⟨c, []⟩ : Recorded κ) t) :
    ∃ u, m.echoing.RunsTo (⟨d, []⟩ : Recorded ι) u ∧ t.Echoed u := by
  obtain ⟨fuel, hrun⟩ := h
  have hrel := run_echoing hquiet hc hd fuel
  rw [hrun] at hrel
  generalize hu : m.echoing.run fuel (⟨d, []⟩ : Recorded ι) = x at hrel
  cases hrel with
  | some hechoed => exact ⟨_, ⟨fuel, hu⟩, hechoed⟩

/-- And it ends only then. -/
theorem exists_run_of_echoing {u : Transition (Recorded ι)} (hquiet : m.config.echoOnHalt = false)
    (hc : Console.NeverFails c) (hd : Console.NeverFails d)
    (h : m.echoing.RunsTo (⟨d, []⟩ : Recorded ι) u) :
    ∃ t, m.RunsTo (⟨c, []⟩ : Recorded κ) t := by
  obtain ⟨fuel, hrun⟩ := h
  have hrel := run_echoing hquiet hc hd fuel
  rw [hrun] at hrel
  generalize ht : m.run fuel (⟨c, []⟩ : Recorded κ) = x at hrel
  cases hrel with
  | some => exact ⟨_, fuel, ht⟩

/-- **An echo adds one line.** Take a machine that does not echo and the same one that does, on
consoles that never fail. As long as no halt is executed, their steps come to the same, write the same
and note the same. Their runs end together: a run that ends with a fault is the same for both, and one
that halts is the same but for the value of the first register on a line of its own, behind all else
that is written. -/
theorem echo_adds_one_line (hquiet : m.config.echoOnHalt = false) (hc : Console.NeverFails c)
    (hd : Console.NeverFails d) :
    let r : Recorded κ := ⟨c, []⟩
    let s : Recorded ι := ⟨d, []⟩
    (∀ k, (∀ i, i < k → ¬ (m.attempts i r).machine.HaltsNext) →
      (m.echoing.attempts k s).shown =
        ((m.attempts k r).shown.1, (m.attempts k r).machine.echoing)) ∧
    ((∃ t, m.RunsTo r t) ↔ ∃ u, m.echoing.RunsTo s u) ∧
    ∀ t u, m.RunsTo r t → m.echoing.RunsTo s u →
      (∀ fault, t.result = .error fault → u.shown = (t.shown.1, t.machine.echoing)) ∧
      ∀ state, t.result = .ok state →
        u.result = t.result ∧ u.machine = t.machine.echoing ∧ u.log = t.log ∧
          u.shown.1.bytes =
            t.shown.1.bytes ++ Output.digits (t.machine.register .first) ++ [lineFeed] := by
  intro r s
  refine ⟨fun k hnone => ?_, ⟨?_, ?_⟩, fun t u ht hu => ?_⟩
  · have hsteps := attempts_echoing (r := r) (s := s) hquiet hc hd rfl hnone
    have hcalls := hsteps.calls.trans (List.append_nil _)
    simp only [Transition.shown, hsteps.result, hsteps.machine, hsteps.log, hcalls]
  · rintro ⟨t, ht⟩
    obtain ⟨u, hu, -⟩ := exists_echoed hquiet hc hd ht
    exact ⟨u, hu⟩
  · rintro ⟨u, hu⟩
    exact exists_run_of_echoing hquiet hc hd hu
  · obtain ⟨v, hv, hechoed⟩ := exists_echoed hquiet hc hd ht
    obtain rfl := hv.unique hu
    obtain ⟨os, hcalls, hcalls'⟩ := hechoed.calls
    refine ⟨fun fault hfault => ?_, fun state hstate => ?_⟩
    · rw [Transition.echo_of_ne (by simp [hfault]), List.append_nil] at hcalls'
      simp only [Transition.shown, hechoed.result, hechoed.machine, hechoed.log, hcalls, hcalls']
    · have hhalted : t.result = .ok .halted := by
        cases state with
        | halted => exact hstate
        | running => exact absurd hstate ht.result_ne_running
      have hecho : t.echo = [.number (t.machine.register .first)] := by
        simp only [Transition.echo, hhalted]
      refine ⟨hechoed.result, hechoed.machine, hechoed.log, ?_⟩
      simp only [Transition.shown, hcalls, hcalls', hecho, Reply.bytes_map_write,
        List.flatMap_append, List.flatMap_singleton, Output.bytes, List.append_assoc]

/-- A program that prints the first register and halts: the first step comes to the same with an echo
and without, and the run writes a line more. -/
theorem echo_adds_one_line_at_print :
    let m := ((powerOn {}).write 0 0x47).write 2 0x01
    let r : Recorded Transcript := ⟨.empty, []⟩
    (m.echoing.attempts 1 r).shown = ((m.attempts 1 r).shown.1, (m.attempts 1 r).machine.echoing) ∧
    ∃ t u, m.RunsTo r t ∧ m.echoing.RunsTo r u ∧ t.result = .ok .halted ∧
      u.machine = t.machine.echoing ∧ t.shown.1.bytes = [48, 10] ∧
      u.shown.1.bytes = [48, 10, 48, 10] := by
  intro m r
  let t := (m.started.advance 2 r).conclude
  have hnone : ∀ i, i < 1 → ¬ (m.attempts i r).machine.HaltsNext := by
    intro i hi
    obtain rfl := Nat.lt_one_iff.1 hi
    rintro ⟨-, hbyte⟩
    exact absurd hbyte (by decide)
  have hends : ¬ (m.started.advance 2 r).goesOn = true := by decide +kernel
  have ht : m.RunsTo r t := ⟨2, if_neg hends⟩
  have hresult : t.result = .ok .halted := by decide +kernel
  have hbytes : t.shown.1.bytes = [48, 10] := by decide +kernel
  have hfirst : t.machine.register .first = 0 := by decide +kernel
  have hquiet : m.config.echoOnHalt = false := rfl
  -- from here on the run need not be looked into
  clear_value t
  have hnever : Console.NeverFails Transcript.empty := Ledger.transcript.neverFails ⟨rfl, rfl⟩
  obtain ⟨hsteps, htogether, hruns⟩ := echo_adds_one_line hquiet hnever hnever
  obtain ⟨u, hu⟩ := htogether.1 ⟨t, ht⟩
  obtain ⟨-, hmachine, -, hmore⟩ := (hruns t u ht hu).2 .halted hresult
  rw [hbytes, hfirst] at hmore
  exact ⟨hsteps 1 hnone, t, u, ht, hu, hresult, hmachine, hbytes, hmore⟩

end Machine

end ByteComputer
