import ByteComputer.Console.Transcript
import ByteComputer.Proofs.Atomicity
import ByteComputer.Proofs.Machine.Commands
import ByteComputer.Proofs.Machine.Loading

/-!
# How a run ends is how it stays

A run that has ended well leaves a machine that stands at a halt, and one that has ended with a fault
of the machine leaves it before what is at fault. To go on from there, by steps or by runs, leads
nowhere.

* `Machine.AtRest`, `Machine.StuckAt`: the two kinds of endings; what runs leave is of one of them
  (`Machine.RunsTo.atRest`, `Machine.RunsTo.stuckAt`).
* `Machine.reply_of_step`, `Machine.reply_of_run`: a step, and a run that its first step ends.
* `Machine.AtRest.exists_replies`, `Machine.StuckAt.exists_replies`: what commands to go on come to.
* `Machine.endings_stable`: all of this together.
-/

namespace ByteComputer

/-- The command asks for a step, or for a run that takes one at least. -/
def Command.Continues (cmd : Command) : Prop :=
  cmd.operation = .step ∨ cmd.operation = .run ∧ 0 < cmd.fuel

namespace Machine

/-- The machine has halted, and stands at a halt. -/
structure AtRest (m : Machine) : Prop where
  state : m.state = .halted
  fetch : m.fetch = .ok .halt

/-- The machine is running, and the fault keeps it from the next step. -/
structure StuckAt (m : Machine) (fault : Fault) : Prop where
  state : m.state = .running
  ready : m.ready = .error fault

/-! ## What a run leaves -/

section Runs

variable {κ : Type} [Console κ] {m : Machine} {c : κ} {t : Transition κ}

/-- Unless the console has failed, a run answers what its last step has answered. -/
theorem RunsTo.last_step (h : m.RunsTo c t) (hconsole : ∀ e, t.result ≠ .error (.outputRefused e)) :
    ∃ (before : Machine) (d : κ), before.state = .running ∧ (before.step d).result = t.result ∧
      (before.step d).machine = t.machine ∧ t.result ≠ .ok .running := by
  obtain ⟨u, hu, rfl⟩ := runsTo_iff.1 h
  obtain ⟨before, d, hstate, hresult, hmachine⟩ := hu.last_step rfl
  rcases hflush : Console.flush u.console with ⟨d', e | done⟩
  · rw [conclude_of_flush_error hflush] at hconsole
    exact absurd rfl (hconsole e)
  · rw [conclude_of_flush hflush]
    exact ⟨before, d, hstate, hresult.symm, hmachine.symm, hu.result_ne_running⟩

theorem RunsTo.atRest (h : m.RunsTo c t) {s : State} (hs : t.result = .ok s) :
    t.machine.AtRest := by
  obtain ⟨before, d, hstate, hresult, hmachine, hends⟩ := h.last_step (by simp [hs])
  obtain ⟨i, -, hready, hexecute, hafter⟩ := execute_of_step_ok (hresult.trans hs)
  rw [state_execute, hstate] at hafter
  have hi : i = .halt := by
    by_contra hne
    rw [if_neg hne] at hafter
    exact hends (hafter ▸ hs)
  subst hi
  rw [← hmachine, hexecute]
  exact ⟨before.state_execute .halt, (ready_eq_ok_iff.1 hready).1⟩

theorem RunsTo.stuckAt (h : m.RunsTo c t) {fault : Fault} (hfault : t.result = .error fault)
    (hconsole : ∀ e, fault ≠ .outputRefused e) : t.machine.StuckAt fault := by
  obtain ⟨before, d, hstate, hresult, hmachine, -⟩ := h.last_step (by simpa [hfault] using hconsole)
  rw [hfault] at hresult
  have hkept : t.machine = before := hmachine.symm.trans (step_of_fault hresult hconsole).1
  rw [hkept]
  have ho := before.outcome_step d
  generalize before.step d = u at ho hresult
  cases ho with
  | atRest hhalted => exact absurd (hstate.symm.trans hhalted) nofun
  | faulted _ hready =>
    cases hresult
    exact ⟨hstate, hready⟩
  | silent | written => cases hresult
  | refused =>
    cases hresult
    exact absurd rfl (hconsole _)

/-- A run that its first step ends. -/
theorem run_of_step (h : (m.started.step c).result ≠ .ok .running) (n : Nat) :
    m.run (n + 1) c = some (m.started.step c).conclude := by
  have hends := mt Transition.goesOn_iff.1 h
  have hsteps : m.started.advance (n + 1) c = m.started.step c := by
    rw [advance_succ, if_neg hends]
  show (if (m.started.advance (n + 1) c).goesOn then none
    else some (m.started.advance (n + 1) c).conclude) = _
  rw [hsteps, if_neg hends]

end Runs

/-! ## Going on -/

variable {m : Machine} {cmd : Command} {cmds : List Command}

theorem reply_of_step (hop : cmd.operation = .step) :
    m.reply cmd =
      some (⟨(m.step cmd.console).result, m.offered.map .write, (m.step cmd.console).log⟩,
        (m.step cmd.console).machine) := by
  rw [reply, hop]
  show some (Transition.shown (m.step _)) = _
  rw [step_recorded]
  rfl

theorem reply_of_run (hop : cmd.operation = .run) (hfuel : 0 < cmd.fuel)
    (hends : (m.started.step cmd.console).result ≠ .ok .running) :
    let t := m.started.step cmd.console
    m.reply cmd =
      some (⟨t.conclude.result, m.started.offered.map .write ++ [.flush], t.conclude.log⟩,
        t.machine) := by
  intro t
  obtain ⟨n, hn⟩ := Nat.exists_eq_succ_of_ne_zero (Nat.ne_of_gt hfuel)
  have hrecorded := m.started.step_recorded cmd.console []
  have hends' : (m.started.step (⟨cmd.console, []⟩ : Recorded cmd.κ)).result ≠ .ok .running := by
    rw [hrecorded]
    exact hends
  rw [reply, hop, hn, apply, run_of_step hends', hrecorded, conclude_recorded, ← machine_conclude]
  rfl

/-! ### From rest -/

/-- What a machine at rest answers: it takes no step, and a run halts again. -/
structure RepliesAtRest (m : Machine) (cmd : Command) (reply : Reply) : Prop where
  step : cmd.operation = .step → reply = ⟨.error .halted, [], []⟩
  run : cmd.operation = .run →
    reply.result = .ok .halted ∧
      reply.bytes =
        if m.config.echoOnHalt then Output.digits (m.register .first) ++ [lineFeed] else []

/-- The machine after commands, if all that they do to it is to halt it again. -/
def rested (m : Machine) (cmds : List Command) : Machine :=
  { m with steps := m.steps + cmds.countP fun cmd => cmd.operation = .run }

theorem AtRest.reply (h : m.AtRest) (hcmd : cmd.Continues)
    (hconsole : cmd.operation = .run → Console.NeverFails cmd.console) :
    ∃ reply, m.reply cmd = some (reply, m.rested [cmd]) ∧ m.RepliesAtRest cmd reply := by
  rcases hcmd with hop | ⟨hop, hfuel⟩
  · have hoffered : m.offered = [] := by simp [offered, h.state]
    have hrested : m.rested [cmd] = m := by simp [rested, hop]
    rw [reply_of_step hop, (Outcome.atRest h.state).eq_step, hoffered, hrested]
    exact ⟨_, rfl, fun _ => rfl, by simp [hop]⟩
  · -- the run sets the machine running, and its first step is the halt again
    have hnever := hconsole hop
    have hfetch : m.started.fetch = .ok .halt := h.fetch
    have hready : m.started.ready = .ok .halt := ready_eq_ok_iff.2 ⟨hfetch, rfl⟩
    have hresult : (m.started.step cmd.console).result = .ok .halted :=
      (result_step_eq_ok_iff rfl hfetch _).2 ⟨rfl, fun o _ => (hnever.answer (.write o)).1, rfl⟩
    have hflush := hnever.flushes _ (reaches_step .refl (m := m.started))
    have hoffered : m.started.offered = (m.output? .halt).toList := offered_of_ready rfl hready
    have hmachine : (m.started.step cmd.console).machine = m.rested [cmd] := by
      obtain ⟨i, -, hi, hexecute, -⟩ := execute_of_step_ok hresult
      obtain rfl := Except.ok.inj (hready.symm.trans hi)
      have hone : [cmd].countP (fun cmd => cmd.operation = .run) = 1 := by simp [hop]
      rw [hexecute, rested, hone, h.state]
      rfl
    rw [reply_of_run hop hfuel (by simp [hresult]), hmachine]
    refine ⟨_, rfl, by simp [hop], fun _ => ⟨?_, ?_⟩⟩
    · rw [result_conclude, hflush, hresult]
    · rw [Reply.bytes_map_write, hoffered, output?]
      cases m.config.echoOnHalt <;> simp [Output.bytes]

/-- A machine at rest stays at rest, and halts again as often as it is asked to. -/
theorem AtRest.exists_replies (h : m.AtRest)
    (hcmds : ∀ cmd ∈ cmds,
      cmd.Continues ∧ (cmd.operation = .run → Console.NeverFails cmd.console)) :
    ∃ replies, m.replies cmds = some (replies, m.rested cmds) ∧
      List.Forall₂ m.RepliesAtRest cmds replies := by
  induction cmds generalizing m with
  | nil => exact ⟨[], rfl, .nil⟩
  | cons cmd cmds ih =>
    obtain ⟨⟨hcmd, hconsole⟩, hrest⟩ := List.forall_mem_cons.1 hcmds
    obtain ⟨reply, hreply, hfirst⟩ := h.reply hcmd hconsole
    obtain ⟨replies, hreplies, hall⟩ := ih (m := m.rested [cmd]) ⟨h.state, h.fetch⟩ hrest
    have hsum : (m.rested [cmd]).rested cmds = m.rested (cmd :: cmds) := by
      simp only [rested, List.countP_cons, List.countP_nil]
      congr 1
      omega
    refine ⟨reply :: replies, ?_, .cons hfirst ?_⟩
    · rw [← hsum]
      exact replies_cons hreply hreplies
    · exact hall.imp fun _ _ hone => ⟨hone.step, hone.run⟩

/-! ### From a fault -/

theorem StuckAt.reply {fault : Fault} (h : m.StuckAt fault) (hcmd : cmd.Continues)
    (hconsole : cmd.operation = .run → Console.flushFault? cmd.console = none) :
    ∃ reply, m.reply cmd = some (reply, m) ∧ reply.result = .error fault ∧ reply.bytes = [] := by
  have hstarted : m.started = m := running_eq_self h.state
  have hstep := (Outcome.faulted (c := cmd.console) h.state h.ready).eq_step
  have hoffered : m.offered = [] := by simp [offered, h.state, h.ready]
  rcases hcmd with hop | ⟨hop, hfuel⟩
  · rw [reply_of_step hop, hstep, hoffered]
    exact ⟨_, rfl, rfl, rfl⟩
  · have hends : (m.started.step cmd.console).result ≠ .ok .running := by
      rw [hstarted, hstep]
      simp
    rw [reply_of_run hop hfuel hends, hstarted, hoffered, hstep]
    refine ⟨_, rfl, ?_, rfl⟩
    rw [result_conclude, hconsole hop]

theorem StuckAt.exists_replies {fault : Fault} (h : m.StuckAt fault)
    (hcmds : ∀ cmd ∈ cmds,
      cmd.Continues ∧ (cmd.operation = .run → Console.flushFault? cmd.console = none)) :
    ∃ replies, m.replies cmds = some (replies, m) ∧
      List.Forall₂ (fun _ reply => reply.result = .error fault ∧ reply.bytes = []) cmds replies := by
  induction cmds with
  | nil => exact ⟨[], rfl, .nil⟩
  | cons cmd cmds ih =>
    obtain ⟨⟨hcmd, hconsole⟩, hrest⟩ := List.forall_mem_cons.1 hcmds
    obtain ⟨reply, hreply, hfirst⟩ := h.reply hcmd hconsole
    obtain ⟨replies, hreplies, hall⟩ := ih hrest
    exact ⟨reply :: replies, replies_cons hreply hreplies, .cons hfirst hall⟩

/-- **How a run ends is how it stays.** Where a run has ended well the machine stands at a halt: it
takes no more steps, and further runs count one more step each, write the echo if there is one, and
change nothing else. Where a run has ended with a fault of the machine, further steps and runs end
with the same fault, change nothing and write nothing. -/
theorem endings_stable {κ : Type} [Console κ] {c : κ} {t : Transition κ} (h : m.RunsTo c t) :
    (∀ s, t.result = .ok s →
      t.machine.read t.machine.pc = Opcode.halt.byte ∧
      ∀ cmds : List Command,
        (∀ cmd ∈ cmds,
          cmd.Continues ∧ (cmd.operation = .run → Console.NeverFails cmd.console)) →
        ∃ replies, t.machine.replies cmds = some (replies, t.machine.rested cmds) ∧
          List.Forall₂ t.machine.RepliesAtRest cmds replies) ∧
    ∀ fault, t.result = .error fault → (∀ e, fault ≠ .outputRefused e) →
      ∀ cmds : List Command,
        (∀ cmd ∈ cmds,
          cmd.Continues ∧ (cmd.operation = .run → Console.flushFault? cmd.console = none)) →
        ∃ replies, t.machine.replies cmds = some (replies, t.machine) ∧
          List.Forall₂ (fun _ reply => reply.result = .error fault ∧ reply.bytes = [])
            cmds replies := by
  refine ⟨fun s hs => ?_, fun fault hfault hconsole cmds hcmds => ?_⟩
  · have hrest := h.atRest hs
    refine ⟨(fetch_eq_ok_iff.1 hrest.fetch).1.symm, fun cmds hcmds => ?_⟩
    exact hrest.exists_replies hcmds
  · exact (h.stuckAt hfault hconsole).exists_replies hcmds

/-- A machine that halts with an echo, and one with a byte at its counter that is no opcode. Both are
asked for another run and for a step. -/
theorem endings_stable_at_echo_and_fault :
    let m := (powerOn { echoOnHalt := true }).write 0 0x01
    let n := (powerOn {}).write 0 0xFF
    let cmds : List Command := [{ operation := .run, console := Transcript.empty, fuel := 1 },
      { operation := .step, console := Transcript.empty }]
    (∃ t replies, m.RunsTo Transcript.empty t ∧ t.result = .ok .halted ∧
      t.machine.replies cmds = some (replies, t.machine.rested cmds) ∧
      t.machine.steps = 1 ∧ (t.machine.rested cmds).steps = 2 ∧
      List.Forall₂ t.machine.RepliesAtRest cmds replies) ∧
    ∃ u replies, n.RunsTo Transcript.empty u ∧ u.result = .error (.unknownOpcode 0xFF 0) ∧
      u.machine.replies cmds = some (replies, u.machine) ∧
      List.Forall₂ (fun _ reply => reply.result = .error (.unknownOpcode 0xFF 0) ∧ reply.bytes = [])
        cmds replies := by
  intro m n cmds
  let t := (m.started.step Transcript.empty).conclude
  let u := (n.started.step Transcript.empty).conclude
  have ht : m.RunsTo Transcript.empty t := ⟨1, run_of_step (by decide +kernel) 0⟩
  have hu : n.RunsTo Transcript.empty u := ⟨1, run_of_step (by decide +kernel) 0⟩
  have hresult : t.result = .ok .halted := by decide +kernel
  have hfault : u.result = .error (.unknownOpcode 0xFF 0) := by decide +kernel
  have hsteps : t.machine.steps = 1 := by decide +kernel
  have hcontinues : ∀ cmd ∈ cmds, cmd.Continues := by simp [cmds, Command.Continues]
  have hnever : ∀ cmd ∈ cmds, Console.NeverFails cmd.console := by
    have hempty : Console.NeverFails Transcript.empty := Ledger.transcript.neverFails ⟨rfl, rfl⟩
    simp [cmds, hempty]
  -- from here on the machines and their runs need not be looked into
  clear_value t u
  obtain ⟨replies, hreplies, hall⟩ := ((endings_stable ht).1 _ hresult).2 cmds
    fun cmd hcmd => ⟨hcontinues cmd hcmd, fun _ => hnever cmd hcmd⟩
  obtain ⟨replies', hreplies', hall'⟩ := (endings_stable hu).2 _ hfault nofun cmds
    fun cmd hcmd => ⟨hcontinues cmd hcmd, fun _ => (hnever cmd hcmd).flushes _ .refl⟩
  have hrested : (t.machine.rested cmds).steps = 2 := by simp [rested, cmds, hsteps]
  exact ⟨⟨t, replies, ht, hresult, hreplies, hsteps, hrested, hall⟩,
    u, replies', hu, hfault, hreplies', hall'⟩

end Machine

end ByteComputer
