import ByteComputer.Console.Transcript
import ByteComputer.Proofs.History
import ByteComputer.Proofs.Machine.Loading
import ByteComputer.Proofs.Machine.View

/-!
# Tracing

A machine that is traced does what it does without a trace, whatever is asked of it and on whatever
console. Only its log has more to say: one entry for each step that is begun, which shows the machine
as it is then.

* `Transition.silenced`: what a transition of a traced machine is without the trace.
* `Machine.apply_untraced`: every operation of the machine without the trace.
* `Machine.traces_advance`, `Machine.traces_apply`: what there is of a trace in the log.
* `Machine.Tandem`, `Machine.tracing_invisible`: a traced machine and the same one without a trace
  that are put to the same operations.
-/

namespace ByteComputer

/-- The entries of a trace. -/
def Log.traces (log : List Log.Entry) : List Log.Entry := log.filter fun e => e.level = .trace

/-- The log without the entries of a trace. -/
def Log.untraced (log : List Log.Entry) : List Log.Entry := log.filter fun e => e.level ≠ .trace

/-- The same machine without a trace. -/
def Machine.untraced (m : Machine) : Machine := { m with config := { m.config with trace := false } }

/-- The transition of the machine without a trace. -/
def Transition.silenced {κ : Type} (t : Transition κ) : Transition κ :=
  { t with machine := t.machine.untraced, log := Log.untraced t.log }

/-- The view of a machine as one without a trace. -/
def View.untraced : View where
  floor := id
  config cfg := { cfg with trace := false }
  shows e := e.level ≠ .trace
  echoOnHalt _ := rfl
  trace _ _ := (Bool.and_false _).symm
  shows_of_level _ h := decide_eq_true h

/-! ## The machine without a trace -/

namespace Machine

variable {κ : Type}

theorem install_untraced (m : Machine) (program : List UInt8) (c : κ) :
    m.untraced.install program c = (m.install program c).silenced := by
  unfold install load
  cases Memory.ofProgram? program with
  | none => rfl
  | some memory => rfl

variable [Console κ]

theorem step_untraced (m : Machine) (c : κ) : m.untraced.step c = (m.step c).silenced :=
  stepsThrough_of_ready (v := View.untraced) rfl

theorem advance_untraced (m : Machine) (n : Nat) (c : κ) :
    m.untraced.advance n c = (m.advance n c).silenced :=
  advance_through (v := View.untraced) fun _ _ _ => step_untraced _ _

theorem run_untraced (m : Machine) (fuel : Nat) (c : κ) :
    m.untraced.run fuel c = (m.run fuel c).map Transition.silenced :=
  run_through (v := View.untraced) fun _ _ _ => step_untraced _ _

/-- Every operation has the same answer without a trace, and the same effects. -/
theorem apply_untraced (m : Machine) (fuel : Nat) (c : κ) (op : Operation) :
    m.untraced.apply fuel c op = (m.apply fuel c op).map Transition.silenced := by
  cases op with
  | load program => exact congrArg some (install_untraced m program c)
  | reset => rfl
  | write address value => rfl
  | step => exact congrArg some (step_untraced m c)
  | run => exact run_untraced m fuel c

end Machine

/-! ## The entries of a trace -/

/-- The machine before a step, if it was one that takes steps. -/
def Event.begun? : Event → Option Machine
  | .stepped s => if s.before.state = .running then some s.before else none
  | _ => none

/-- The trace of what has happened: the machine before each step that was begun. -/
def Log.traceOf (es : List Event) : List Log.Entry :=
  (es.filterMap Event.begun?).map fun before => .aboutToStep before.snapshot

namespace Log

theorem traces_append (log more : List Log.Entry) :
    traces (log ++ more) = traces log ++ traces more :=
  List.filter_append log more

theorem untraced_append (log more : List Log.Entry) :
    untraced (log ++ more) = untraced log ++ untraced more :=
  List.filter_append log more

theorem traceOf_append (es fs : List Event) : traceOf (es ++ fs) = traceOf es ++ traceOf fs := by
  simp only [traceOf, List.filterMap_append, List.map_append]

end Log

open Log

theorem Transition.traces_conclude {κ : Type} [Console κ] (t : Transition κ) :
    traces t.conclude.log = traces t.log := by
  rcases hflush : Console.flush t.console with ⟨d, e | done⟩
  · rw [conclude_of_flush_error hflush]
  · rw [conclude_of_flush hflush, traces_append]
    cases t.result with
    | ok s => exact List.append_nil _
    | error fault => exact List.append_nil _

namespace Machine

variable {κ : Type} [Console κ] {m : Machine}

theorem traces_notes (m : Machine) (i : Instruction) : traces (m.notes i) = [] :=
  List.filter_eq_nil_iff.2 fun _ he => by simpa using level_of_notes he

/-- A step is traced if the machine has not halted, also a step that fails. -/
theorem traces_step (htrace : m.config.trace = true) (c : κ) :
    traces (m.step c).log = traceOf [.stepped (m.taken c)] := by
  have hnotes : traces m.traceNotes = [.aboutToStep m.snapshot] := by
    simp [traceNotes, htrace, traces, Entry.level]
  have hrunning : m.state = .running → traceOf [.stepped (m.taken c)] = [.aboutToStep m.snapshot] := by
    intro hstate
    simp [traceOf, Event.begun?, taken, hstate]
  have ho := m.outcome_step c
  generalize m.step c = t at ho
  cases ho with
  | atRest hstate => simp [traceOf, Event.begun?, taken, hstate, traces]
  | faulted hstate => rw [hrunning hstate, hnotes]
  | silent hstate | written hstate | refused hstate =>
    rw [hrunning hstate, traces_append, hnotes, traces_notes, List.append_nil]

theorem traces_advance (htrace : m.config.trace = true) (n : Nat) (c : κ) :
    traces (m.advance n c).log = traceOf (m.stepEvents n c) := by
  induction n generalizing m c with
  | zero => rfl
  | succ n ih =>
    have hfirst := traces_step htrace c
    have hnext : (m.step c).machine.config.trace = true :=
      (congrArg Config.trace (m.taken c).config_after).trans htrace
    rw [advance_succ, stepEvents]
    split
    · rw [Transition.followedBy, traces_append, hfirst, ih hnext, ← traceOf_append]
      rfl
    · exact hfirst

theorem traces_apply (htrace : m.config.trace = true) {fuel : Nat} {c : κ} {op : Operation}
    {t : Transition κ} (h : m.apply fuel c op = some t) :
    traces t.log = traceOf (m.events fuel c op) := by
  cases op with
  | load program =>
    cases h
    simp only [install, events]
    cases m.load program with
    | ok fresh => rfl
    | error fault => rfl
  | reset | write address value =>
    cases h
    rfl
  | step =>
    cases h
    rw [← advance_one]
    exact traces_advance htrace 1 c
  | run =>
    have hsteps := traces_advance (m := { m with state := .running }) htrace fuel c
    simp only [apply, run] at h
    split at h
    · cases h
    · cases h
      rw [Transition.traces_conclude, hsteps]
      rfl

/-! ## Operations one after the other -/

/-- Two machines are put to the same operations, each operation on the same console; a run counts
also while it is going on. Beside what they become stands what has happened to the first, and what
has been added to the log of each. -/
inductive Tandem (m n : Machine) :
    List Event → List Entry → List Entry → Machine → Machine → Prop
  | start : Tandem m n [] [] [] m n
  | operation {κ : Type} [Console κ] {es : List Event} {ls ls' : List Entry} {m' n' : Machine}
      {op : Operation} {t u : Transition κ} (fuel : Nat) (c : κ) (h : Tandem m n es ls ls' m' n')
      (ht : m'.apply fuel c op = some t) (hu : n'.apply fuel c op = some u) :
      Tandem m n (es ++ m'.events fuel c op) (ls ++ t.log) (ls' ++ u.log) t.machine u.machine
  | during {κ : Type} [Console κ] {es : List Event} {ls ls' : List Entry} {m' n' : Machine}
      {t u : Transition κ} (k : Nat) (c : κ) (h : Tandem m n es ls ls' m' n')
      (ht : ({ m' with state := .running } : Machine).advance k c = t)
      (hu : ({ n' with state := .running } : Machine).advance k c = u) :
      Tandem m n (es ++ m'.events k c .run) (ls ++ t.log) (ls' ++ u.log) t.machine u.machine

variable {m' n n' : Machine} {es : List Event} {ls ls' : List Entry}

theorem Tandem.history (h : m.Tandem n es ls ls' m' n') : m.History es m' := by
  induction h with
  | start => exact .start
  | operation fuel c _ ht _ ih => exact .operation fuel c ih ht
  | during k c _ ht _ ih =>
    subst ht
    exact .during k c ih

theorem Tandem.untraced (h : m.Tandem m.untraced es ls ls' m' n') :
    n' = m'.untraced ∧ ls' = Log.untraced ls := by
  induction h with
  | start => exact ⟨rfl, rfl⟩
  | @operation κ _ es ls ls' m' n' op t u fuel c _ ht hu ih =>
    obtain ⟨rfl, rfl⟩ := ih
    rw [apply_untraced, ht, Option.map_some] at hu
    cases hu
    exact ⟨rfl, (untraced_append _ _).symm⟩
  | @during κ _ es ls ls' m' n' t u k c _ ht hu ih =>
    obtain ⟨rfl, rfl⟩ := ih
    have hsteps := advance_untraced { m' with state := .running } k c
    obtain rfl : t.silenced = u := by
      rw [← ht, ← hu]
      exact hsteps.symm
    exact ⟨rfl, (untraced_append _ _).symm⟩

theorem Tandem.traces (htrace : m.config.trace = true) (h : m.Tandem n es ls ls' m' n') :
    traces ls = traceOf es := by
  induction h with
  | start => rfl
  | @operation κ _ es ls ls' m' n' op t u fuel c h ht _ ih =>
    have hm' := (congrArg Config.trace (config_of_history h.history)).trans htrace
    rw [traces_append, ih, traces_apply hm' ht, traceOf_append]
  | @during κ _ es ls ls' m' n' t u k c h ht _ ih =>
    have hm' := (congrArg Config.trace (config_of_history h.history)).trans htrace
    have hsteps := traces_advance (m := { m' with state := .running }) hm' k c
    rw [traces_append, ih, ← ht, hsteps, traceOf_append]
    rfl

/-- **A trace is not seen.** After the same operations the machine without a trace is what the
traced one is, and each further operation, or any number of steps of a run, comes to the same. Of the
log it lacks the trace, and that shows the machine before each step that was begun, in their order. -/
theorem tracing_invisible (htrace : m.config.trace = true)
    (h : m.Tandem m.untraced es ls ls' m' n') :
    n' = m'.untraced ∧ ls' = Log.untraced ls ∧
      Log.traces ls = (es.filterMap Event.begun?).map (fun before => .aboutToStep before.snapshot) ∧
      m.History es m' ∧
      (∀ (κ : Type) [Console κ] (fuel : Nat) (c : κ) (op : Operation),
        n'.apply fuel c op = (m'.apply fuel c op).map Transition.silenced) ∧
      ∀ (κ : Type) [Console κ] (k : Nat) (c : κ),
        ({ n' with state := .running } : Machine).advance k c =
          (({ m' with state := .running } : Machine).advance k c).silenced := by
  obtain ⟨rfl, rfl⟩ := h.untraced
  refine ⟨rfl, rfl, h.traces htrace, h.history, ?_, ?_⟩
  · intro κ _ fuel c op
    exact apply_untraced m' fuel c op
  · intro κ _ k c
    exact advance_untraced { m' with state := .running } k c

/-- A program that prints a number and comes to a byte that is no opcode. Both steps are traced, also
the one that fails. -/
theorem tracing_invisible_at_unknown_opcode :
    let program : List UInt8 := [0x47, 0x00, 0xFF]
    let memory : Memory := ⟨Vector.ofFn fun i => program.getD i 0⟩
    let m := powerOn { trace := true }
    let fresh := { m with memory, stackFloor := 3 }
    let last := (fresh.advance 2 Transcript.empty).conclude
    ∃ es ls ls' n', m.Tandem m.untraced es ls ls' last.machine n' ∧ n' = last.machine.untraced ∧
      ls' = [.loadedProgram 3, .stopped 1 (.unknownOpcode 0xFF 0x02)] ∧
      (es.filterMap Event.begun?).map (fun before => Entry.aboutToStep before.snapshot) =
        [.aboutToStep fresh.snapshot, .aboutToStep last.machine.snapshot] := by
  intro program memory m fresh last
  have hfresh : m.load program = .ok fresh := load_eq_ok_iff.2 ⟨memory, if_pos (by decide), rfl⟩
  have hends : (fresh.advance 2 Transcript.empty).goesOn = false := by decide +kernel
  have hlog : last.log = [.aboutToStep fresh.snapshot, .aboutToStep last.machine.snapshot,
      .stopped 1 (.unknownOpcode 0xFF 0x02)] := by decide +kernel
  have hstate := state_of_load hfresh
  have hload : m.apply 0 Transcript.empty (.load program) =
      some ⟨.ok .running, fresh, Transcript.empty, [.loadedProgram 3]⟩ := by
    simp only [apply, install, hfresh, hstate]
    rfl
  have hrun : fresh.apply 2 Transcript.empty .run = some last := by
    simp only [apply, run, running_eq_self hstate, hends]
    rfl
  have hloads := Tandem.operation 0 Transcript.empty (.start (n := m.untraced)) hload (by
    rw [apply_untraced, hload, Option.map_some])
  have hruns : fresh.untraced.apply 2 Transcript.empty .run = some last.silenced := by
    rw [apply_untraced, hrun, Option.map_some]
  have htandem := Tandem.operation 2 Transcript.empty hloads hrun hruns
  -- from here on the machine and its steps need not be looked into
  clear_value last fresh
  obtain ⟨hn, hls, htraces, -⟩ := tracing_invisible rfl htandem
  refine ⟨_, _, _, _, htandem, hn, ?_, ?_⟩
  · rw [hls, hlog]
    rfl
  · rw [← htraces, hlog]
    rfl

end Machine

end ByteComputer
