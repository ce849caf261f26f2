import ByteComputer.Console.Transcript
import ByteComputer.Proofs.Machine.Loading
import ByteComputer.Proofs.Machine.Loop
import ByteComputer.Proofs.Machine.View
import ByteComputer.Proofs.StackFloor

/-!
# What the guard of the stack does to a run

The stack floor, and the guard that makes calls respect it, can stop a machine and can do nothing else
to it. Of two machines that differ in no more than that, the laxer does what the stricter does until
the stricter refuses to push.

* `Machine.LaxerThan`, `Alike`: machines that differ in floor and guard only, and transitions of two
  such machines that differ in nothing else.
* `Machine.step_alike_or_partsAt`: one step of both is alike, or it is the one at which they part.
* `Machine.guard_only_stops`: any number of steps and whole runs, in general and for programs with
  zeros behind them.
-/

namespace ByteComputer

/-- The view of a machine as one with another stack floor and another guard. -/
def View.relaxed (floor : Nat) (guard : Bool) : View where
  floor _ := floor
  config cfg := { cfg with guardCall := guard }
  shows _ := true
  echoOnHalt _ := rfl
  trace _ _ := (Bool.and_true _).symm
  shows_of_level _ _ := rfl

namespace Machine

/-- The machine with another stack floor and another guard. -/
def relax (m : Machine) (floor : Nat) (guard : Bool) : Machine :=
  (View.relaxed floor guard).machine m

/-- The machines are equal in all but the stack floor and the guard of calls, where the second is
at least as strict. -/
structure LaxerThan (lax strict : Machine) : Prop where
  memory : lax.memory = strict.memory
  registers : lax.registers = strict.registers
  pc : lax.pc = strict.pc
  state : lax.state = strict.state
  steps : lax.steps = strict.steps
  trace : lax.config.trace = strict.config.trace
  echoOnHalt : lax.config.echoOnHalt = strict.config.echoOnHalt
  stackFloor : lax.stackFloor ≤ strict.stackFloor
  guardCall : lax.config.guardCall = true → strict.config.guardCall = true

theorem laxerThan_iff {lax strict : Machine} :
    lax.LaxerThan strict ↔
      ∃ floor guard, lax = strict.relax floor guard ∧ floor ≤ strict.stackFloor ∧
        (guard = true → strict.config.guardCall = true) := by
  constructor
  · intro h
    refine ⟨lax.stackFloor, lax.config.guardCall, ?_, h.stackFloor, h.guardCall⟩
    obtain ⟨memory, registers, pc, state, floor, ⟨trace, echo, guard⟩, steps⟩ := lax
    obtain ⟨rfl, rfl, rfl, rfl, rfl, rfl, rfl, -, -⟩ := h
    rfl
  · rintro ⟨floor, guard, rfl, hfloor, hguard⟩
    exact ⟨rfl, rfl, rfl, rfl, rfl, rfl, rfl, hfloor, hguard⟩

end Machine

/-- The result of the transition is that there is no room on the stack. -/
def Transition.Overflows {κ : Type} (t : Transition κ) : Prop :=
  ∃ sp pc, t.result = .error (.stackOverflow sp pc)

/-- Transitions of two machines, the first of them the laxer, that are alike in all else. -/
structure Alike {κ : Type} (t u : Transition κ) : Prop where
  result : t.result = u.result
  machine : t.machine.LaxerThan u.machine
  console : t.console = u.console
  log : t.log = u.log

theorem Alike.followedBy {κ : Type} {s t u v : Transition κ} (hst : Alike s t) (huv : Alike u v) :
    Alike (s.followedBy u) (t.followedBy v) :=
  ⟨huv.result, huv.machine, huv.console, by
    simp only [Transition.followedBy, hst.log, huv.log]⟩

namespace Machine

variable {κ : Type} {m lax strict : Machine} {floor : Nat} {guard : Bool}

/-- What a laxer machine shows of a transition of the stricter one, which keeps floor and guard. -/
theorem alike_through {t : Transition κ} (hframe : strict.SameFrame t.machine)
    (hfloor : floor ≤ strict.stackFloor) (hguard : guard = true → strict.config.guardCall = true) :
    Alike (t.through (View.relaxed floor guard)) t where
  result := rfl
  machine := by
    refine laxerThan_iff.2 ⟨floor, guard, rfl, ?_, ?_⟩
    · rw [hframe.stackFloor_eq]
      exact hfloor
    · rw [hframe.config_eq]
      exact hguard
  console := rfl
  log := List.filter_eq_self.2 fun _ _ => rfl

/-! ## One step -/

/-- What keeps the stack of a laxer machine from serving an instruction keeps that of the stricter
one from it. -/
theorem stackFault?_relax (hfloor : floor ≤ m.stackFloor)
    (hguard : guard = true → m.config.guardCall = true) (i : Instruction) :
    (m.relax floor guard).stackFault? i = m.stackFault? i ∨
      m.Overflows i.opcode ∧ (m.relax floor guard).stackFault? i = none := by
  have hover : (m.relax floor guard).Overflows i.opcode → m.Overflows i.opcode := by
    rintro ⟨hop, hsp⟩
    exact ⟨hop.imp_right (And.imp_right hguard), Nat.le_trans hsp hfloor⟩
  cases hlax : (m.relax floor guard).stackFault? i with
  | some fault =>
    left
    rw [eq_comm, stackFault?_eq_some_iff]
    exact (stackFault?_eq_some_iff.1 hlax).imp_left (And.imp_left hover)
  | none =>
    cases hstrict : m.stackFault? i with
    | none => exact Or.inl rfl
    | some fault =>
      rcases stackFault?_eq_some_iff.1 hstrict with ⟨h, -⟩ | ⟨h, -⟩
      · exact Or.inr ⟨h, rfl⟩
      · exact absurd h (stackFault?_eq_none_iff.1 hlax).2

/-- A laxer machine is ready for what the stricter one is, unless that has no room to push. -/
theorem ready_relax (hfloor : floor ≤ m.stackFloor)
    (hguard : guard = true → m.config.guardCall = true) :
    (m.relax floor guard).ready = m.ready ∨
      ∃ i, m.fetch = .ok i ∧ m.Overflows i.opcode ∧ (m.relax floor guard).ready = .ok i := by
  have hsame : (m.relax floor guard).fetch = m.fetch := rfl
  cases hfetch : m.fetch with
  | error fault =>
    left
    simp only [ready, hsame, hfetch]
    rfl
  | ok i =>
    rcases stackFault?_relax hfloor hguard i with hfault | ⟨hover, hnone⟩
    · left
      simp only [ready, hsame, hfetch, bind, Except.bind, hfault]
    · exact Or.inr ⟨i, rfl, hover, ready_eq_ok_iff.2 ⟨hsame.trans hfetch, hnone⟩⟩

variable [Console κ] {c : κ}

/-- A step at which the machines part: the stricter has no room for what the laxer pushes. -/
structure PartsAt (lax strict : Machine) (c : κ) : Prop where
  overflows : (strict.step c).Overflows
  machine : (strict.step c).machine = strict
  console : (strict.step c).console = c
  log : (strict.step c).log = (lax.step c).log
  executes : ∃ i : Instruction, (i.opcode = .push ∨ i.opcode = .call) ∧ strict.fetch = .ok i ∧
    lax.fetch = .ok i ∧ (lax.step c).result = .ok .running ∧
    (lax.step c).machine = lax.execute i ∧ (lax.step c).console = c

theorem partsAt_relax {i : Instruction} (hstate : m.state = .running) (hfetch : m.fetch = .ok i)
    (hover : m.Overflows i.opcode) (hready : (m.relax floor guard).ready = .ok i) :
    PartsAt (m.relax floor guard) m c := by
  have hop : i.opcode = .push ∨ i.opcode = .call := hover.1.imp_right And.left
  have hfault := stackFault?_eq_some_iff.2 (Or.inl ⟨hover, rfl⟩)
  have hstrict := (Outcome.faulted (c := c) hstate
    (ready_eq_error_iff.2 (Or.inr ⟨i, hfetch, hfault⟩))).eq_step
  have hquiet : (m.relax floor guard).output? i = none ∧ (m.relax floor guard).notes i = [] ∧
      ((m.relax floor guard).execute i).state = .running := by
    cases i with
    | push source | call target => exact ⟨rfl, rfl, hstate⟩
    | _ => rcases hop with h | h <;> cases h
  obtain ⟨houtput, hnotes, hrunning⟩ := hquiet
  have hlax := (Outcome.silent (c := c) (m := m.relax floor guard) hstate hready houtput).eq_step
  rw [hnotes, List.append_nil, hrunning] at hlax
  refine ⟨⟨m.sp, m.pc, ?_⟩, ?_, ?_, ?_, i, hop, hfetch, hfetch, ?_, ?_, ?_⟩
  all_goals simp only [hstrict, hlax]
  rfl

/-- One step of a laxer machine is that of the stricter one, unless they part. -/
theorem stepsThrough_or_partsAt (hfloor : floor ≤ m.stackFloor)
    (hguard : guard = true → m.config.guardCall = true) (c : κ) :
    StepsThrough (View.relaxed floor guard) m c ∨ PartsAt (m.relax floor guard) m c := by
  cases hstate : m.state with
  | halted =>
    left
    have hlax := (Outcome.atRest (c := c) (m := m.relax floor guard) hstate).eq_step
    rw [StepsThrough, (Outcome.atRest hstate).eq_step]
    exact hlax
  | running =>
    rcases ready_relax hfloor hguard with hready | ⟨i, hfetch, hover, hready⟩
    · exact Or.inl (stepsThrough_of_ready hready)
    · exact Or.inr (partsAt_relax hstate hfetch hover hready)

theorem step_alike_or_partsAt (h : lax.LaxerThan strict) (c : κ) :
    Alike (lax.step c) (strict.step c) ∨ PartsAt lax strict c := by
  obtain ⟨floor, guard, rfl, hfloor, hguard⟩ := laxerThan_iff.1 h
  refine (stepsThrough_or_partsAt hfloor hguard c).imp_left fun hthrough => ?_
  have hstep : (strict.relax floor guard).step c = _ := hthrough
  rw [hstep]
  exact alike_through (SameFrame.after_taken ⟨rfl, rfl⟩ c) hfloor hguard

/-! ## Several steps -/

/-- After `k` steps the two machines are alike, in what they have come to and in what they have
answered, written and noted. -/
def AlikeAfter (k : Nat) (lax strict : Machine) (c : κ) : Prop :=
  Alike (lax.attempts k c) (strict.attempts k c)

/-- The next step after `k` steps is one at which the machines part. -/
def PartAfter (k : Nat) (lax strict : Machine) (c : κ) : Prop :=
  PartsAt (lax.attempts k c).machine (strict.attempts k c).machine (strict.attempts k c).console

theorem alikeAfter_succ_or_partAfter {k : Nat} (h : AlikeAfter k lax strict c) :
    AlikeAfter (k + 1) lax strict c ∨ PartAfter k lax strict c := by
  simp only [AlikeAfter, attempts]
  rw [h.console]
  exact (step_alike_or_partsAt h.machine _).imp_left h.followedBy

/-- The machines are alike all the time, or until they part. -/
theorem alikeAfter_or_partAfter (h : lax.LaxerThan strict) (c : κ) (k : Nat) :
    (∀ j, j ≤ k → AlikeAfter j lax strict c) ∨
      ∃ j, j < k ∧ (∀ i, i ≤ j → AlikeAfter i lax strict c) ∧ PartAfter j lax strict c := by
  induction k with
  | zero =>
    left
    intro j hj
    obtain rfl := Nat.le_zero.1 hj
    exact ⟨congrArg Except.ok h.state, h, rfl, rfl⟩
  | succ k ih =>
    rcases ih with halike | ⟨j, hj, hparted⟩
    · rcases alikeAfter_succ_or_partAfter (halike k (Nat.le_refl k)) with hnext | hparts
      · left
        intro j hj
        rcases Nat.le_succ_iff.1 hj with hj | rfl
        · exact halike j hj
        · exact hnext
      · exact Or.inr ⟨k, Nat.lt_succ_self k, halike, hparts⟩
    · exact Or.inr ⟨j, Nat.lt_succ_of_lt hj, hparted⟩

/-! ## Runs -/

/-- A run of a laxer machine is that of the stricter one, if that does not run out of stack. -/
theorem run_alike_of_room (h : lax.LaxerThan strict)
    (hroom : ∀ t, ({ strict with state := .running } : Machine).LoopEnds c t → ¬ t.Overflows)
    (fuel : Nat) : Option.Rel Alike (lax.run fuel c) (strict.run fuel c) := by
  obtain ⟨floor, guard, rfl, hfloor, hguard⟩ := laxerThan_iff.1 h
  have hframe : ∀ n, strict.SameFrame
      (({ strict with state := .running } : Machine).advance n c).machine := by
    intro n
    have h := sameFrame_advance { strict with state := .running } n c
    exact ⟨h.stackFloor_eq, h.config_eq⟩
  have hrun : (strict.relax floor guard).run fuel c = _ :=
    run_through (v := View.relaxed floor guard) fun k _ hgoes => by
      refine (stepsThrough_or_partsAt ?_ ?_ _).resolve_right fun hparts => ?_
      · rw [(hframe k).stackFloor_eq]
        exact hfloor
      · rw [(hframe k).config_eq]
        exact hguard
      · obtain ⟨sp, pc, hresult⟩ := hparts.overflows
        have hlast := advance_succ_last k ({ strict with state := .running } : Machine) c
        rw [if_pos hgoes] at hlast
        have hover : (({ strict with state := .running } : Machine).advance (k + 1) c).result =
            .error (.stackOverflow sp pc) := by
          rw [hlast]
          exact hresult
        exact hroom _ (loopEnds_advance (by simp [hover])) ⟨sp, pc, hover⟩
  rw [hrun]
  cases hu : strict.run fuel c with
  | none => exact .none
  | some u =>
    refine .some (alike_through ?_ hfloor hguard)
    rw [machine_of_run hu]
    exact hframe fuel

/-! ## Programs -/

theorem getD_append_zeros (program : List UInt8) (zeros i : Nat) :
    (program ++ List.replicate zeros 0).getD i 0 = program.getD i 0 := by
  grind

/-- A program with zeros behind it leaves less room to the stack, and is the same in all else. -/
theorem laxerThan_of_load {origin origin' fresh fresh' : Machine} {program : List UInt8}
    {zeros : Nat} (hconfig : origin'.config = { origin.config with guardCall := guard })
    (hguard : origin.config.guardCall = true → guard = true)
    (hload : origin.load program = .ok fresh)
    (hload' : origin'.load (program ++ List.replicate zeros 0) = .ok fresh') :
    fresh.LaxerThan fresh' := by
  obtain ⟨memory, hmemory, rfl⟩ := load_eq_ok_iff.1 hload
  obtain ⟨memory', hmemory', rfl⟩ := load_eq_ok_iff.1 hload'
  obtain rfl : memory = memory' := Memory.ext_read fun a => by
    rw [Memory.read_of_ofProgram? hmemory, Memory.read_of_ofProgram? hmemory', getD_append_zeros]
  refine laxerThan_iff.2 ⟨program.length, origin.config.guardCall, ?_, ?_, ?_⟩
  · simp only [reset, hconfig]
    rfl
  · simp [reset]
  · simpa [reset, hconfig] using hguard

/-! ## Any number of steps, and runs -/

/-- The stricter of the two machines does what the laxer does, or stops. -/
structure OnlyStops (lax strict : Machine) (c : κ) : Prop where
  /-- As long as the stricter machine has had room on the stack, the two are alike. -/
  alike : ∀ k, (∀ j, j ≤ k → ¬ (strict.attempts j c).Overflows) → AlikeAfter k lax strict c
  /-- If they are not alike, they have parted before. -/
  parted : ∀ k, ¬ AlikeAfter k lax strict c →
    ∃ j, j < k ∧ (∀ i, i ≤ j → AlikeAfter i lax strict c) ∧ PartAfter j lax strict c
  /-- Runs are alike, also those that do not end, unless the stricter machine runs out of room. -/
  run : (∀ t, ({ strict with state := .running } : Machine).LoopEnds c t → ¬ t.Overflows) →
    ∀ fuel, Option.Rel Alike (lax.run fuel c) (strict.run fuel c)

theorem onlyStops_of_laxerThan (h : lax.LaxerThan strict) (c : κ) : OnlyStops lax strict c where
  alike k hroom := by
    rcases alikeAfter_or_partAfter h c k with halike | ⟨j, hj, -, hparts⟩
    · exact halike k (Nat.le_refl k)
    · exact absurd hparts.overflows (hroom (j + 1) hj)
  parted k hnot :=
    (alikeAfter_or_partAfter h c k).resolve_left fun halike => hnot (halike k (Nat.le_refl k))
  run hroom := run_alike_of_room h hroom

/-- **The guard only ever stops a machine.** A lower floor, or calls that are not guarded, change
nothing up to the step at which the stricter machine has no room on the stack. So it is with a
program and the same program with zeros behind it, guarded at least as much. -/
theorem guard_only_stops (c : κ) :
    (∀ lax strict : Machine, lax.LaxerThan strict → OnlyStops lax strict c) ∧
      ∀ (origin origin' fresh fresh' : Machine) (program : List UInt8) (zeros : Nat) (guard : Bool),
        origin'.config = { origin.config with guardCall := guard } →
        (origin.config.guardCall = true → guard = true) →
        origin.load program = .ok fresh →
        origin'.load (program ++ List.replicate zeros 0) = .ok fresh' →
        OnlyStops fresh fresh' c := by
  refine ⟨fun lax strict h => onlyStops_of_laxerThan h c, ?_⟩
  intro origin origin' fresh fresh' program zeros guard hconfig hguard hload hload'
  exact onlyStops_of_laxerThan (laxerThan_of_load hconfig hguard hload hload') c

/-- A program that pushes once, and the same program filled up with zeros to the base of the stack:
they part at the first step. -/
theorem guard_only_stops_at_filled_memory :
    let program : List UInt8 := [0x45, 0]
    let memory : Memory := ⟨Vector.ofFn fun i => program.getD i 0⟩
    let fresh := { powerOn {} with memory, stackFloor := 2 }
    let filled := { powerOn {} with memory, stackFloor := 0xF4 }
    (powerOn {}).load program = .ok fresh ∧
      (powerOn {}).load (program ++ List.replicate 242 0) = .ok filled ∧
      PartAfter 0 fresh filled Transcript.empty := by
  intro program memory fresh filled
  have hload : (powerOn {}).load program = .ok fresh :=
    load_eq_ok_iff.2 ⟨memory, if_pos (by decide), rfl⟩
  have hload' : (powerOn {}).load (program ++ List.replicate 242 0) = .ok filled := by
    have hfits : (program ++ List.replicate 242 0).length ≤ Memory.size := by
      rw [List.length_append, List.length_replicate]
      decide
    refine load_eq_ok_iff.2 ⟨memory, ?_, ?_⟩
    · rw [Memory.ofProgram?, if_pos hfits]
      simp only [getD_append_zeros]
      rfl
    · rw [List.length_append, List.length_replicate]
      rfl
  have hgoes : (fresh.step Transcript.empty).goesOn = true := by decide +kernel
  have hstops : (filled.step Transcript.empty).goesOn = false := by decide +kernel
  refine ⟨hload, hload', ?_⟩
  clear_value fresh filled
  have honly := (guard_only_stops Transcript.empty).2 (powerOn {}) (powerOn {}) fresh filled program
    242 true rfl (fun _ => rfl) hload hload'
  have hdiffer : ¬ AlikeAfter 1 fresh filled Transcript.empty := by
    intro halike
    have hsame : (fresh.step Transcript.empty).result = (filled.step Transcript.empty).result :=
      halike.result
    rw [Transition.goesOn, ← hsame] at hstops
    rw [Transition.goesOn] at hgoes
    exact Bool.false_ne_true (hstops.symm.trans hgoes)
  obtain ⟨j, hj, -, hparts⟩ := honly.parted 1 hdiffer
  obtain rfl := Nat.lt_one_iff.1 hj
  exact hparts

end Machine

end ByteComputer
