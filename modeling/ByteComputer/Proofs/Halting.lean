import ByteComputer.Console.Limited
import ByteComputer.Console.Transcript
import ByteComputer.Proofs.History
import Mathlib.Data.List.DropRight

/-!
# Halting

Whether a machine has halted is settled by the latest step that it has taken. That step has halted
the machine and was counted; or it was about to, and the console has refused its echo. In the second
case the machine has halted as well, although the step has failed and was not counted.

* `latestStep?`: the latest step in a list of events, if the machine was not set running since.
* `Taken.state_after_iff`: the steps behind which a machine has halted.
* `Machine.follows_of_history`: the state and the count of a machine are what the latest step has
  left.
* `Machine.halted_iff_counted_iff`: a machine that has halted has counted the step that has halted
  it, unless an echo was refused.
-/

namespace ByteComputer

/-! ## The latest step -/

namespace Event

/-- The event sets the machine running, whatever it has come to before. -/
def restarts : Event → Bool
  | loaded _ | reset | started => true
  | written _ _ | stepped _ => false

/-- The step that an event is, unless the machine has refused to take it. -/
def step? : Event → Option Taken
  | stepped s => if s.result = .error .halted then none else some s
  | _ => none

end Event

/-- The last step that was taken since the machine was set running. -/
def latestStep? (es : List Event) : Option Taken :=
  ((es.rtakeWhile fun e => !e.restarts).filterMap Event.step?).getLast?

section LatestStep

variable {es : List Event} {e : Event} {s : Taken}

theorem latestStep?_of_restarts (he : e.restarts = true) : latestStep? (es ++ [e]) = none := by
  rw [latestStep?, List.rtakeWhile_concat_neg _ _ _ (by simp [he])]
  rfl

theorem latestStep?_of_step (he : e.restarts = false) (hs : e.step? = some s) :
    latestStep? (es ++ [e]) = some s := by
  rw [latestStep?, List.rtakeWhile_concat_pos _ _ _ (by simp [he]), List.filterMap_append]
  simp [hs]

theorem latestStep?_of_no_step (he : e.restarts = false) (hs : e.step? = none) :
    latestStep? (es ++ [e]) = latestStep? es := by
  rw [latestStep?, List.rtakeWhile_concat_pos _ _ _ (by simp [he]), List.filterMap_append]
  simp [hs, latestStep?]

end LatestStep

/-! ## What a step leaves -/

namespace Taken

/-- The step came to a halt, and the console has refused the echo. -/
def EchoRefused (s : Taken) : Prop :=
  s.before.fetch = .ok .halt ∧ s.before.config.echoOnHalt = true ∧
    ∃ e, s.result = .error (.outputRefused e)

variable {s : Taken}

theorem not_echoRefused_of_ok {state : State} (h : s.result = .ok state) : ¬ s.EchoRefused := by
  rintro ⟨-, -, e, hrefused⟩
  rw [h] at hrefused
  cases hrefused

/-- Behind a step a machine has halted if the step says so, or if its echo was refused. -/
theorem state_after_iff (htaken : s.result ≠ .error .halted) :
    s.after.state = .halted ↔ s.result = .ok .halted ∨ s.EchoRefused := by
  obtain ⟨κ, _, c, hresult, hafter⟩ := s.taken
  have ho := s.before.outcome_step c
  generalize s.before.step c = t at ho hresult hafter
  cases ho with
  | atRest => exact absurd hresult.symm htaken
  | @faulted fault hstate hready =>
    have hrunning : s.after.state = .running := by
      rw [← hafter]
      exact hstate
    have hno : ¬ s.EchoRefused := by
      rintro ⟨hfetch, -⟩
      have hhalt := Machine.ready_eq_ok_iff.2 ⟨hfetch, rfl⟩
      rw [hready] at hhalt
      cases hhalt
    simp [hrunning, ← hresult, hno]
  | silent | written =>
    have hno := not_echoRefused_of_ok hresult.symm
    simp [← hresult, ← hafter, hno]
  | @refused i o d e hstate hready houtput =>
    by_cases hi : i = .halt
    · subst hi
      have hrefused : s.EchoRefused :=
        ⟨(Machine.ready_eq_ok_iff.1 hready).1, Machine.echo_of_output houtput, e, hresult.symm⟩
      simp [← hafter, Machine.refused, hrefused]
    · have hno : ¬ s.EchoRefused := by
        rintro ⟨hfetch, -⟩
        exact hi (Except.ok.inj ((Machine.ready_eq_ok_iff.1 hready).1.symm.trans hfetch))
      simp [← hresult, ← hafter, Machine.refused_of_ne_halt hi, hstate, hno]

end Taken

/-! ## Along a history -/

namespace Machine

/-- State and count of the machine are what the latest step has left, if there was one; if there was
none the machine is running. -/
def Follows (m : Machine) : Option Taken → Prop
  | none => m.state = .running
  | some s => m.state = s.after.state ∧ m.steps = s.after.steps ∧ s.result ≠ .error .halted

theorem follows_of_history {config : Config} {m : Machine} {es : List Event}
    (h : (powerOn config).History es m) : m.Follows (latestStep? es) := by
  refine History.induction (P := fun es m => m.Follows (latestStep? es))
    ?start ?loaded ?reset ?written ?started ?stepped h
  case start => exact (rfl : (powerOn config).state = .running)
  case loaded =>
    intro es m n program _ hload
    rw [latestStep?_of_restarts (e := .loaded program) rfl]
    exact state_of_load hload
  case reset =>
    intro es m _
    rw [latestStep?_of_restarts (e := .reset) rfl]
    rfl
  case written =>
    intro es m address value hm
    rw [latestStep?_of_no_step (e := .written address value) rfl rfl]
    exact hm
  case started =>
    intro es m _
    rw [latestStep?_of_restarts (e := .started) rfl]
    rfl
  case stepped =>
    intro κ _ es m c hm
    by_cases hrefuses : (m.taken c).result = .error .halted
    · -- a machine that has halted takes no step, and stays as it is
      have hsame : (m.step c).machine = m := (step_of_fault hrefuses nofun).1
      rw [latestStep?_of_no_step (e := .stepped (m.taken c)) rfl (if_pos hrefuses), hsame]
      exact hm
    · rw [latestStep?_of_step (e := .stepped (m.taken c)) rfl (if_neg hrefuses)]
      exact ⟨rfl, rfl, hrefuses⟩

/-- **A machine that has halted has counted that, unless an echo was refused.** In whatever way a
machine has come about, it has halted if the latest step since it was set running has halted it, or
has come to a halt whose echo the console refused. That step was counted if it succeeded, and only
then. So "the machine has halted" and "the latest step has halted it, and was counted" are the same
exactly if the latest step is not one whose echo was refused. -/
theorem halted_iff_counted_iff {config : Config} {m : Machine} {es : List Event}
    (h : (powerOn config).History es m) :
    (m.state = .halted ↔
      ∃ s, latestStep? es = some s ∧ (s.result = .ok .halted ∨ s.EchoRefused)) ∧
    (∀ s, latestStep? es = some s →
      (∀ state, s.result = .ok state → m.steps = s.before.steps + 1) ∧
      ∀ fault, s.result = .error fault → m.steps = s.before.steps) ∧
    ((m.state = .halted ↔
        ∃ s, latestStep? es = some s ∧ s.result = .ok .halted ∧ m.steps = s.before.steps + 1) ↔
      ¬ ∃ s, latestStep? es = some s ∧ s.EchoRefused) := by
  have hfollows := follows_of_history h
  cases hlatest : latestStep? es with
  | none =>
    rw [hlatest] at hfollows
    have hrunning : m.state = .running := hfollows
    simp [hrunning]
  | some s =>
    rw [hlatest] at hfollows
    obtain ⟨hstate, hsteps, htaken⟩ := hfollows
    have hhalted : m.state = .halted ↔ s.result = .ok .halted ∨ s.EchoRefused := by
      rw [hstate]
      exact Taken.state_after_iff htaken
    have hcounted : ∀ state, s.result = .ok state → m.steps = s.before.steps + 1 :=
      fun _ hok => hsteps.trans (Taken.steps_of_ok hok)
    refine ⟨?_, ?_, ?_⟩
    · simpa using hhalted
    · rintro _ ⟨⟩
      exact ⟨hcounted, fun _ hfault => hsteps.trans (Taken.steps_of_error hfault)⟩
    · have hsuccess : s.result = .ok .halted ∧ m.steps = s.before.steps + 1 ↔
          s.result = .ok .halted := and_iff_left_of_imp (hcounted .halted)
      have hexclusive : s.result = .ok .halted → ¬ s.EchoRefused := Taken.not_echoRefused_of_ok
      simp only [Option.some.injEq, exists_eq_left', hhalted, hsuccess]
      tauto

/-- A program that halts with an echo, before a console that takes nothing: the step has failed and
was not counted, and the machine has halted. -/
theorem halted_uncounted_at_refused_echo :
    let memory : Memory := ⟨Vector.ofFn fun i => [0x01].getD i 0⟩
    let fresh := { powerOn { echoOnHalt := true } with memory, stackFloor := 1 }
    let c : Limited Transcript := { inner := .empty, writesLeft := some 0 }
    let es := [.loaded [0x01], .stepped (fresh.taken c)]
    ∃ m, (powerOn { echoOnHalt := true }).History es m ∧
      latestStep? es = some (fresh.taken c) ∧
      (fresh.taken c).result = .error (.outputRefused .noSpace) ∧
      m.state = .halted ∧ m.steps = 0 ∧
      ¬ (m.state = .halted ↔ ∃ s, latestStep? es = some s ∧ s.result = .ok .halted ∧
        m.steps = s.before.steps + 1) := by
  intro memory fresh c es
  have hmemory : Memory.ofProgram? [0x01] = some memory := if_pos (by decide)
  have hload : (powerOn { echoOnHalt := true }).load [0x01] = .ok fresh :=
    load_eq_ok_iff.2 ⟨memory, hmemory, rfl⟩
  have hfetch : fresh.fetch = .ok .halt :=
    fetch_eq_ok_iff.2 ⟨(Memory.read_of_ofProgram? hmemory 0).symm, trivial⟩
  have houtput : fresh.output? .halt = some (.number (fresh.register .first)) := rfl
  have hecho : fresh.config.echoOnHalt = true := rfl
  have hsteps : fresh.steps = 0 := rfl
  -- from here on the machine need not be looked into
  clear_value fresh
  have hstate := state_of_load hload
  have hresult : (fresh.taken c).result = .error (.outputRefused .noSpace) :=
    (result_step_eq_refused_iff hstate hfetch c).2 ⟨_, c, houtput, rfl⟩
  have hrefused : (fresh.taken c).EchoRefused := ⟨hfetch, hecho, .noSpace, hresult⟩
  have hhistory : (powerOn { echoOnHalt := true }).History es (fresh.step c).machine :=
    (History.start.load hload c).step c
  have hlatest : latestStep? ([.loaded [0x01]] ++ [.stepped (fresh.taken c)]) =
      some (fresh.taken c) :=
    latestStep?_of_step rfl (if_neg (by rw [hresult]; nofun))
  obtain ⟨hhalted, hcounted, hexact⟩ := halted_iff_counted_iff hhistory
  refine ⟨_, hhistory, hlatest, hresult, ?_, ?_, ?_⟩
  · exact hhalted.2 ⟨_, hlatest, Or.inr hrefused⟩
  · exact ((hcounted _ hlatest).2 _ hresult).trans hsteps
  · exact mt hexact.1 fun hno => hno ⟨_, hlatest, hrefused⟩

end Machine

end ByteComputer
