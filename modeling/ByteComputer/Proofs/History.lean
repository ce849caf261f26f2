import ByteComputer.Machine.Operation
import ByteComputer.Proofs.Atomicity
import ByteComputer.Proofs.Machine.Loading

/-!
# Histories

What happens to a machine in the course of operations: programs are loaded, cells are written, the
machine is reset, runs begin, and steps are taken, by themselves or in a run.

* `Machine.History`: the machines that a machine becomes by operations, each on a console of its
  own, with all that has happened to it on the way. A run counts also while it is going on.
* `Machine.History.induction`: what every single event preserves holds along every history.
* `Taken.executes_of_ok`, `Taken.steps_of_ok`, `Taken.read_of_ne`: what a step that was taken has
  done.
-/

namespace ByteComputer

/-! ## Steps that were taken -/

/-- A step that was taken on some console: the machine before it, how it ended, and the machine
after it. -/
structure Taken where
  before : Machine
  result : Except Fault State
  after : Machine
  taken : ∃ (κ : Type) (_ : Console κ) (c : κ),
    (before.step c).result = result ∧ (before.step c).machine = after

/-- The step has executed the instruction. -/
def Taken.Executes (s : Taken) (i : Instruction) : Prop :=
  (∃ state, s.result = .ok state) ∧ s.before.fetch = .ok i

theorem Taken.executes_of_ok {s : Taken} {state : State} (h : s.result = .ok state) :
    ∃ i, s.Executes i := by
  obtain ⟨κ, _, c, hresult, -⟩ := s.taken
  obtain ⟨i, -, hready, -⟩ := Machine.execute_of_step_ok (hresult.trans h)
  exact ⟨i, ⟨state, h⟩, (Machine.ready_eq_ok_iff.1 hready).1⟩

theorem Taken.eq_of_executes {s : Taken} {i j : Instruction} (hi : s.Executes i)
    (hj : s.Executes j) : i = j :=
  Except.ok.inj (hi.2.symm.trans hj.2)

/-- What a step that has executed an instruction has come from and come to. -/
theorem Taken.execute_of_executes {s : Taken} {i : Instruction} (h : s.Executes i) :
    s.before.ready = .ok i ∧ s.after = s.before.execute i := by
  obtain ⟨⟨state, hok⟩, hfetch⟩ := h
  obtain ⟨κ, _, c, hresult, hafter⟩ := s.taken
  obtain ⟨j, -, hready, hmachine, -⟩ := Machine.execute_of_step_ok (hresult.trans hok)
  obtain rfl := Except.ok.inj ((Machine.ready_eq_ok_iff.1 hready).1.symm.trans hfetch)
  exact ⟨hready, hafter.symm.trans hmachine⟩

/-- A step either executes an instruction or leaves all but the state as it was. -/
theorem Taken.executes_or_state (s : Taken) :
    (∃ i, s.Executes i) ∨ ∃ state, s.after = { s.before with state } := by
  cases hresult : s.result with
  | ok state => exact Or.inl (executes_of_ok hresult)
  | error fault =>
    right
    obtain ⟨κ, _, c, hstep, hafter⟩ := s.taken
    by_cases hne : (s.before.step c).machine = s.before
    · exact ⟨s.before.state, hafter.symm.trans hne⟩
    · have hchanged := Machine.changed_of_step_error (hstep.trans hresult) hne
      exact ⟨.halted, hafter.symm.trans hchanged.2.2.2⟩

/-- A step that succeeds is counted. -/
theorem Taken.steps_of_ok {s : Taken} {state : State} (h : s.result = .ok state) :
    s.after.steps = s.before.steps + 1 := by
  obtain ⟨i, hi⟩ := executes_of_ok h
  rw [(execute_of_executes hi).2]
  rfl

/-- A step that fails is not. -/
theorem Taken.steps_of_error {s : Taken} {fault : Fault} (h : s.result = .error fault) :
    s.after.steps = s.before.steps := by
  rcases s.executes_or_state with ⟨i, ⟨state, hok⟩, -⟩ | ⟨state, hstate⟩
  · rw [h] at hok
    cases hok
  · rw [hstate]

theorem Taken.config_after (s : Taken) : s.after.config = s.before.config := by
  obtain ⟨κ, _, c, -, hafter⟩ := s.taken
  rw [← hafter, Machine.config_step]

theorem Taken.stackFloor_after (s : Taken) : s.after.stackFloor = s.before.stackFloor := by
  rcases s.executes_or_state with ⟨i, hi⟩ | ⟨state, h⟩
  · rw [(execute_of_executes hi).2, Machine.stackFloor_execute]
  · rw [h]

/-- A step that changes a cell has executed an instruction that changes it. -/
theorem Taken.read_of_ne {s : Taken} {a : UInt8} (h : s.after.read a ≠ s.before.read a) :
    ∃ i, s.Executes i ∧ (s.before.execute i).read a ≠ s.before.read a := by
  rcases s.executes_or_state with ⟨i, hi⟩ | ⟨state, hstate⟩
  · rw [(execute_of_executes hi).2] at h
    exact ⟨i, hi, h⟩
  · rw [hstate] at h
    exact absurd rfl h

/-! ## Events -/

/-- What can happen to a machine. -/
inductive Event where
  | loaded (program : List UInt8)
  | reset
  | written (address value : UInt8)
  /-- A run has begun. -/
  | started
  | stepped (s : Taken)

/-- The event puts bytes into the memory from outside. -/
def Event.Foreign : Event → Prop
  | loaded _ | written _ _ => True
  | _ => False

/-- Where an element stands in a list that has got longer by one. -/
theorem mid_of_append_singleton {α : Type} {es fs gs : List α} {x y : α}
    (h : es ++ [x] = fs ++ y :: gs) :
    (es = fs ∧ x = y ∧ gs = []) ∨ ∃ hs, es = fs ++ y :: hs ∧ gs = hs ++ [x] := by
  rcases gs.eq_nil_or_concat with rfl | ⟨hs, z, rfl⟩
  · obtain ⟨hfs, hy⟩ := List.append_inj' h rfl
    exact Or.inl ⟨hfs, List.singleton_inj.1 hy, rfl⟩
  · rw [List.concat_eq_append, ← List.cons_append, ← List.append_assoc] at h
    obtain ⟨hes, hz⟩ := List.append_inj' h rfl
    rw [List.concat_eq_append, hz]
    exact Or.inr ⟨hs, hes, rfl⟩

namespace Machine

variable {κ : Type} [Console κ]

def taken (m : Machine) (c : κ) : Taken :=
  ⟨m, (m.step c).result, (m.step c).machine, κ, ‹_›, c, rfl, rfl⟩

theorem executes_taken {m : Machine} {c : κ} {state : State} {i : Instruction}
    (h : (m.step c).result = .ok state) (hfetch : m.fetch = .ok i) : (m.taken c).Executes i :=
  ⟨⟨state, h⟩, hfetch⟩

/-- The first `n` steps of a machine, none after one that does not go on. -/
def stepEvents : Nat → Machine → κ → List Event
  | 0, _, _ => []
  | n + 1, m, c =>
    .stepped (m.taken c) ::
      if (m.step c).goesOn then stepEvents n (m.step c).machine (m.step c).console else []

/-- What happens to a machine while an operation is carried out. -/
def events (fuel : Nat) (m : Machine) (c : κ) : Operation → List Event
  | .load program =>
    match m.load program with
    | .ok _ => [.loaded program]
    | .error _ => []
  | .reset => [.reset]
  | .write address value => [.written address value]
  | .step => m.stepEvents 1 c
  | .run => .started :: { m with state := .running }.stepEvents fuel c

/-- The machines that a machine can become by operations, each on any console, and what has happened
to it by then. Among them are those of a run that has not ended yet, and may never end. -/
inductive History (origin : Machine) : List Event → Machine → Prop
  | start : History origin [] origin
  | operation {κ : Type} [Console κ] {es : List Event} {m : Machine} {op : Operation}
      {t : Transition κ} (fuel : Nat) (c : κ) (h : History origin es m)
      (hop : m.apply fuel c op = some t) : History origin (es ++ m.events fuel c op) t.machine
  | during {κ : Type} [Console κ] {es : List Event} {m : Machine} (n : Nat) (c : κ)
      (h : History origin es m) :
      History origin (es ++ m.events n c .run) ({ m with state := .running }.advance n c).machine

theorem History.step {origin m : Machine} {es : List Event} (h : origin.History es m) (c : κ) :
    origin.History (es ++ [.stepped (m.taken c)]) (m.step c).machine := by
  have hop : m.apply 0 c .step = some (m.step c) := rfl
  have hevents : m.events 0 c .step = [.stepped (m.taken c)] := by
    simp [events, stepEvents]
  rw [← hevents]
  exact .operation 0 c h hop

theorem History.load {origin m fresh : Machine} {es : List Event} {program : List UInt8}
    (h : origin.History es m) (hload : m.load program = .ok fresh) (c : κ) :
    origin.History (es ++ [.loaded program]) fresh := by
  have hop : m.apply 0 c (.load program) =
      some ⟨.ok fresh.state, fresh, c, [.loadedProgram program.length]⟩ := by
    simp only [apply, install, hload]
  have hevents : m.events 0 c (.load program) = [.loaded program] := by
    simp only [events, hload]
  rw [← hevents]
  exact .operation 0 c h hop

/-- Histories in a row are a history. -/
theorem History.trans {origin m n : Machine} {es fs : List Event} (h : origin.History es m)
    (hn : m.History fs n) : origin.History (es ++ fs) n := by
  induction hn with
  | start => simpa using h
  | operation fuel c _ hop ih =>
    rw [← List.append_assoc]
    exact .operation fuel c ih hop
  | during k c _ ih =>
    rw [← List.append_assoc]
    exact .during k c ih

/-! ## Induction along a history -/

/-- What a single step preserves, the first steps of a machine preserve. -/
theorem advance_induction {P : List Event → Machine → Prop}
    (hstep : ∀ {es : List Event} {m : Machine} (c : κ), P es m →
      P (es ++ [.stepped (m.taken c)]) (m.step c).machine)
    {es : List Event} {m : Machine} (h : P es m) (n : Nat) (c : κ) :
    P (es ++ m.stepEvents n c) (m.advance n c).machine := by
  induction n generalizing es m c with
  | zero =>
    rw [stepEvents, List.append_nil]
    exact h
  | succ n ih =>
    have hfirst := hstep c h
    rw [advance_succ, stepEvents]
    split
    · have hrest := ih hfirst (m.step c).console
      rw [List.append_assoc] at hrest
      exact hrest
    · exact hfirst

/-- What every event preserves holds along every history. -/
theorem History.induction {origin : Machine} {P : List Event → Machine → Prop}
    (start : P [] origin)
    (loaded : ∀ {es : List Event} {m n : Machine} {program : List UInt8}, P es m →
      m.load program = .ok n → P (es ++ [.loaded program]) n)
    (reset : ∀ {es : List Event} {m : Machine}, P es m → P (es ++ [.reset]) m.reset)
    (written : ∀ {es : List Event} {m : Machine} (address value : UInt8), P es m →
      P (es ++ [.written address value]) (m.write address value))
    (started : ∀ {es : List Event} {m : Machine}, P es m →
      P (es ++ [.started]) { m with state := .running })
    (stepped : ∀ {κ : Type} [Console κ] {es : List Event} {m : Machine} (c : κ), P es m →
      P (es ++ [.stepped (m.taken c)]) (m.step c).machine)
    {es : List Event} {m : Machine} (h : origin.History es m) : P es m := by
  have hrun : ∀ {κ : Type} [Console κ] {es : List Event} {m : Machine} (n : Nat) (c : κ), P es m →
      P (es ++ m.events n c .run) ({ m with state := .running }.advance n c).machine := by
    intro κ _ es m n c ih
    have hsteps := advance_induction stepped (started ih) n c
    rw [List.append_assoc] at hsteps
    exact hsteps
  induction h with
  | start => exact start
  | @operation κ _ es m op t fuel c h hop ih =>
    cases op with
    | load program =>
      cases hop
      simp only [install, events]
      cases hload : m.load program with
      | ok n => exact loaded ih hload
      | error fault =>
        simp only [List.append_nil]
        exact ih
    | reset =>
      cases hop
      exact reset ih
    | write address value =>
      cases hop
      exact written address value ih
    | step =>
      cases hop
      have hone := advance_induction stepped ih 1 c
      rw [advance_succ] at hone
      split at hone <;> exact hone
    | run =>
      rw [machine_of_run hop]
      exact hrun fuel c ih
  | during n c h ih => exact hrun n c ih

/-- The same, while nothing is put into the memory from outside. -/
theorem History.induction_own {origin : Machine} {P : List Event → Machine → Prop}
    (start : P [] origin)
    (reset : ∀ {es : List Event} {m : Machine}, P es m → P (es ++ [.reset]) m.reset)
    (started : ∀ {es : List Event} {m : Machine}, P es m →
      P (es ++ [.started]) { m with state := .running })
    (stepped : ∀ {κ : Type} [Console κ] {es : List Event} {m : Machine} (c : κ), P es m →
      P (es ++ [.stepped (m.taken c)]) (m.step c).machine)
    {es : List Event} {m : Machine} (h : origin.History es m) (hes : ∀ e ∈ es, ¬ e.Foreign) :
    P es m := by
  have hinit : ∀ {es : List Event} {e : Event}, (∀ f ∈ es ++ [e], ¬ f.Foreign) →
      ∀ f ∈ es, ¬ f.Foreign := fun hes f hf => hes f (List.mem_append_left _ hf)
  refine History.induction (P := fun es m => (∀ e ∈ es, ¬ e.Foreign) → P es m)
    (fun _ => start) ?loaded (fun ih hes => reset (ih (hinit hes))) ?written
    (fun ih hes => started (ih (hinit hes))) (fun c ih hes => stepped c (ih (hinit hes))) h hes
  case loaded =>
    intro es m n program _ _ hes
    exact absurd trivial (hes (.loaded program) (by simp))
  case written =>
    intro es m address value _ hes
    exact absurd trivial (hes (.written address value) (by simp))

/-- Nothing that happens to a machine configures it anew. -/
theorem config_of_history {origin m : Machine} {es : List Event} (h : origin.History es m) :
    m.config = origin.config := by
  refine History.induction (P := fun _ n => n.config = origin.config) rfl ?loaded ?reset ?written
    ?started ?stepped h
  case loaded =>
    intro es n fresh program hn hload
    exact (frame_of_load hload).2.1.trans hn
  case reset | started => exact fun hn => hn
  case written => exact fun _ _ hn => hn
  case stepped =>
    intro κ _ es n c hn
    exact (n.taken c).config_after.trans hn

end Machine

end ByteComputer
