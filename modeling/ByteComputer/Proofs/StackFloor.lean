import ByteComputer.Console.Transcript
import ByteComputer.Proofs.History
import ByteComputer.Proofs.Machine.Loading

/-!
# The stack floor

A program that has been loaded lies below the stack floor, and what respects the floor does not
touch it, whatever value the stack pointer is given.

* `Machine.push_above_floor`: where an instruction writes that pushes with regard to the floor.
* `Machine.frame_of_history`: the floor stays where it is until the next program is loaded.
* `Machine.program_kept`: the program is kept along every history, unless a store, or a call that is
  not guarded, writes over it.
-/

namespace ByteComputer.Machine

/-! ## One instruction -/

/-- The instruction pushes with regard to the stack floor. -/
def RespectsFloor (guarded : Bool) (i : Instruction) : Prop :=
  i.opcode = .push ∨ i.opcode = .call ∧ guarded = true

/-- The instruction writes to the cell without regard to the stack floor. -/
def WritesFreely (m : Machine) (guarded : Bool) (a : UInt8) : Instruction → Prop
  | .store address _ => m.register address = a
  | .call _ => guarded = false ∧ m.sp - 1 = a
  | _ => False

/-- A push moves the stack pointer down by one, fills the cell that it then points to, and stays
above the stack floor. -/
theorem push_above_floor {m : Machine} {i : Instruction} (hready : m.ready = .ok i)
    (hi : RespectsFloor m.config.guardCall i) :
    (m.execute i).sp.toNat + 1 = m.sp.toNat ∧ m.stackFloor ≤ (m.execute i).sp.toNat ∧
      ∀ a, a ≠ (m.execute i).sp → (m.execute i).read a = m.read a := by
  have hfloor := floor_lt_of_ready hready hi
  have hpush : ∀ v, (m.pushByte v).sp.toNat + 1 = m.sp.toNat ∧
      m.stackFloor ≤ (m.pushByte v).sp.toNat ∧
      ∀ a, a ≠ (m.pushByte v).sp → (m.pushByte v).read a = m.read a := by
    intro v
    have hsp : (m.pushByte v).sp.toNat = m.sp.toNat - 1 := toNat_sp_pushByte (by omega)
    refine ⟨by omega, by omega, fun a ha => ?_⟩
    rw [sp_pushByte] at ha
    rw [read_pushByte, if_neg (Ne.symm ha)]
  cases i with
  | push source => exact hpush _
  | call target => exact hpush _
  | _ => rcases hi with h | ⟨h, -⟩ <;> cases h

/-- A cell below the stack floor is changed only by an instruction that has no regard to it. -/
theorem writesFreely_of_read_ne {m : Machine} {i : Instruction} {a : UInt8}
    (hready : m.ready = .ok i) (ha : a.toNat < m.stackFloor)
    (h : (m.execute i).read a ≠ m.read a) : m.WritesFreely m.config.guardCall a i := by
  by_cases hi : RespectsFloor m.config.guardCall i
  · obtain ⟨-, habove, hread⟩ := push_above_floor hready hi
    have hne : a ≠ (m.execute i).sp := by
      rintro rfl
      omega
    exact absurd (hread a hne) h
  · rcases eq_of_read_execute h with ⟨r, s, rfl, hr⟩ | ⟨hop, hsp⟩
    · exact hr.symm
    · have hcall : i.opcode = .call := hop.resolve_left fun hpush => hi (Or.inl hpush)
      have hfree : m.config.guardCall = false := by
        cases hguard : m.config.guardCall with
        | false => rfl
        | true => exact absurd (Or.inr ⟨hcall, hguard⟩) hi
      cases i with
      | call target => exact ⟨hfree, hsp.symm⟩
      | _ => cases hcall

/-- The same of a step that was taken. -/
theorem writesFreely_of_taken {s : Taken} {a : UInt8} (ha : a.toNat < s.before.stackFloor)
    (h : s.after.read a ≠ s.before.read a) :
    ∃ i, s.Executes i ∧ s.before.WritesFreely s.before.config.guardCall a i := by
  obtain ⟨i, hi, hchange⟩ := Taken.read_of_ne h
  exact ⟨i, hi, writesFreely_of_read_ne (Taken.execute_of_executes hi).1 ha hchange⟩

/-! ## Along a history -/

/-- The two machines have the same stack floor and configuration. -/
structure SameFrame (m n : Machine) : Prop where
  stackFloor_eq : n.stackFloor = m.stackFloor
  config_eq : n.config = m.config

theorem SameFrame.after_taken {κ : Type} [Console κ] {m n : Machine} (h : m.SameFrame n) (c : κ) :
    m.SameFrame (n.step c).machine :=
  ⟨(n.taken c).stackFloor_after.trans h.stackFloor_eq,
    (n.taken c).config_after.trans h.config_eq⟩

theorem sameFrame_advance {κ : Type} [Console κ] (m : Machine) (n : Nat) (c : κ) :
    m.SameFrame (m.advance n c).machine :=
  @advance_induction _ _ (fun _ t => m.SameFrame t) (fun c h => h.after_taken c) [] m ⟨rfl, rfl⟩ n c

/-- Floor and configuration stay as they are while no program is loaded. -/
theorem frame_of_history {origin m : Machine} {es : List Event} (h : origin.History es m)
    (hes : ∀ e ∈ es, ¬ e.Foreign) :
    origin.SameFrame m ∧ ∀ s, .stepped s ∈ es → origin.SameFrame s.before := by
  refine History.induction_own
    (P := fun es m => origin.SameFrame m ∧ ∀ s, .stepped s ∈ es → origin.SameFrame s.before)
    ?start ?reset ?started ?stepped h hes
  case start => exact ⟨⟨rfl, rfl⟩, fun s hs => absurd hs List.not_mem_nil⟩
  case reset | started =>
    rintro es m ⟨hm, hsteps⟩
    exact ⟨⟨hm.stackFloor_eq, hm.config_eq⟩, fun s hs => hsteps s (by simpa using hs)⟩
  case stepped =>
    rintro κ _ es m c ⟨hm, hsteps⟩
    refine ⟨hm.after_taken c, fun s hs => ?_⟩
    rcases List.mem_append.1 hs with hs | hs
    · exact hsteps s hs
    · cases List.mem_singleton.1 hs
      exact hm

/-- A cell that no step changes stays as it is while nothing is put into the memory from outside. -/
theorem read_of_history {origin m : Machine} {es : List Event} {a : UInt8}
    (h : origin.History es m) (hes : ∀ e ∈ es, ¬ e.Foreign)
    (hkeeps : ∀ s, .stepped s ∈ es → s.after.read a = s.before.read a) :
    m.read a = origin.read a := by
  refine History.induction_own
    (P := fun es m => (∀ s, .stepped s ∈ es → s.after.read a = s.before.read a) →
      m.read a = origin.read a)
    ?start ?reset ?started ?stepped h hes hkeeps
  case start => exact fun _ => rfl
  case reset | started =>
    intro es m ih hkeeps
    exact ih fun s hs => hkeeps s (List.mem_append_left _ hs)
  case stepped =>
    intro κ _ es m c ih hkeeps
    have hbefore := ih fun s hs => hkeeps s (List.mem_append_left _ hs)
    have hstep : (m.step c).machine.read a = m.read a := hkeeps (m.taken c) (by simp)
    rw [hstep, hbefore]

/-! ## The program -/

/-- The stack floor of every step after a program has been loaded is the length of the program. -/
theorem frame_of_loaded {origin fresh m : Machine} {program : List UInt8} {es : List Event}
    (hload : origin.load program = .ok fresh) (hhistory : fresh.History es m)
    (hes : ∀ e ∈ es, ¬ e.Foreign) {s : Taken} (hs : .stepped s ∈ es) :
    s.before.stackFloor = program.length ∧
      s.before.config.guardCall = origin.config.guardCall := by
  obtain ⟨hfloor, hconfig, -⟩ := frame_of_load hload
  have hframe := (frame_of_history hhistory hes).2 s hs
  rw [hframe.stackFloor_eq, hframe.config_eq, hfloor, hconfig]
  exact ⟨rfl, rfl⟩

/-- **The stack does not grow into the program.** After a program has been loaded, and whatever
value the stack pointer is given, a push stays above the program, and so does a call that is
guarded. Only a store, or a call that is not guarded, can change a cell of the program; if none
does, the program is still there. -/
theorem program_kept {origin fresh m : Machine} {program : List UInt8} {es : List Event}
    (hload : origin.load program = .ok fresh) (hhistory : fresh.History es m)
    (hes : ∀ e ∈ es, ¬ e.Foreign) :
    ((∀ s i a, .stepped s ∈ es → s.Executes i →
        s.before.WritesFreely origin.config.guardCall a i → program.length ≤ a.toNat) →
      ∀ (k : Nat) (hk : k < program.length), m.read k.toUInt8 = program[k]) ∧
    ∀ s, .stepped s ∈ es →
      (∀ a : UInt8, a.toNat < program.length → s.after.read a ≠ s.before.read a →
        ∃ i, s.Executes i ∧ s.before.WritesFreely origin.config.guardCall a i) ∧
      ∀ i, s.Executes i → RespectsFloor origin.config.guardCall i →
        program.length < 256 ∧ s.after.sp.toNat + 1 = s.before.sp.toNat ∧
          program.length ≤ s.after.sp.toNat ∧
          ∀ a, a ≠ s.after.sp → s.after.read a = s.before.read a := by
  have hfree : ∀ s, .stepped s ∈ es → ∀ a : UInt8, a.toNat < program.length →
      s.after.read a ≠ s.before.read a →
      ∃ i, s.Executes i ∧ s.before.WritesFreely origin.config.guardCall a i := by
    intro s hs a ha hne
    obtain ⟨hfloor, hguard⟩ := frame_of_loaded hload hhistory hes hs
    rw [← hguard]
    exact writesFreely_of_taken (by omega) hne
  refine ⟨fun hnone k hk => ?_, fun s hs => ⟨hfree s hs, fun i hi hrespects => ?_⟩⟩
  · have hk256 : k < 256 := Nat.lt_of_lt_of_le hk (length_le_of_load hload)
    have hnat : k.toUInt8.toNat = k := UInt8.toNat_ofNat_of_lt' hk256
    have hkept : m.read k.toUInt8 = fresh.read k.toUInt8 := by
      refine read_of_history hhistory hes fun s hs => ?_
      by_cases hsame : s.after.read k.toUInt8 = s.before.read k.toUInt8
      · exact hsame
      · obtain ⟨i, hi, hwrites⟩ := hfree s hs _ (by omega) hsame
        have := hnone s i _ hs hi hwrites
        omega
    obtain ⟨-, -, hread⟩ := frame_of_load hload
    rw [hkept, hread, hnat, List.getD_eq_getElem?_getD, List.getElem?_eq_getElem hk, Option.getD_some]
  · obtain ⟨hfloor, hguard⟩ := frame_of_loaded hload hhistory hes hs
    obtain ⟨hready, hafter⟩ := Taken.execute_of_executes hi
    rw [← hguard] at hrespects
    obtain ⟨hsp, habove, hcells⟩ := push_above_floor hready hrespects
    have hlt := s.before.sp.toNat_lt
    rw [hafter]
    exact ⟨by omega, hsp, by omega, hcells⟩

/-- A program that moves the stack pointer close to its own end: what it then pushes lies right
above it. -/
theorem program_kept_at_edge :
    let program : List UInt8 := [0x82, 7, 6, 0x45, 0]
    let memory : Memory := ⟨Vector.ofFn fun i => program.getD i 0⟩
    let fresh := { powerOn {} with memory, stackFloor := 5 }
    let low := fresh.execute (.loadImmediate 7 6)
    let t := low.step Transcript.empty
    let es : List Event :=
      [.stepped (fresh.taken Transcript.empty), .stepped (low.taken Transcript.empty)]
    (powerOn {}).load program = .ok fresh ∧ fresh.History es t.machine ∧
      (∀ e ∈ es, ¬ e.Foreign) ∧ t.machine.read 4 = 0 ∧ t.machine.sp.toNat + 1 = 6 := by
  intro program memory fresh low t es
  have hmemory : Memory.ofProgram? program = some memory := if_pos (by decide)
  have hread := Memory.read_of_ofProgram? hmemory
  have hload : (powerOn {}).load program = .ok fresh := by
    unfold load
    rw [hmemory]
    rfl
  have hfetch : fresh.fetch = .ok (.loadImmediate 7 6) :=
    fetch_eq_ok_iff.2 ⟨(hread 0).symm, congrArg UInt8.toNat (hread 1), hread 2⟩
  have hresult : (fresh.step Transcript.empty).result = .ok .running :=
    (result_step_eq_ok_iff rfl hfetch _).2 ⟨rfl, nofun, rfl⟩
  have hfetch' : low.fetch = .ok (.push 0) :=
    fetch_eq_ok_iff.2 ⟨(hread 3).symm, congrArg UInt8.toNat (hread 4)⟩
  have hresult' : t.result = .ok .running :=
    (result_step_eq_ok_iff rfl hfetch' _).2 ⟨by decide, nofun, rfl⟩
  have hfirst := executes_taken hresult hfetch
  have hsecond := executes_taken hresult' hfetch'
  have hlow : fresh.execute (.loadImmediate 7 6) = low := rfl
  have hsp : low.sp.toNat = 6 := rfl
  -- from here on the two machines need not be looked into
  clear_value low fresh
  have hhistory : fresh.History es t.machine := by
    have hstart : fresh.History [.stepped (fresh.taken Transcript.empty)]
        (fresh.taken Transcript.empty).after := .step .start Transcript.empty
    rw [(Taken.execute_of_executes hfirst).2.trans hlow] at hstart
    exact hstart.step Transcript.empty
  have hes : ∀ e ∈ es, ¬ e.Foreign := by simp [es, Event.Foreign]
  obtain ⟨hkept, hsteps⟩ := program_kept hload hhistory hes
  have hnone : ∀ s i a, .stepped s ∈ es → s.Executes i →
      s.before.WritesFreely (powerOn {}).config.guardCall a i → program.length ≤ a.toNat := by
    intro s i a hs hi hwrites
    rcases List.mem_cons.1 hs with hs | hs
    · cases hs
      cases Taken.eq_of_executes hi hfirst
      cases hwrites
    · cases List.mem_singleton.1 hs
      cases Taken.eq_of_executes hi hsecond
      cases hwrites
  obtain ⟨-, hpush⟩ := hsteps (low.taken Transcript.empty) (List.mem_cons_of_mem _ List.mem_cons_self)
  obtain ⟨-, hbelow, -, -⟩ := hpush (.push 0) hsecond (Or.inl rfl)
  exact ⟨hload, hhistory, hes, hkept hnone 4 (by decide), hbelow.trans hsp⟩

end ByteComputer.Machine
