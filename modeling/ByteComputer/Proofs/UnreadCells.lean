import ByteComputer.Console.Transcript
import ByteComputer.Proofs.Machine.Cells
import ByteComputer.Proofs.SingleSteps

/-!
# Cells that are not read

What a machine without a trace does depends on the memory only in the cells that a step reads before
any step has filled them. What all other cells hold makes no difference: among them are the bytes
behind a shorter instruction, what is left over of a stack, and code that is never come to.

* `Machine.Fills`, `Machine.ReadsFirst`: the cells that some steps fill, and those that they read
  before they fill them.
* `Machine.FilledAlike`: what two memories hold after as many steps, in the cells that were filled and
  in the others.
* `Machine.attempts_withMemory`, `Machine.runsTo_withMemory`: steps and runs in another memory.
* `Machine.only_read_cells_matter`: both together.
-/

namespace ByteComputer

variable {κ : Type} [Console κ]

/-- The end of a run does not look at the memory. -/
theorem Transition.conclude_withMemory (t : Transition κ) (memory : Memory) :
    (t.withMemory memory).conclude = t.conclude.withMemory memory := by
  rcases hflush : Console.flush t.console with ⟨d, e | done⟩
  · rw [conclude_of_flush_error hflush, conclude_of_flush_error (t := t.withMemory memory) hflush]
    rfl
  · rw [conclude_of_flush hflush, conclude_of_flush (t := t.withMemory memory) hflush]
    rfl

namespace Machine

/-- One of the first `k` steps fills the cell. -/
def Fills (m : Machine) (c : κ) (k : Nat) (a : UInt8) : Prop :=
  ∃ j, j < k ∧ ∃ v, (m.attempts j c).machine.stores? = some (a, v)

/-- One of the first `k` steps reads the cell, and no step before that one fills it. -/
def ReadsFirst (m : Machine) (c : κ) (k : Nat) (a : UInt8) : Prop :=
  ∃ j, j < k ∧ a ∈ (m.attempts j c).machine.cellsRead ∧ ¬ m.Fills c j a

/-- The memory after the first `k` steps of the machine, and the one after as many steps that began
with another memory: they hold the same in the cells that were filled, and in the others what they
held at the beginning. -/
structure FilledAlike (m : Machine) (c : κ) (k : Nat) (memory later : Memory) : Prop where
  filled : ∀ a, m.Fills c k a → later.read a = (m.attempts k c).machine.read a
  kept : ∀ a, ¬ m.Fills c k a → later.read a = memory.read a
  kept' : ∀ a, ¬ m.Fills c k a → (m.attempts k c).machine.read a = m.read a

variable {m : Machine} {c : κ} {j k n : Nat} {memory later : Memory} {a : UInt8}

theorem fills_succ_iff :
    m.Fills c (k + 1) a ↔ m.Fills c k a ∨ ∃ v, (m.attempts k c).machine.stores? = some (a, v) := by
  constructor
  · rintro ⟨j, hj, hstores⟩
    rcases Nat.lt_succ_iff_lt_or_eq.1 hj with hlt | rfl
    · exact Or.inl ⟨j, hlt, hstores⟩
    · exact Or.inr hstores
  · rintro (⟨j, hj, hstores⟩ | hstores)
    · exact ⟨j, Nat.lt_succ_of_lt hj, hstores⟩
    · exact ⟨k, Nat.lt_succ_self k, hstores⟩

theorem ReadsFirst.of_le (hjk : j ≤ k) (h : m.ReadsFirst c j a) : m.ReadsFirst c k a := by
  obtain ⟨i, hi, hreads⟩ := h
  exact ⟨i, Nat.lt_of_lt_of_le hi hjk, hreads⟩

/-! ## Steps -/

/-- A cell that the next step reads holds the same in both memories: it was filled alike, or the two
held the same from the beginning. -/
theorem FilledAlike.read_eq (h : m.FilledAlike c k memory later)
    (hread : ∀ a, m.ReadsFirst c (k + 1) a → memory.read a = m.read a)
    (ha : a ∈ (m.attempts k c).machine.cellsRead) :
    later.read a = (m.attempts k c).machine.read a := by
  by_cases hfills : m.Fills c k a
  · exact h.filled a hfills
  · have hfirst : memory.read a = m.read a := hread a ⟨k, Nat.lt_succ_self k, ha, hfills⟩
    rw [h.kept a hfills, h.kept' a hfills, hfirst]

theorem FilledAlike.succ (htrace : m.config.trace = false) (h : m.FilledAlike c k memory later) :
    m.FilledAlike c (k + 1) memory (later.fill (m.attempts k c).machine.stores?) := by
  have htrace' : (m.attempts k c).machine.config.trace = false := by
    rw [config_attempts, htrace]
  have hafter : (m.attempts (k + 1) c).machine.memory =
      (m.attempts k c).machine.memory.fill (m.attempts k c).machine.stores? :=
    memory_step htrace' _
  refine ⟨fun a hfills => ?_, fun a hfills => ?_, fun a hfills => ?_⟩
  · show _ = (m.attempts (k + 1) c).machine.memory.read a
    rw [hafter]
    by_cases hlast : ∃ v, (m.attempts k c).machine.stores? = some (a, v)
    · obtain ⟨v, hv⟩ := hlast
      rw [hv, Memory.read_fill_some, Memory.read_fill_some]
    · have hbefore := (fills_succ_iff.1 hfills).resolve_right hlast
      rw [Memory.read_fill_of_ne (not_exists.1 hlast), Memory.read_fill_of_ne (not_exists.1 hlast)]
      exact h.filled a hbefore
  · obtain ⟨hbefore, hlast⟩ := not_or.1 (mt fills_succ_iff.2 hfills)
    rw [Memory.read_fill_of_ne (not_exists.1 hlast)]
    exact h.kept a hbefore
  · obtain ⟨hbefore, hlast⟩ := not_or.1 (mt fills_succ_iff.2 hfills)
    show (m.attempts (k + 1) c).machine.memory.read a = _
    rw [hafter, Memory.read_fill_of_ne (not_exists.1 hlast)]
    exact h.kept' a hbefore

theorem attempts_withMemory (htrace : m.config.trace = false)
    (hread : ∀ a, m.ReadsFirst c k a → memory.read a = m.read a) :
    ∃ later, (m.withMemory memory).attempts k c = (m.attempts k c).withMemory later ∧
      m.FilledAlike c k memory later := by
  induction k with
  | zero =>
    have hnone : ∀ a, ¬ m.Fills c 0 a := by
      rintro a ⟨j, hj, -⟩
      exact absurd hj (Nat.not_lt_zero j)
    exact ⟨memory, rfl, fun a h => absurd h (hnone a), fun _ _ => rfl, fun _ _ => rfl⟩
  | succ k ih =>
    obtain ⟨later, hsame, hcells⟩ := ih fun a ha => hread a (ha.of_le (Nat.le_succ k))
    have htrace' : (m.attempts k c).machine.config.trace = false := by
      rw [config_attempts, htrace]
    -- what the next step reads was filled alike, or is among the cells that agree
    have hnext := step_withMemory htrace' (fun a ha => hcells.read_eq hread ha)
      (m.attempts k c).console
    refine ⟨_, ?_, hcells.succ htrace⟩
    rw [attempts, hsame]
    exact congrArg ((m.attempts k c).followedBy ·) hnext

/-! ## Runs -/

theorem stopsAt_withMemory (htrace : m.config.trace = false)
    (hread : ∀ a, m.ReadsFirst c n a → memory.read a = m.read a) (hstops : m.StopsAt c n) :
    (m.withMemory memory).StopsAt c n := by
  have hresult : ∀ j, j ≤ n →
      ((m.withMemory memory).attempts j c).result = (m.attempts j c).result := by
    intro j hj
    obtain ⟨later, hsame, -⟩ := attempts_withMemory htrace fun a ha => hread a (ha.of_le hj)
    rw [hsame]
    rfl
  refine ⟨fun j hj => ?_, ?_⟩
  · rw [hresult j (Nat.le_of_lt hj)]
    exact hstops.goesOn j hj
  · rw [hresult n (Nat.le_refl n)]
    exact hstops.stops

theorem runsTo_withMemory {t : Transition κ} (htrace : m.config.trace = false)
    (hstops : m.started.StopsAt c n)
    (hread : ∀ a, m.started.ReadsFirst c n a → memory.read a = m.read a) (h : m.RunsTo c t) :
    ∃ later, (m.withMemory memory).RunsTo c (t.withMemory later) ∧
      m.started.FilledAlike c n memory later := by
  obtain ⟨later, hsame, hcells⟩ := attempts_withMemory (m := m.started) htrace hread
  have hstops' : (m.withMemory memory).started.StopsAt c n :=
    stopsAt_withMemory (m := m.started) htrace hread hstops
  have ht : t = (m.started.attempts n c).conclude :=
    h.unique (runsTo_iff_stopsAt.2 ⟨n, hstops, rfl⟩)
  refine ⟨later, runsTo_iff_stopsAt.2 ⟨n, hstops', ?_⟩, hcells⟩
  rw [ht, ← Transition.conclude_withMemory, ← hsame]
  rfl

/-- **Only cells that are read matter.** Take a machine without a trace, and the same one with
another memory that holds the same in all cells that are read before they are filled. Their steps
come to the same, and so do their runs; only the cells that were not filled hold what they held
before. -/
theorem only_read_cells_matter (m : Machine) (c : κ) (memory : Memory)
    (htrace : m.config.trace = false) :
    (∀ k, (∀ a, m.ReadsFirst c k a → memory.read a = m.read a) →
      ∀ j, j ≤ k →
        ∃ later, (m.withMemory memory).attempts j c = (m.attempts j c).withMemory later ∧
          m.FilledAlike c j memory later) ∧
    ∀ n t, m.started.StopsAt c n →
      (∀ a, m.started.ReadsFirst c n a → memory.read a = m.read a) → m.RunsTo c t →
        ∃ later, (m.withMemory memory).RunsTo c (t.withMemory later) ∧
          m.started.FilledAlike c n memory later := by
  refine ⟨fun k hread j hj => ?_, fun n t hstops hread h => ?_⟩
  · exact attempts_withMemory htrace fun a ha => hread a (ha.of_le hj)
  · exact runsTo_withMemory htrace hstops hread h

/-- A program that pushes the stack pointer, pops it into a register, and halts. It reads its own
five cells, and the cell of the stack only after it has filled it; so all other cells may hold
anything. -/
theorem only_read_cells_matter_at_stack :
    let program : List UInt8 := [0x45, 7, 0x46, 1, 0x01]
    let m := { powerOn {} with memory := ⟨Vector.ofFn fun i => program.getD i 0⟩ }
    let memory : Memory := ⟨Vector.ofFn fun i => program.getD i 0xFF⟩
    let c := Transcript.empty
    (∀ a, m.started.ReadsFirst c 3 a → a ∈ [0, 1, 2, 3, 4]) ∧
    ∃ t later, m.RunsTo c t ∧ (m.withMemory memory).RunsTo c (t.withMemory later) ∧
      t.result = .ok .halted ∧ t.machine.register 1 = 0xF4 ∧
      later.read 0xF3 = 0xF4 ∧ later.read 0xF2 = 0xFF := by
  intro program m memory c
  let t := (m.started.attempts 3 c).conclude
  have hfirst : (m.started.attempts 0 c).machine.cellsRead = [0, 1] := by decide +kernel
  have hsecond : (m.started.attempts 1 c).machine.cellsRead = [2, 3, 0xF3] := by decide +kernel
  have hthird : (m.started.attempts 2 c).machine.cellsRead = [4] := by decide +kernel
  have hpush : (m.started.attempts 0 c).machine.stores? = some (0xF3, 0xF4) := by decide +kernel
  have hpop : (m.started.attempts 1 c).machine.stores? = none := by decide +kernel
  have hhalt : (m.started.attempts 2 c).machine.stores? = none := by decide +kernel
  have hstops : m.started.StopsAt c 3 := ⟨by decide +kernel, by decide +kernel⟩
  have hends : t.result = .ok .halted ∧ t.machine.register 1 = 0xF4 ∧
      (m.started.attempts 3 c).machine.read 0xF3 = 0xF4 := by decide +kernel
  have hsame : ∀ a ∈ [0, 1, 2, 3, 4], memory.read a = m.read a := by decide +kernel
  have hread : ∀ a, m.started.ReadsFirst c 3 a → a ∈ [0, 1, 2, 3, 4] := by
    rintro a ⟨j, hj, ha, hfills⟩
    obtain rfl | rfl | rfl : j = 0 ∨ j = 1 ∨ j = 2 := by omega
    · rw [hfirst] at ha
      exact List.mem_append_left [2, 3, 4] ha
    · rw [hsecond] at ha
      have hne : a ≠ 0xF3 := by
        rintro rfl
        exact hfills ⟨0, Nat.one_pos, 0xF4, hpush⟩
      have hown : a ∈ [2, 3] := by simpa [hne] using ha
      exact List.mem_append_left [4] (List.mem_append_right [0, 1] hown)
    · rw [hthird] at ha
      exact List.mem_append_right [0, 1, 2, 3] ha
  have ht : m.RunsTo c t := runsTo_iff_stopsAt.2 ⟨3, hstops, rfl⟩
  -- from here on the run need not be looked into
  clear_value t
  obtain ⟨hresult, hpopped, htop⟩ := hends
  obtain ⟨later, ht', hcells⟩ := (only_read_cells_matter m c memory rfl).2 3 t hstops
    (fun a ha => hsame a (hread a ha)) ht
  have hfills : m.started.Fills c 3 0xF3 := ⟨0, by omega, 0xF4, hpush⟩
  have hkept : ¬ m.started.Fills c 3 0xF2 := by
    rintro ⟨j, hj, v, hv⟩
    obtain rfl | rfl | rfl : j = 0 ∨ j = 1 ∨ j = 2 := by omega
    · rw [hpush] at hv
      cases hv
    · rw [hpop] at hv
      cases hv
    · rw [hhalt] at hv
      cases hv
  refine ⟨hread, t, later, ht, ht', hresult, hpopped, ?_, ?_⟩
  · exact (hcells.filled _ hfills).trans htop
  · exact (hcells.kept _ hkept).trans (by decide +kernel)

end Machine

end ByteComputer
