import ByteComputer.Proofs.Atomicity
import ByteComputer.Proofs.Console.Flushing

/-!
# Consoles that fail, and consoles that do not

A machine learns nothing from its console but that a write has failed, and that is the end of its
run. So a console that takes only the first few writes cuts a run short and changes nothing before.

* `Machine.agree_step`, `Machine.agree_advance`, `Machine.agree_run`: as long as the limit is not
  passed, steps and runs on both consoles agree (`Agree`).
* `Machine.refused_step`: the step that passes the limit.
* `Machine.run_cut_short`: a run on a console that fails is the run on one that does not, up to the
  first output that is refused.
-/

namespace ByteComputer

variable {κ ι : Type} [Console κ] [Console ι]

/-! ## Transitions that agree -/

/-- Two transitions agree in all but the console, and their consoles, one without a limit and one
with it, have the same bytes. -/
structure Agree (A : Ledger κ) (B : Ledger ι) (bytes : List UInt8) (left : Nat)
    (t : Transition κ) (u : Transition ι) : Prop where
  result : u.result = t.result
  machine : u.machine = t.machine
  log : u.log = t.log
  unlimited : A.Shows t.console bytes none
  limited : B.Shows u.console bytes (some left)

variable {A : Ledger κ} {B : Ledger ι} {bytes more : List UInt8} {left less : Nat}
  {t v : Transition κ} {u w : Transition ι}

theorem Agree.goesOn (h : Agree A B bytes left t u) : u.goesOn = t.goesOn := by
  unfold Transition.goesOn
  rw [h.result]

theorem Agree.followedBy (h : Agree A B bytes left t u) (hnext : Agree A B more less v w) :
    Agree A B more less (t.followedBy v) (u.followedBy w) where
  result := hnext.result
  machine := hnext.machine
  log := by
    show u.log ++ w.log = t.log ++ v.log
    rw [h.log, hnext.log]
  unlimited := hnext.unlimited
  limited := hnext.limited

theorem Agree.conclude (h : Agree A B bytes left t u) :
    Agree A B bytes left t.conclude u.conclude := by
  obtain ⟨d, hflush, hd⟩ := A.flushed h.unlimited
  obtain ⟨d', hflush', hd'⟩ := B.flushed h.limited
  rw [conclude_of_flush hflush, conclude_of_flush hflush']
  refine ⟨h.result, h.machine, ?_, hd, hd'⟩
  simp only [h.log, h.result, h.machine]

namespace Machine

variable {m : Machine} {a : κ} {b : ι}

/-! ## Within the limit -/

/-- A step that writes nothing does not look at its console. -/
theorem agree_of_silent (hsilent : m.offered = []) (ha : A.Shows a bytes none)
    (hb : B.Shows b bytes (some left)) : Agree A B bytes left (m.step a) (m.step b) := by
  unfold offered at hsilent
  unfold step
  cases hstate : m.state with
  | halted => exact ⟨rfl, rfl, rfl, ha, hb⟩
  | running =>
    cases hready : m.ready with
    | error fault => exact ⟨rfl, rfl, rfl, ha, hb⟩
    | ok i =>
      have houtput : m.output? i = none := by simpa [hstate, hready] using hsilent
      simp only [perform, houtput]
      exact ⟨rfl, rfl, rfl, ha, hb⟩

/-- A step whose output both consoles take. -/
theorem agree_of_written {o : Output} (hoffer : o ∈ m.offered) (ha : A.Shows a bytes none)
    (hb : B.Shows b bytes (some (left + 1))) :
    Agree A B (bytes ++ o.bytes) left (m.step a) (m.step b) := by
  obtain ⟨i, hstate, hready, houtput⟩ := ready_of_offered hoffer
  obtain ⟨d, hwrite, hd⟩ := A.taken o ha (Option.some_ne_none 0).symm
  obtain ⟨d', hwrite', hd'⟩ := B.taken o hb (by simp)
  simp only [step, hstate, hready, perform, houtput, hwrite, hwrite']
  exact ⟨rfl, rfl, rfl, hd, hd'⟩

/-- A step that writes no more than the limit. -/
theorem agree_step (ha : A.Shows a bytes none) (hb : B.Shows b bytes (some left))
    (hroom : m.offered.length ≤ left) :
    Agree A B (bytes ++ m.offered.flatMap Output.bytes) (left - m.offered.length)
      (m.step a) (m.step b) := by
  cases hoffer : m.offered with
  | nil =>
    rw [List.flatMap_nil, List.append_nil]
    exact agree_of_silent hoffer ha hb
  | cons o rest =>
    have hone := m.length_offered_le
    rw [hoffer, List.length_cons] at hone hroom
    obtain rfl : rest = [] := List.length_eq_zero_iff.1 (by omega)
    obtain ⟨less, rfl⟩ : ∃ less, left = less + 1 := Nat.exists_eq_succ_of_ne_zero (by omega)
    rw [List.flatMap_singleton, List.length_singleton, Nat.add_sub_cancel]
    exact agree_of_written (by rw [hoffer]; exact List.mem_singleton_self o) ha hb

theorem length_outputs_mono {j k : Nat} (h : j ≤ k) :
    (m.outputs a j).length ≤ (m.outputs a k).length := by
  induction h with
  | refl => exact Nat.le_refl _
  | step _ ih =>
    rw [outputs, List.length_append]
    omega

/-- The first steps agree if they write no more than the limit. -/
theorem agree_advance (ha : A.Shows a bytes none) (hb : B.Shows b bytes (some left)) (k : Nat)
    (hroom : (m.outputs a k).length ≤ left) :
    Agree A B (bytes ++ (m.outputs a k).flatMap Output.bytes) (left - (m.outputs a k).length)
      (m.advance k a) (m.advance k b) := by
  induction k with
  | zero => exact ⟨rfl, rfl, rfl, by simpa [outputs] using ha, by simpa [outputs] using hb⟩
  | succ k ih =>
    have hbefore := ih (Nat.le_trans (length_outputs_mono (Nat.le_succ k)) hroom)
    rw [outputs, List.length_append] at hroom
    rw [advance_succ_last, advance_succ_last, hbefore.goesOn, outputs]
    by_cases hgoes : (m.advance k a).goesOn
    · rw [if_pos hgoes] at hroom
      rw [if_pos hgoes, if_pos hgoes, if_pos hgoes, List.flatMap_append, ← List.append_assoc,
        List.length_append, ← Nat.sub_sub, hbefore.machine]
      exact hbefore.followedBy (agree_step hbefore.unlimited hbefore.limited (by omega))
    · rw [if_neg hgoes, if_neg hgoes, if_neg hgoes, List.append_nil]
      exact hbefore

/-- So do whole runs. -/
theorem agree_run (ha : A.Shows a bytes none) (hb : B.Shows b bytes (some left)) (k : Nat)
    (hroom : (({ m with state := .running } : Machine).outputs a k).length ≤ left) :
    Option.Rel
      (Agree A B
        (bytes ++ (({ m with state := .running } : Machine).outputs a k).flatMap Output.bytes)
        (left - (({ m with state := .running } : Machine).outputs a k).length))
      (m.run k a) (m.run k b) := by
  have hagree := agree_advance ha hb k hroom
  unfold run
  simp only [hagree.goesOn]
  split
  · exact .none
  · exact .some hagree.conclude

/-! ## Past the limit -/

/-- A step whose output goes past the limit. -/
theorem refused_step {o : Output} (hoffer : o ∈ m.offered) (hb : B.Shows b bytes (some 0)) :
    ∃ e, (m.step b).result = .error (.outputRefused e) ∧
      B.Shows (m.step b).console bytes (some 0) ∧
      (m.step b).machine =
        if m.read m.pc = Opcode.halt.byte then { m with state := .halted } else m := by
  obtain ⟨i, hstate, hready, houtput⟩ := ready_of_offered hoffer
  obtain ⟨d, e, hwrite, hd⟩ := B.refused o hb
  simp only [step, hstate, hready, perform, houtput, hwrite]
  refine ⟨e, rfl, hd, ?_⟩
  by_cases hi : i = .halt
  · rw [if_pos ((byte_eq_halt_iff hready).2 hi), hi]
    rfl
  · rw [if_neg (mt (byte_eq_halt_iff hready).1 hi), refused_of_ne_halt hi]

/-- Steps write one output at a time, so the limit is reached before it is passed. -/
theorem offered_of_outputs {j n : Nat} (hle : (m.outputs a j).length ≤ n)
    (hlt : n < (m.outputs a (j + 1)).length) :
    (m.advance j a).goesOn = true ∧ (∃ o, o ∈ (m.advance j a).machine.offered) ∧
      (m.outputs a j).length = n := by
  rw [outputs, List.length_append] at hlt
  by_cases hgoes : (m.advance j a).goesOn = true
  · rw [if_pos hgoes] at hlt
    have hone := (m.advance j a).machine.length_offered_le
    exact ⟨hgoes, List.length_pos_iff_exists_mem.1 (by omega), by omega⟩
  · rw [if_neg hgoes, List.length_nil] at hlt
    omega

/-- A run ends with the step that fails. -/
theorem run_of_advance_error {k fuel : Nat} {fault : Fault}
    (hlast : (({ m with state := .running } : Machine).advance k b).result = .error fault)
    (hfuel : k ≤ fuel) :
    m.run fuel b = some (({ m with state := .running } : Machine).advance k b).conclude := by
  refine run_of_le hfuel ?_
  have hends : ¬ (({ m with state := .running } : Machine).advance k b).goesOn := by
    intro hgoes
    rw [Transition.result_of_goesOn hgoes] at hlast
    cases hlast
  unfold run
  rw [if_neg hends]

/-- **A console that fails only cuts a run short.** Two consoles have the same bytes, one of them
without a limit and one that takes `n` more writes. Steps and runs that write no more than that
agree. If it is written more, the steps before the first refused output agree; the step that is
refused leaves its machine as it was, but for the state of a machine that was about to halt; and
the run on the console with the limit ends there, with the bytes of the first `n` outputs. -/
theorem run_cut_short (A : Ledger κ) (B : Ledger ι) {n : Nat} (ha : A.Shows a bytes none)
    (hb : B.Shows b bytes (some n)) :
    let first := { m with state := .running }
    let shown := fun k => bytes ++ (first.outputs a k).flatMap Output.bytes
    (∀ k, (first.advance k (⟨a, []⟩ : Recorded κ)).console.calls =
      (first.outputs a k).map .write) ∧
    (∀ k, (first.outputs a k).length ≤ n → ∃ left,
      Agree A B (shown k) left (first.advance k a) (first.advance k b) ∧
      Option.Rel (Agree A B (shown k) left) (m.run k a) (m.run k b)) ∧
    ∀ j, (first.outputs a j).length ≤ n → n < (first.outputs a (j + 1)).length →
      let before := (first.advance j a).machine
      let after := if before.read before.pc = Opcode.halt.byte then
        { before with state := .halted } else before
      (∀ i, i ≤ j → ∃ left,
        Agree A B (shown i) left (first.advance i a) (first.advance i b)) ∧
      (first.advance j a).goesOn = true ∧
      ∃ e, (before.step (first.advance j b).console).result = .error (.outputRefused e) ∧
        (before.step (first.advance j b).console).machine = after ∧
        ∀ fuel, j < fuel → ∃ t, m.run fuel b = some t ∧ t.result = .error (.outputRefused e) ∧
          t.machine = after ∧
          B.Shows t.console
            (bytes ++ ((first.outputs a (j + 1)).take n).flatMap Output.bytes) (some 0) := by
  intro first shown
  refine ⟨fun k => ?_, fun k hroom => ?_, fun j hle hlt => ?_⟩
  · rw [advance_recorded]
  · exact ⟨_, agree_advance ha hb k hroom, agree_run ha hb k hroom⟩
  · intro before after
    obtain ⟨hgoes, ⟨o, hoffer⟩, hlength⟩ := offered_of_outputs hle hlt
    have hagree := agree_advance ha hb j hle
    have hfull := hagree.limited
    rw [hlength, Nat.sub_self] at hfull
    obtain ⟨e, hresult, hshows, hmachine⟩ := refused_step hoffer hfull
    refine ⟨fun i hi => ?_, hgoes, e, hresult, hmachine, fun fuel hfuel => ?_⟩
    · exact ⟨_, agree_advance ha hb i (Nat.le_trans (length_outputs_mono hi) hle)⟩
    -- the last step on the console with the limit, and with it the run
    have hlast : first.advance (j + 1) b =
        (first.advance j b).followedBy (before.step (first.advance j b).console) := by
      rw [advance_succ_last, hagree.goesOn, if_pos hgoes, hagree.machine]
    have hfirst : (first.outputs a (j + 1)).take n = first.outputs a j := by
      rw [outputs]
      exact List.take_left' hlength
    obtain ⟨d, hflush, hd⟩ := B.flushed hshows
    have hconclude := conclude_of_flush (t := first.advance (j + 1) b) (by rw [hlast]; exact hflush)
    refine ⟨_, run_of_advance_error (by rw [hlast]; exact hresult) hfuel, ?_⟩
    rw [hconclude, hlast, hfirst]
    exact ⟨hresult, hmachine, hd⟩

/-- A machine that prints a number and echoes one when it halts, before a console that takes one
output. -/
theorem run_cut_short_at_echo :
    let m := ((powerOn { echoOnHalt := true }).write 0 0x47).write 2 0x01
    let c : Limited Transcript := { inner := .empty, writesLeft := some 1 }
    ∃ t e, m.run 2 c = some t ∧ t.result = .error (.outputRefused e) ∧
      t.machine = { m.execute (.printNumber 0) with state := .halted } ∧
      t.console.inner.bytes.toList = [48, 10] := by
  intro m c
  have hone : m.outputs Transcript.empty 1 = [.number 0] := rfl
  have htwo : m.outputs Transcript.empty 2 = [.number 0, .number 0] := by decide
  have hbefore : (m.advance 1 Transcript.empty).machine = m.execute (.printNumber 0) := rfl
  obtain ⟨-, -, hcut⟩ := run_cut_short (m := m) (a := Transcript.empty) (b := c) (n := 1)
    .transcript (.limited .transcript) ⟨rfl, rfl⟩ ⟨⟨rfl, rfl⟩, rfl, rfl⟩
  have hwithin : (m.outputs Transcript.empty 1).length ≤ 1 := by
    rw [hone]
    exact Nat.le_refl _
  have hbeyond : 1 < (m.outputs Transcript.empty 2).length := by
    rw [htwo]
    exact Nat.lt_succ_self _
  obtain ⟨-, -, e, -, -, hruns⟩ := hcut 1 hwithin hbeyond
  obtain ⟨t, hrun, hresult, hmachine, ⟨hbytes, -⟩, -, -⟩ := hruns 2 (Nat.lt_succ_self 1)
  have hhalt : (m.execute (.printNumber 0)).read (m.execute (.printNumber 0)).pc =
      Opcode.halt.byte := by decide
  refine ⟨t, e, hrun, hresult, ?_, ?_⟩
  · exact hmachine.trans (if_pos hhalt)
  · rw [hbytes]
    show [] ++ ((m.outputs Transcript.empty 2).take 1).flatMap Output.bytes = _
    rw [htwo]
    rfl

end Machine

end ByteComputer
