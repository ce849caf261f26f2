import ByteComputer.Proofs.Console.Ledger
import ByteComputer.Proofs.Machine.Loop

/-!
# Flushing at the end of a run

A run ends with a flush, and a flush that fails is what the run ends with.

* `Console.flushFault?`, `result_conclude`: the fault that a flush comes to, and what it does to the
  result of a run.
* `Console.Flushes`: a console that can be flushed whatever is written to it. So can every console
  that keeps books (`Ledger.flushes`).
* `Machine.LoopEnds.flushFault?_eq_none`: such a console can be flushed at the end of a run.
-/

namespace ByteComputer

variable {κ : Type} [Console κ]

/-- The fault that flushing a console comes to, if it fails. -/
def Console.flushFault? (c : κ) : Option Fault :=
  match (Console.flush c).2 with
  | .ok () => none
  | .error e => some (.outputRefused e)

theorem Console.flushFault?_eq_none_iff {c : κ} :
    Console.flushFault? c = none ↔ (Console.flush c).2 = .ok () := by
  unfold flushFault?
  split <;> simp [*]

theorem result_conclude (t : Transition κ) :
    t.conclude.result =
      match Console.flushFault? t.console with
      | none => t.result
      | some fault => .error fault := by
  rcases hflush : Console.flush t.console with ⟨d, e | done⟩
  · rw [conclude_of_flush_error hflush]
    simp only [Console.flushFault?, hflush]
  · rw [conclude_of_flush hflush]
    simp only [Console.flushFault?, hflush]

/-! ## Consoles that can be flushed -/

/-- What writing makes of a console. -/
inductive Console.Reaches (c : κ) : κ → Prop
  | refl : Reaches c c
  | write {d : κ} (h : Reaches c d) (o : Output) : Reaches c (Console.write d o).1

/-- The console can be flushed, whatever is written to it before. -/
def Console.Flushes (c : κ) : Prop := ∀ d, Reaches c d → Console.flushFault? d = none

theorem Ledger.flushes (A : Ledger κ) {c : κ} {bytes : List UInt8} {left : Option Nat}
    (h : A.Shows c bytes left) : Console.Flushes c := by
  intro d hd
  have hshows : ∃ bytes left, A.Shows d bytes left := by
    induction hd with
    | refl => exact ⟨bytes, left, h⟩
    | @write d _ o ih =>
      obtain ⟨bytes, left, hd⟩ := ih
      by_cases hleft : left = some 0
      · subst hleft
        obtain ⟨d', e, hwrite, hd'⟩ := A.refused o hd
        rw [hwrite]
        exact ⟨bytes, some 0, hd'⟩
      · obtain ⟨d', hwrite, hd'⟩ := A.taken o hd hleft
        rw [hwrite]
        exact ⟨_, _, hd'⟩
  obtain ⟨bytes, left, hd⟩ := hshows
  obtain ⟨d', hflush, -⟩ := A.flushed hd
  rw [Console.flushFault?_eq_none_iff, hflush]

namespace Machine

variable {m : Machine} {c d : κ} {t : Transition κ}

theorem reaches_step (h : Console.Reaches c d) : Console.Reaches c (m.step d).console := by
  have ho := m.outcome_step d
  generalize m.step d = t at ho
  cases ho with
  | atRest | faulted | silent => exact h
  | @written i o d' _ _ _ hwrite =>
    have hd' := h.write o
    rw [hwrite] at hd'
    exact hd'
  | @refused i o d' e _ _ _ hwrite =>
    have hd' := h.write o
    rw [hwrite] at hd'
    exact hd'

theorem LoopEnds.reaches (hloop : m.LoopEnds d t) (h : Console.Reaches c d) :
    Console.Reaches c t.console := by
  induction hloop with
  | last => exact reaches_step h
  | next _ _ ih => exact ih (reaches_step h)

theorem LoopEnds.flushFault?_eq_none (hloop : m.LoopEnds c t) (h : Console.Flushes c) :
    Console.flushFault? t.console = none :=
  h t.console (hloop.reaches .refl)

end Machine

end ByteComputer
